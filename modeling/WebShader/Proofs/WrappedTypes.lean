import WebShader.Proofs.NaturalLayout
import WebShader.Proofs.TextMeaning

/-!
# Wrapped types

A sized type that is padded is spelled with wrappers, and converted by its spelling. What an
expression stands for is read off by an interpretation of accesses and constructors; the types of
expressions are one, and the conversions have the types that they should.
-/

namespace WebShader

namespace Wgsl

/-! ## Accesses -/

/-- A step from something to a part of it. -/
inductive Access where
  | element (k : Nat)
  | field (name : String)
  deriving DecidableEq

/-- The steps from something to what lies deeper in it. -/
abbrev Path := List Access

namespace Access

/-- The part of an expression that a step leads to. -/
def of (e : Expr) : Access → Expr
  | element k => .index e (.number k)
  | field name => .field e name

end Access

namespace TypeName

/-- The steps to the parts that a value of the type is built from, in order. -/
def accesses : TypeName → List Access
  | array _ n => (List.range n).map .element
  | primitive p => if p.isMatrix then (List.range p.cols.toNat).map .element else []
  | padded p => (wrapper p).fields.map fun f => .field f.name
  | _ => []

/-- The paths to the scalars and vectors that a value of the type consists of, in order. -/
def components : TypeName → List Path
  | array element n => (List.range n).flatMap fun k => element.components.map (.element k :: ·)
  | t => if t.accesses = [] then [[]] else t.accesses.map ([·])

/-! ## Wrapped types -/

/-- The type without its wrappers. -/
def plain : TypeName → TypeName
  | padded p => primitive p
  | array element n => array element.plain n
  | t => t

/-- Whether the type is the wrapper of a type of a valid shape, or made of such by arrays that have
a length. -/
def IsWrapped : TypeName → Prop
  | padded p => p.fault = none
  | array element n => 0 < n ∧ element.IsWrapped
  | _ => False

/-- A value of the type, given the value without its wrappers. -/
def wrap : TypeName → Expr → Expr
  | padded p, e =>
    .construct (padded p)
      (if p.isMatrix then (List.range p.cols.toNat).map fun c => .index e (.number c) else [e])
  | array element n, e =>
    .construct (array element n) ((List.range n).map fun k => element.wrap (.index e (.number k)))
  | _, e => e

/-- The value without its wrappers, given a value of the type. -/
def unwrap : TypeName → Expr → Expr
  | padded p, e =>
    if p.isMatrix then
      .construct (primitive p) ((List.range p.cols.toNat).map fun c => .field e ("c" ++ toString c))
    else .field e "v"
  | array element n, e =>
    .construct (array element.plain n)
      ((List.range n).map fun k => element.unwrap (.index e (.number k)))
  | _, e => e

end TypeName

/-! ## Conversions of registered types -/

/-- A registered type is spelled by a name under `std140` rules, and by the name without wrappers
elsewhere. Conversions between the two are those between the names. -/
structure Spells (r : Registry) (t : TypeId) (w : TypeName) : Prop where
  isWrapped : w.IsWrapped
  std140 : std140TypeName r t = .ok w
  natural : typeName r t = .ok w.plain
  store : ∀ e, store r t e = .ok (w.wrap e)
  load : ∀ e, load r t e = .ok (w.unwrap e)

section Spells

variable {r : Registry}

/-- The results of a function that does not fail. -/
theorem mapM_range_eq_ok {α : Type} {f : Nat → Except ShaderError α} {g : Nat → α}
    (h : ∀ k, f k = .ok (g k)) (n : Nat) :
    (List.range n).mapM f = .ok ((List.range n).map g) := by
  rw [mapM_eq_ok_iff, List.forall₂_map_right_iff, List.forall₂_same]
  exact fun k _ => h k

/-- The name of an array is made of that of its elements. -/
theorem typeName_array (hr : r.Sound) {t element : TypeId} {n : Nat}
    (hk : r.kind t = .array element n) :
    typeName r t = (typeName r element).map fun name => .array name n := by
  have hdown := hr.wellFormed t element (by rw [hk]; exact List.mem_cons_self)
  rw [typeName, hk]
  simp only [hdown, if_true]

/-- An array is stored element by element. -/
theorem store_array (hr : r.Sound) {t element : TypeId} {n : Nat} {w : TypeName}
    (hk : r.kind t = .array element n) (hn : 0 < n) (hw : std140TypeName r t = .ok w)
    {item : Expr → Expr} (hitem : ∀ e, (scalarElement? r element).elim (store r element e)
      (fun p => .ok (.construct (.padded p) [e])) = .ok (item e)) (e : Expr) :
    store r t e = .ok (.construct w ((List.range n).map fun k => item (.index e (.number k)))) := by
  have hdown := hr.wellFormed t element (by rw [hk]; exact List.mem_cons_self)
  rw [store, hk]
  simp only [hdown, if_true, Nat.ne_of_gt hn, if_false, hw]
  cases hs : scalarElement? r element with
  | none | some =>
      rw [hs] at hitem
      dsimp only [Option.elim] at hitem ⊢
      rw [mapM_range_eq_ok fun k => hitem (.index e (.number k))]
      rfl

/-- An array is loaded element by element. -/
theorem load_array (hr : r.Sound) {t element : TypeId} {n : Nat} {name : TypeName}
    (hk : r.kind t = .array element n) (hn : 0 < n) (hname : typeName r t = .ok name)
    {item : Expr → Expr} (hitem : ∀ e, (scalarElement? r element).elim (load r element e)
      (fun _ => .ok (.field e "v")) = .ok (item e)) (e : Expr) :
    load r t e =
      .ok (.construct name ((List.range n).map fun k => item (.index e (.number k)))) := by
  have hdown := hr.wellFormed t element (by rw [hk]; exact List.mem_cons_self)
  rw [load, hk]
  simp only [hdown, if_true, Nat.ne_of_gt hn, if_false, hname]
  cases hs : scalarElement? r element with
  | none | some =>
      rw [hs] at hitem
      dsimp only [Option.elim] at hitem ⊢
      rw [mapM_range_eq_ok fun k => hitem (.index e (.number k))]
      rfl

/-- A sized type that is padded is spelled with wrappers, and converted by them. -/
theorem exists_spells (hr : r.Sound) {t : TypeId} (hpadded : isPadded r t = true)
    (hsized : r.isRuntimeSized t = false) : ∃ w, Spells r t w := by
  unfold isPadded at hpadded
  have hvalid := hr.valid t
  cases hk : r.kind t with
  | primitive p =>
      rw [hk] at hvalid
      have hmatrix : isPaddedMatrix p = true := by
        by_contra hne
        rw [wrapped?, hk] at hpadded
        simp [hne] at hpadded
      have hcolumns : p.isMatrix = true := by
        rw [isPaddedMatrix, Bool.and_eq_true] at hmatrix
        exact hmatrix.1
      refine ⟨.padded p, hvalid, ?_, ?_, fun e => ?_, fun e => ?_⟩
      · rw [std140TypeName, hk]
        simp only [hmatrix, if_true]
      · rw [typeName, hk]
        rfl
      · rw [store, hk]
        simp only [hmatrix, if_true, TypeName.wrap, hcolumns]
      · rw [load, hk]
        simp only [hmatrix, if_true, TypeName.unwrap, hcolumns]
  | array element n =>
      rw [hk] at hvalid
      rw [wrapped?_array hr hk] at hpadded
      rw [Registry.isRuntimeSized_array hk, beq_eq_false_iff_ne] at hsized
      have hn : 0 < n := Nat.pos_of_ne_zero hsized
      -- elements that are scalars or vectors are wrapped here, and others wrap themselves
      cases hs : scalarElement? r element with
      | some p =>
          obtain ⟨hkind, hplain⟩ := kind_eq_of_scalarElement? hs
          have hpad : isPaddedElement p = true := by
            by_contra hne
            rw [hs] at hpadded
            simp [hne] at hpadded
          have hstd : std140TypeName r t = .ok (.array (.padded p) n) := by
            rw [std140TypeName_array hr hk, hs]
            simp only [hpad, if_true]
          have hname : typeName r t = .ok (.array (.primitive p) n) := by
            rw [typeName_array hr hk, typeName, hkind]
            rfl
          refine ⟨.array (.padded p) n, ⟨hn, hr.valid_of_kind hkind⟩, hstd, hname, ?_, ?_⟩
          · refine store_array hr hk hn hstd fun e => ?_
            rw [hs]
            simp [TypeName.wrap, hplain]
          · refine load_array hr hk hn hname fun e => ?_
            rw [hs]
            simp [TypeName.unwrap, hplain]
      | none =>
          have hdown := hr.wellFormed t element (by rw [hk]; exact List.mem_cons_self)
          rw [hs] at hpadded
          obtain ⟨w, hw⟩ := exists_spells hr hpadded hvalid.2.1
          have hstd : std140TypeName r t = .ok (.array w n) := by
            rw [std140TypeName_array hr hk, hs]
            show (std140TypeName r element).map _ = _
            rw [hw.std140]
            rfl
          have hname : typeName r t = .ok (.array w.plain n) := by
            rw [typeName_array hr hk, hw.natural]
            rfl
          refine ⟨.array w n, ⟨hn, hw.isWrapped⟩, hstd, hname, ?_, ?_⟩
          · refine store_array hr hk hn hstd fun e => ?_
            rw [hs]
            exact hw.store e
          · refine load_array hr hk hn hname fun e => ?_
            rw [hs]
            exact hw.load e
  | void | struct | pointer | texture | sampler =>
      rw [wrapped?, hk] at hpadded
      cases hpadded
termination_by t.index

end Spells

/-! ## Interpretations -/

/-- What expressions stand for: the parts of something, and what is built from parts. What else an
expression may stand for is given. -/
structure Interpretation (X : Type) where
  access : X → Access → Option X
  build : TypeName → List X → Option X
  given : Expr → Option X

namespace Interpretation

variable {X : Type}

mutual

/-- What an expression stands for. -/
def of (I : Interpretation X) : Expr → Option X
  | .index base (.literal text) =>
    ((decimal? text.toList).bind fun k => (I.of base).bind (I.access · (.element k))).or
      (I.given (.index base (.literal text)))
  | .field base name => ((I.of base).bind (I.access · (.field name))).or
      (I.given (.field base name))
  | .apply (.type t) args => ((I.ofAll args).bind (I.build t)).or (I.given (.apply (.type t) args))
  | e => I.given e

/-- What each of some expressions stands for. -/
def ofAll (I : Interpretation X) : List Expr → Option (List X)
  | [] => some []
  | e :: rest => (I.of e).bind fun x => (I.ofAll rest).map (x :: ·)

end

variable {I : Interpretation X}

/-- An access to what an expression stands for. -/
theorem of_access {e : Expr} {x y : X} {a : Access} (he : I.of e = some x)
    (hx : I.access x a = some y) : I.of (a.of e) = some y := by
  cases a with
  | element k =>
      rw [Access.of, Code.Expr.number, of, decimal?_toString, Option.bind_some, he,
        Option.bind_some, hx, Option.some_or]
  | field name => rw [Access.of, of, he, Option.bind_some, hx, Option.some_or]

/-- What arguments stand for. -/
theorem ofAll_eq_some {args : List Expr} {xs : List X}
    (h : List.Forall₂ (fun e x => I.of e = some x) args xs) : I.ofAll args = some xs := by
  induction h with
  | nil => rfl
  | cons he _ ih => rw [ofAll, he, Option.bind_some, ih, Option.map_some]

/-- A constructor stands for what it builds. -/
theorem of_construct {t : TypeName} {args : List Expr} {xs : List X} {y : X}
    (h : List.Forall₂ (fun e x => I.of e = some x) args xs) (hy : I.build t xs = some y) :
    I.of (.construct t args) = some y := by
  rw [Code.Expr.construct, of, ofAll_eq_some h, Option.bind_some, hy, Option.some_or]

end Interpretation

/-! ## Wrappers -/

section Wrappers

variable {p : PrimitiveType}

/-- Names with a number at the end differ where the numbers do. -/
theorem append_toString_injective (start : String) :
    Function.Injective fun n : Nat => start ++ toString n := by
  intro a b h
  have hdigits : (toString a).toList = (toString b).toList := by
    have hlist := congrArg String.toList h
    simpa only [String.toList_append, List.append_cancel_left_eq] using hlist
  have hnumber := congrArg decimal? hdigits
  rw [decimal?_toString, decimal?_toString] at hnumber
  exact Option.some.inj hnumber

/-- The wrapper of a matrix has a member for each column. -/
theorem fields_wrapper_matrix (hp : p.isMatrix = true) :
    (wrapper p).fields =
      (List.range p.cols.toNat).map fun c =>
        ⟨[.size 16], "c" ++ toString c, .primitive p.element⟩ := by
  rw [wrapper, hp, if_pos rfl]

/-- The wrapper of a scalar or vector has one member. -/
theorem fields_wrapper_plain (hp : p.isMatrix = false) :
    (wrapper p).fields = [⟨[.size 16], "v", .primitive p⟩] := by
  rw [wrapper, hp]
  rfl

/-- The fields of a wrapper have names of their own. -/
theorem nodup_names_wrapper (p : PrimitiveType) : ((wrapper p).fields.map (·.name)).Nodup := by
  cases hp : p.isMatrix with
  | true =>
      rw [fields_wrapper_matrix hp, List.map_map]
      exact List.nodup_range.map (append_toString_injective "c")
  | false =>
      rw [fields_wrapper_plain hp]
      exact List.nodup_singleton _

/-- A valid matrix has columns. -/
theorem cols_pos (hp : p.isMatrix = true) : 0 < p.cols.toNat := by
  have hcols : (1 : UInt8) < p.cols := by simpa [PrimitiveType.isMatrix] using hp
  have hlt : 1 < p.cols.toNat := UInt8.lt_iff_toNat_lt.mp hcols
  omega

end Wrappers

/-! ## Types of expressions -/

/-- The type of a part of a value. -/
def TypeName.part? : TypeName → Access → Option TypeName
  | array element n, .element k => if n = 0 ∨ k < n then some element else none
  | primitive p, .element c =>
    if p.isMatrix ∧ c < p.cols.toNat then some (primitive p.element) else none
  | padded p, .field name => ((wrapper p).fields.find? (·.name == name)).map (·.type)
  | _, _ => none

/-- The type of an expression. A value is built from parts of the types that the parts of its type
have. -/
def typing (known : Expr → Option TypeName) : Interpretation TypeName where
  access := TypeName.part?
  build t args :=
    if args ≠ [] ∧ args.map some = t.accesses.map t.part? then some t else none
  given := known

section Typing

variable {known : Expr → Option TypeName} {p : PrimitiveType}

/-- A constructor of arguments of the types that its type is built from. -/
theorem typing_construct {t : TypeName} {n : Nat} {f : Nat → Expr} {g : Nat → Access}
    {u : TypeName} (haccesses : t.accesses = (List.range n).map g) (hn : 0 < n)
    (hpart : ∀ k < n, t.part? (g k) = some u) (hf : ∀ k < n, (typing known).of (f k) = some u) :
    (typing known).of (.construct t ((List.range n).map f)) = some t := by
  have hargs : List.Forall₂ (fun e x => (typing known).of e = some x) ((List.range n).map f)
      ((List.range n).map fun _ => u) := by
    rw [List.forall₂_map_left_iff, List.forall₂_map_right_iff, List.forall₂_same]
    exact fun k hk => hf k (List.mem_range.mp hk)
  have hparts : ((List.range n).map fun _ => u).map some = t.accesses.map t.part? := by
    rw [haccesses, List.map_map, List.map_map]
    exact List.map_congr_left fun k hk => (hpart k (List.mem_range.mp hk)).symm
  have hne : ((List.range n).map fun _ => u) ≠ [] := by
    rw [Ne, List.map_eq_nil_iff, List.range_eq_nil]
    omega
  exact Interpretation.of_construct hargs (if_pos ⟨hne, hparts⟩)

/-- The accesses to the columns of a wrapped matrix. -/
theorem accesses_padded_matrix (hp : p.isMatrix = true) :
    (TypeName.padded p).accesses =
      (List.range p.cols.toNat).map fun c => .field ("c" ++ toString c) := by
  rw [TypeName.accesses, fields_wrapper_matrix hp, List.map_map]
  rfl

/-- The access to a wrapped scalar or vector. -/
theorem accesses_padded_plain (hp : p.isMatrix = false) :
    (TypeName.padded p).accesses = [.field "v"] := by
  rw [TypeName.accesses, fields_wrapper_plain hp]
  rfl

/-- The accesses to the columns of a matrix. -/
theorem accesses_matrix (hp : p.isMatrix = true) :
    (TypeName.primitive p).accesses = (List.range p.cols.toNat).map .element := by
  rw [TypeName.accesses, if_pos hp]

/-- A scalar or vector is not taken apart. -/
theorem accesses_plain (hp : p.isMatrix = false) : (TypeName.primitive p).accesses = [] := by
  rw [TypeName.accesses, hp]
  rfl

/-- A column of a matrix. -/
theorem part?_matrix (hp : p.isMatrix = true) {c : Nat} (hc : c < p.cols.toNat) :
    (TypeName.primitive p).part? (.element c) = some (.primitive p.element) :=
  if_pos ⟨hp, hc⟩

/-- A column of a wrapped matrix. -/
theorem part?_padded_matrix (hp : p.isMatrix = true) {c : Nat} (hc : c < p.cols.toNat) :
    (TypeName.padded p).part? (.field ("c" ++ toString c)) = some (.primitive p.element) := by
  have hmem : (⟨[.size 16], "c" ++ toString c, .primitive p.element⟩ : Field) ∈
      (wrapper p).fields := by
    rw [fields_wrapper_matrix hp]
    exact List.mem_map.mpr ⟨c, List.mem_range.mpr hc, rfl⟩
  have hfind := find?_key (nodup_names_wrapper p) hmem
  rw [TypeName.part?, hfind]
  rfl

/-- A wrapped scalar or vector. -/
theorem part?_padded_plain (hp : p.isMatrix = false) :
    (TypeName.padded p).part? (.field "v") = some (.primitive p) := by
  rw [TypeName.part?, fields_wrapper_plain hp]
  rfl

/-- An element of an array. -/
theorem part?_array {element : TypeName} {n k : Nat} (hk : k < n) :
    (TypeName.array element n).part? (.element k) = some element :=
  if_pos (Or.inr hk)

/-- What wraps a value of the plain type has the type with wrappers. -/
theorem typing_wrap {w : TypeName} (hw : w.IsWrapped) {e : Expr}
    (he : (typing known).of e = some w.plain) : (typing known).of (w.wrap e) = some w := by
  induction w generalizing e with
  | padded p =>
      cases hp : p.isMatrix with
      | true =>
          rw [TypeName.wrap, if_pos hp]
          refine typing_construct (accesses_padded_matrix hp) (cols_pos hp)
            (fun c hc => part?_padded_matrix hp hc) fun c hc => ?_
          exact Interpretation.of_access (a := .element c) he (part?_matrix hp hc)
      | false =>
          rw [TypeName.wrap, if_neg (by simp [hp])]
          exact typing_construct (n := 1) (f := fun _ => e) (g := fun _ => .field "v")
            (accesses_padded_plain hp) Nat.one_pos (fun _ _ => part?_padded_plain hp) fun _ _ => he
  | array element n ih =>
      rw [TypeName.wrap]
      refine typing_construct rfl hw.1 (fun k hk => part?_array hk) fun k hk => ih hw.2 ?_
      exact Interpretation.of_access (a := .element k) he (part?_array hk)
  | primitive | struct | pointer | texture | sampler => exact hw.elim

/-- What unwraps a value of the type with wrappers has the plain type. -/
theorem typing_unwrap {w : TypeName} (hw : w.IsWrapped) {e : Expr}
    (he : (typing known).of e = some w) : (typing known).of (w.unwrap e) = some w.plain := by
  induction w generalizing e with
  | padded p =>
      cases hp : p.isMatrix with
      | true =>
          rw [TypeName.unwrap, if_pos hp]
          refine typing_construct (accesses_matrix hp) (cols_pos hp)
            (fun c hc => part?_matrix hp hc) fun c hc => ?_
          exact Interpretation.of_access (a := .field ("c" ++ toString c)) he
            (part?_padded_matrix hp hc)
      | false =>
          rw [TypeName.unwrap, if_neg (by simp [hp])]
          exact Interpretation.of_access (a := .field "v") he (part?_padded_plain hp)
  | array element n ih =>
      rw [TypeName.unwrap]
      refine typing_construct rfl hw.1 (fun k hk => part?_array hk) fun k hk => ih hw.2 ?_
      exact Interpretation.of_access (a := .element k) he (part?_array hk)
  | primitive | struct | pointer | texture | sampler => exact hw.elim

end Typing

end Wgsl

end WebShader
