import WebShader.Code.Syntax
import WebShader.Proofs.TextMeaning
import WebShader.Resolved

/-!
# Values of terms

What a term stands for, given what variables, built-in variables and functions stand for. Remainders
and shifts, floating-point literals, matrices, built-in functions and pointers are left out. A value
that does not fit the type of its term is none: types tell the languages how to spell an operator.
-/

namespace WebShader

/-! ## Types -/

/-- Whether a value is one of a registered type, as far as the type itself says what it is made
of. -/
def Datum.fits (r : Registry) (t : TypeId) : Datum → Bool
  | scalar a => (r.primitive? t).any fun p => p.isScalar && a.isOf p.scalar
  | vector as =>
    (r.primitive? t).any fun p =>
      p.isVector && as.length == p.rows.toNat && as.all (·.isOf p.scalar)
  | array elements =>
    match r.kind t with
    | .array _ n => n == 0 || elements.length == n
    | _ => false
  | record struct fields =>
    (r.struct? t).any fun s =>
      s.name == struct && s.members.map (·.name) == fields.map (·.1.text)

/-- The name as a word, if it is one. -/
def Word.ofText? (text : String) : Option Word :=
  if h : WebShader.isWord text = true then some ⟨text, h⟩ else none

/-- Whether the type is an array. -/
def TypeKind.isArray : TypeKind → Bool
  | array _ _ => true
  | _ => false

/-- Whether what is built is of a type that is made so. -/
def Maker.Makes : Maker → TypeKind → Prop
  | primitive p, k => k = .primitive p
  | array _ n, k => ∃ element, k = .array element n
  | record name _, k => ∃ struct, k = .struct struct ∧ struct.name = name

namespace ResolvedStage

/-- What builds values of a registered type. A target may lack arrays of arrays. -/
def maker? (s : ResolvedStage) (t : TypeId) : Option Maker :=
  match s.types.kind t with
  | .primitive p =>
    if p.fault.isNone && !p.isMatrix && p.scalar != .f16 then some (.primitive p) else none
  | .array element n =>
    if n = 0 || (s.types.kind element).isArray && !s.target.supports .nestedArray then none
    else if element.index < t.index then (s.maker? element).map (.array · n)
    else none
  | .struct struct =>
    (struct.members.mapM fun m => Word.ofText? m.name).map (.record struct.name)
  | _ => none
termination_by t.index

section Makers

variable {s : ResolvedStage} {t : TypeId} {m : Maker}

/-- What is built tells what the type is made of. -/
theorem kind_of_maker? (hm : s.maker? t = some m) : m.Makes (s.types.kind t) := by
  rw [maker?] at hm
  cases hkind : s.types.kind t with
  | primitive q =>
      rw [hkind] at hm
      dsimp only at hm
      split at hm
      · rw [← Option.some.inj hm, Maker.Makes]
      · cases hm
  | array element n =>
      rw [hkind] at hm
      dsimp only at hm
      split at hm
      · cases hm
      · split at hm
        · obtain ⟨_, -, rfl⟩ := Option.map_eq_some_iff.mp hm
          exact ⟨element, rfl⟩
        · cases hm
  | struct struct =>
      rw [hkind] at hm
      obtain ⟨_, -, rfl⟩ := Option.map_eq_some_iff.mp hm
      exact ⟨struct, rfl, rfl⟩
  | void | pointer | texture | sampler =>
      rw [hkind] at hm
      cases hm

/-- What makes a primitive type. -/
theorem maker?_primitive {p : PrimitiveType} (hkind : s.types.kind t = .primitive p)
    (hm : s.maker? t = some m) :
    p.fault = none ∧ p.isMatrix = false ∧ p.scalar ≠ .f16 ∧ m = .primitive p := by
  rw [maker?, hkind] at hm
  dsimp only at hm
  split at hm
  · rename_i hp
    simp only [Bool.and_eq_true, Option.isNone_iff_eq_none, Bool.not_eq_true', bne_iff_ne] at hp
    exact ⟨hp.1.1, hp.1.2, hp.2, (Option.some.inj hm).symm⟩
  · cases hm

/-- What makes an array. -/
theorem maker?_array {element : TypeId} {n : Nat} (hkind : s.types.kind t = .array element n)
    (hm : s.maker? t = some m) : n ≠ 0 ∧ element.index < t.index ∧
      ((s.types.kind element).isArray = true → s.target.supports .nestedArray = true) ∧
        ∃ m', s.maker? element = some m' ∧ m = .array m' n := by
  rw [maker?, hkind] at hm
  dsimp only at hm
  split at hm
  · cases hm
  · rename_i hguard
    split at hm
    · rename_i hlt
      obtain ⟨m', hm', rfl⟩ := Option.map_eq_some_iff.mp hm
      simp only [Bool.or_eq_true, decide_eq_true_eq, Bool.and_eq_true, Bool.not_eq_true',
        not_or, not_and, Bool.not_eq_false] at hguard
      exact ⟨hguard.1, hlt, hguard.2, m', hm', rfl⟩
    · cases hm

/-- What makes a struct. -/
theorem maker?_struct {struct : StructType} (hkind : s.types.kind t = .struct struct)
    (hm : s.maker? t = some m) :
    ∃ fields, m = .record struct.name fields ∧ fields.length = struct.members.length := by
  rw [maker?, hkind] at hm
  obtain ⟨fields, hfields, rfl⟩ := Option.map_eq_some_iff.mp hm
  exact ⟨fields, rfl, (mapM_eq_some_iff.mp hfields).length_eq.symm⟩

end Makers

end ResolvedStage

/-- Whether a value is built by giving no argument: the zero of booleans and integers. -/
def Maker.hasZero : Maker → Bool
  | primitive p => !p.scalar.isFloat
  | _ => false

/-- The shapes of scalars and vectors. -/
theorem PrimitiveType.rows_cases {p : PrimitiveType} (hfault : p.fault = none)
    (hmatrix : p.isMatrix = false) :
    p.cols = 1 ∧ (p.rows = 1 ∨ p.rows = 2 ∨ p.rows = 3 ∨ p.rows = 4) := by
  rcases p with ⟨k, r, c⟩
  simp only [fault, hmatrix, Bool.false_eq_true, if_false] at hfault
  split at hfault
  · cases hfault
  · rename_i h
    simp only [Bool.or_eq_true, bne_iff_ne, decide_eq_true_eq, not_or, Decidable.not_not,
      UInt8.not_lt, UInt8.le_iff_toNat_le] at h
    obtain ⟨⟨rfl, hleast⟩, hmost⟩ := h
    have hrows : r.toNat = 1 ∨ r.toNat = 2 ∨ r.toNat = 3 ∨ r.toNat = 4 := by
      simp only [UInt8.reduceToNat] at hleast hmost
      omega
    simpa [← UInt8.toNat_inj] using hrows

/-! ## Terms -/

/-- What variables, built-in variables and functions stand for. -/
structure Valuation where
  var : VarId → Option Datum
  builtin : Builtin → Option Datum
  call : FunctionId → List Datum → Option Datum

/-- What a literal stands for. -/
def Literal.datum? : Literal → Option Datum
  | bool b => some (.scalar (.bool b))
  | i32 i => (Scalar.ofInt? i).map .scalar
  | u32 n => (Scalar.ofNat? n).map .scalar
  | f32 _ | f16 _ => none

/-- The components of a vector that a mask selects. -/
def Datum.swizzle? : Datum → Swizzle → Option Datum
  | vector as, mask => select as mask.components
  | _, _ => none

/-- A swizzle is read as a part, by the text of its mask. -/
theorem Datum.part?_of_swizzle? {d v : Datum} {mask : Swizzle} (h : d.swizzle? mask = some v) :
    d.part? mask.text = some v ∧ isName mask.text = true := by
  cases d with
  | vector as => exact part?_of_select h
  | _ => cases h

/-- A value built from arguments. -/
def Maker.build (m : Maker) (args : List Datum) : Option Datum :=
  if args.isEmpty && !m.hasZero then none else m.make args

/-- What is built is made. -/
theorem Maker.make_of_build {m : Maker} {args : List Datum} {v : Datum}
    (h : m.build args = some v) : m.make args = some v := by
  unfold build at h
  split at h
  · cases h
  · exact h

namespace Term

variable (s : ResolvedStage) (σ : Valuation)

mutual

/-- What a term stands for. -/
def value : Term → Option Datum
  | literal t l => l.datum?.filter (·.fits s.types t)
  | var t v => (σ.var v).filter (·.fits s.types t)
  | builtin t b => (σ.builtin b).filter (·.fits s.types t)
  | member t base i =>
    ((value base).bind fun d =>
      ((s.types.struct? base.type).bind (·.members[i]?)).bind fun m =>
        d.field? m.name).filter (·.fits s.types t)
  | swizzle t base mask => ((value base).bind (·.swizzle? mask)).filter (·.fits s.types t)
  | index t base i =>
    ((value base).bind fun d => (value i).bind d.element?).filter (·.fits s.types t)
  | unary t op operand => ((value operand).bind op.outcome?).filter (·.fits s.types t)
  | binary t op lhs rhs =>
    if op = .rem || op.isShift then none
    else ((value lhs).bind fun d => (value rhs).bind (op.outcome? d)).filter (·.fits s.types t)
  | construct t args =>
    ((s.maker? t).bind fun m => (values args).bind m.build).filter (·.fits s.types t)
  | call t f args => ((values args).bind (σ.call f)).filter (·.fits s.types t)
  | intrinsic _ _ _ | addressOf _ _ | deref _ _ => none
termination_by structural e => e

/-- What several terms stand for. -/
def values : List Term → Option (List Datum)
  | [] => some []
  | e :: rest => (value e).bind fun d => (values rest).map (d :: ·)
termination_by structural es => es

end

/-- What a term stands for fits its type. -/
theorem fits_of_value {e : Term} {d : Datum} (h : e.value s σ = some d) :
    d.fits s.types e.type = true := by
  cases e with
  | intrinsic | addressOf | deref => cases h
  | binary t op lhs rhs =>
      rw [value] at h
      split at h
      · cases h
      · exact (Option.filter_eq_some_iff.mp h).2
  | _ =>
      rw [value] at h
      exact (Option.filter_eq_some_iff.mp h).2

end Term

/-! ### Values and types -/

/-- What has an operator has components. -/
theorem BinaryOp.components?_of_outcome? {op : BinaryOp} {d e w : Datum}
    (h : op.outcome? d e = some w) :
    (d.isScalar = true ∨ d.isVector = true) ∧ (e.isScalar = true ∨ e.isVector = true) := by
  unfold BinaryOp.outcome? at h
  split at h
  · cases h
  · cases d with
    | scalar | vector =>
        cases e with
        | scalar | vector => exact ⟨by simp [Datum.isScalar, Datum.isVector], by
            simp [Datum.isScalar, Datum.isVector]⟩
        | array | record => cases h
    | array | record => cases h

/-- What is compared with a vector is a vector. -/
theorem BinaryOp.isVector_of_outcome? {op : BinaryOp} (hop : op.isComparison = true) {d e w : Datum}
    (hd : d.isVector = true) (h : op.outcome? d e = some w) : e.isVector = true := by
  rcases (BinaryOp.components?_of_outcome? h).2 with he | he
  · cases d with
    | vector =>
        rw [BinaryOp.outcome?, hop, he] at h
        cases h
    | _ => cases hd
  · exact he

section Fits

variable {r : Registry} {t : TypeId} {d : Datum}

/-- The type of a value with components says whether it is a vector. -/
theorem Datum.exists_primitive_of_fits (h : d.fits r t = true)
    (hd : d.isScalar = true ∨ d.isVector = true) :
    ∃ p, r.primitive? t = some p ∧ p.isVector = d.isVector := by
  cases d with
  | scalar a =>
      obtain ⟨p, hp, h⟩ := (Option.any_eq_true _ _).mp h
      rw [Bool.and_eq_true] at h
      refine ⟨p, hp, ?_⟩
      rw [PrimitiveType.eq_ofScalar_of_isScalar h.1]
      rfl
  | vector as =>
      obtain ⟨p, hp, h⟩ := (Option.any_eq_true _ _).mp h
      rw [Bool.and_eq_true, Bool.and_eq_true] at h
      exact ⟨p, hp, h.1.1⟩
  | array | record => simp [isScalar, isVector] at hd

end Fits

/-! ## Agreement -/

/-- What an expression without operators stands for: a word, a field of a word, or an element of
one. -/
def Names.place? {τ : Type} (target : Target) (names : Names) : Code.Expr τ → Option Datum
  | .name w => names.var w
  | .field (.name w) part => (names.var w).bind (·.field? part)
  | .index (.name w) (.literal i) =>
    (names.var w).bind fun d => (target.number? i).bind fun k => d.element? (.scalar k)
  | _ => none

/-- The names of a source of a stage stand for what the valuation says, given how the language
spells variables and built-in variables; types and functions are not hidden by what is built in. -/
structure Names.Agrees {τ : Type} (names : Names) (s : ResolvedStage) (σ : Valuation)
    (spellVar : VarId → Except ShaderError (Code.Expr τ)) (spellBuiltin : Builtin → Code.Expr τ) :
    Prop where
  var : ∀ v d, σ.var v = some d → ∃ e, spellVar v = .ok e ∧ names.place? s.target e = some d
  builtin : ∀ b d, σ.builtin b = some d → names.place? s.target (spellBuiltin b) = some d
  struct : ∀ t name fields, s.maker? t = some (.record name fields) →
    names.struct name = some fields ∧ s.target.builtin? name = none ∧
      s.target.primitiveNamed? name = none
  function : ∀ f args d, σ.call f args = some d → ∃ fn, s.function f = .ok fn ∧
    names.function (s.functionName fn) args = some d ∧
      s.target.builtin? (s.functionName fn) = none ∧
        s.target.primitiveNamed? (s.functionName fn) = none ∧
          names.struct (s.functionName fn) = none

end WebShader
