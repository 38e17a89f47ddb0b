import Mathlib.Algebra.Order.BigOperators.Group.List
import WebShader.Proofs.AcceptedArguments
import WebShader.Proofs.Sessions
import WebShader.Proofs.TermValues

/-!
# Vector constructors

A scalar or vector is built from two or more arguments if each of them is a part, a host value that
fits the component type or a scalar or vector of this type, and if the components of the parts are
as many as those of the result. The components are counted in a byte, but a count that overflows it
is none that any scalar or vector has, and nothing is built from it.
-/

namespace WebShader

/-! ## Parts -/

namespace Builder

/-- Whether an operand can be a part of a vector of a component type. -/
def isPart (b : Builder) (k : ScalarKind) : Value → Bool
  | .host v => v.fits k
  | .expr e =>
    match b.types.primitive? e.type with
    | some q => !q.isMatrix && q.scalar == k
    | none => false

/-- The components of a part. -/
def partSize (b : Builder) : Value → UInt8
  | .host _ => 1
  | .expr e => ((b.types.primitive? e.type).map (·.components)).getD 0

/-- The components of several parts. -/
def componentCount (b : Builder) (vs : List Value) : Nat :=
  (vs.map fun v => (b.partSize v).toNat).sum

/-- An expression among the operands has a registered type. -/
def HasRegistered (b : Builder) (v : Value) : Prop := v.Holds fun e => e.type.index < b.types.size

variable {b b' : Builder}

/-- A part of a vector is an expression of its kind. -/
theorem isPart_of_primitive? {e : Expr} {q : PrimitiveType}
    (hq : b.types.primitive? e.type = some q) (k : ScalarKind) :
    b.isPart k (.expr e) = (!q.isMatrix && q.scalar == k) := by
  simp only [isPart, hq]

/-- A part has as many components as its type. -/
theorem partSize_of_primitive? {e : Expr} {q : PrimitiveType}
    (hq : b.types.primitive? e.type = some q) : b.partSize (.expr e) = q.components := by
  simp only [partSize, hq, Option.map_some, Option.getD_some]

/-- A part of a vector has a primitive type. -/
theorem primitive?_of_isPart {e : Expr} {k : ScalarKind} (h : b.isPart k (.expr e) = true) :
    ∃ q, b.types.primitive? e.type = some q ∧ q.isMatrix = false ∧ q.scalar = k := by
  cases hq : b.types.primitive? e.type with
  | none =>
      simp only [isPart, hq] at h
      cases h
  | some q =>
      rw [isPart_of_primitive? hq] at h
      exact ⟨q, rfl, by simpa using h⟩

/-- The components of more parts. -/
theorem componentCount_cons (b : Builder) (v : Value) (vs : List Value) :
    b.componentCount (v :: vs) = (b.partSize v).toNat + b.componentCount vs := by
  rw [componentCount, List.map_cons, List.sum_cons, componentCount]

section Extends

variable (h : b.Extends b') {v : Value} (hv : b.HasRegistered v)

include h hv

/-- A registered type stays registered. -/
theorem HasRegistered.of_extends : b'.HasRegistered v :=
  Value.Holds.imp hv fun _ he => lt_of_lt_of_le he h.types_size_le

/-- A part stays one. -/
theorem isPart_of_extends (k : ScalarKind) : b'.isPart k v = b.isPart k v := by
  cases v with
  | host v => rfl
  | expr e => rw [isPart, isPart, Registry.primitive?, Registry.primitive?,
      Registry.kind_eq_of_le h.types hv]

/-- A part keeps its size. -/
theorem partSize_of_extends : b'.partSize v = b.partSize v := by
  cases v with
  | host v => rfl
  | expr e => rw [partSize, partSize, Registry.primitive?, Registry.primitive?,
      Registry.kind_eq_of_le h.types hv]

end Extends

/-- Parts keep their components. -/
theorem componentCount_of_extends (h : b.Extends b') {vs : List Value}
    (hvs : ∀ v ∈ vs, b.HasRegistered v) : b'.componentCount vs = b.componentCount vs := by
  rw [componentCount, componentCount]
  exact congrArg List.sum (List.map_congr_left fun v hv => by rw [partSize_of_extends h (hvs v hv)])

end Builder

/-! ## Arguments -/

namespace Build

open Builder (run_bind_eq_ok_iff run_get_bind run_pure_eq_ok_iff)

variable {b b' : Builder} {callees : Callees} {p : PrimitiveType} {args : List Value}

/-- The expression of an argument is a part of the same size as the argument. -/
theorem part_of_run_component (hb : b.Typed callees) {v : Value} (hv : b.Knows v) {e : Expr}
    (h : b.run (component p args v) = (.ok e, b')) :
    b'.isPart p.scalar (.expr e) = b.isPart p.scalar v ∧
      b'.partSize (.expr e) = b.partSize v := by
  cases v with
  | expr e' =>
      obtain ⟨rfl, rfl⟩ := run_pure_eq_ok_iff.mp h
      exact ⟨rfl, rfl⟩
  | host v =>
      have hlowers := ((ensures_component hb p args hv).2.2 e b' h).2
      have hkind := Registry.primitive?_eq_some_iff.mpr (hlowers p.scalar rfl)
      have hfits : v.fits p.scalar = true := by
        unfold component at h
        simpa using (run_check_eq_ok_iff.mp h).1
      constructor
      · rw [Builder.isPart_of_primitive? hkind, Builder.isPart, hfits]
        simp [PrimitiveType.isMatrix, PrimitiveType.ofScalar]
      · rw [Builder.partSize_of_primitive? hkind]
        rfl

/-- A part of the right kind can be taken. -/
theorem succeeds_component (args : List Value) {v : Value}
    (hsupports : b.target.supportsScalar p.scalar = true) (hpart : b.isPart p.scalar v = true) :
    (component p args v).Succeeds b := by
  cases v with
  | expr e => exact succeeds_pure e
  | host v =>
      have hfits : v.fits p.scalar = true := hpart
      have hlower : (lower (.host v) (some p.scalar)).Succeeds b :=
        succeeds_lower fun h hh => ⟨by rwa [← Value.host.inj hh], hsupports⟩
      obtain ⟨e, b', hrun⟩ := hlower
      refine ⟨e, b', ?_⟩
      unfold component
      exact run_check_eq_ok_iff.mpr ⟨by simp [hfits], hrun⟩

/-- Parts are lowered one after the other, and their components counted, as long as the count fits
a byte. -/
theorem run_vectorParts_of_isPart (args : List Value) (before : Nat) (hb : b.Typed callees)
    (hsupports : b.target.supportsScalar p.scalar = true) {parts : List Value}
    (hknown : ∀ v ∈ parts, b.Knows v) (hregistered : ∀ v ∈ parts, b.HasRegistered v)
    (hparts : ∀ v ∈ parts, b.isPart p.scalar v = true)
    (hcount : before + b.componentCount parts < 256) :
    ∃ nodes b', b.run (vectorParts p args before parts) =
      (.ok (nodes, before + b.componentCount parts), b') := by
  induction parts generalizing b before with
  | nil => exact ⟨[], b, rfl⟩
  | cons v rest ih =>
      obtain ⟨hv, hknown⟩ := List.forall_mem_cons.mp hknown
      obtain ⟨hvr, hregistered⟩ := List.forall_mem_cons.mp hregistered
      obtain ⟨hpart, hparts⟩ := List.forall_mem_cons.mp hparts
      obtain ⟨e, b₁, hrun⟩ := succeeds_component args hsupports hpart
      obtain ⟨hext, hb₁, -⟩ := ensures_component hb p args hv
      rw [hrun] at hext hb₁
      obtain ⟨hpart', hsize⟩ := part_of_run_component hb hv hrun
      rw [hpart] at hpart'
      obtain ⟨q, hq, hfits⟩ := Builder.primitive?_of_isPart hpart'
      rw [Builder.partSize_of_primitive? hq] at hsize
      rw [Builder.componentCount_cons, ← hsize, ← Nat.add_assoc] at hcount ⊢
      have hrestCount := Builder.componentCount_of_extends hext hregistered
      -- the rest is made of the same parts once the first one is lowered
      obtain ⟨nodes, b₂, hrest⟩ := ih (before + q.components.toNat) hb₁
        (by rwa [hext.target_eq]) (fun v hv => (hknown v hv).of_extends hext)
        (fun v hv => (hregistered v hv).of_extends hext)
        (fun v hv => (Builder.isPart_of_extends hext (hregistered v hv) _).trans (hparts v hv))
        (by rwa [hrestCount])
      rw [hrestCount] at hrest
      refine ⟨e.node :: nodes, b₂, ?_⟩
      rw [vectorParts, Builder.run_bind, hrun]
      dsimp only
      rw [run_get_bind, hq]
      dsimp only
      rw [if_neg (by simp [hfits]), if_neg (by omega), Builder.run_bind, hrest]
      rfl

/-- Nothing but parts is lowered, and their components are counted. -/
theorem isPart_of_run_vectorParts (hb : b.Typed callees) {parts : List Value} {before : Nat}
    (hknown : ∀ v ∈ parts, b.Knows v) (hregistered : ∀ v ∈ parts, b.HasRegistered v)
    {x : List NodeId × Nat} (h : b.run (vectorParts p args before parts) = (.ok x, b')) :
    (∀ v ∈ parts, b.isPart p.scalar v = true) ∧ x.2 = before + b.componentCount parts := by
  induction parts generalizing b before x with
  | nil =>
      obtain ⟨rfl, rfl⟩ := run_pure_eq_ok_iff.mp h
      exact ⟨by simp, rfl⟩
  | cons v rest ih =>
      obtain ⟨hv, hknown⟩ := List.forall_mem_cons.mp hknown
      obtain ⟨hvr, hregistered⟩ := List.forall_mem_cons.mp hregistered
      rw [vectorParts] at h
      obtain ⟨e, b₁, hrun, hafter⟩ := run_bind_eq_ok_iff.mp h
      obtain ⟨hext, hb₁, -⟩ := ensures_component hb p args hv
      rw [hrun] at hext hb₁
      obtain ⟨hpart, hsize⟩ := part_of_run_component hb hv hrun
      rw [run_get_bind] at hafter
      split at hafter
      · rename_i q hq
        obtain ⟨hfits, hafter⟩ := run_check_eq_ok_iff.mp hafter
        by_cases hover : 256 ≤ before + q.components.toNat
        · rw [if_pos hover] at hafter
          cases (Prod.mk.inj hafter).1
        rw [if_neg hover] at hafter
        obtain ⟨y, b₂, hrest, hreturn⟩ := run_bind_eq_ok_iff.mp hafter
        obtain ⟨rfl, rfl⟩ := run_pure_eq_ok_iff.mp hreturn
        obtain ⟨hparts, hcount⟩ := ih hb₁ (fun v hv => (hknown v hv).of_extends hext)
          (fun v hv => (hregistered v hv).of_extends hext) hrest
        rw [Builder.isPart_of_primitive? hq] at hpart
        rw [Builder.partSize_of_primitive? hq] at hsize
        refine ⟨List.forall_mem_cons.mpr ⟨?_, fun v hv => ?_⟩, ?_⟩
        · rw [← hpart]
          simpa using hfits
        · rw [← Builder.isPart_of_extends hext (hregistered v hv)]
          exact hparts v hv
        · rw [Builder.componentCount_cons, ← hsize, ← Nat.add_assoc,
            ← Builder.componentCount_of_extends hext hregistered]
          exact hcount
      · cases (Prod.mk.inj hafter).1

/-! ## Constructors -/

/-- A scalar or vector type that the target has the components of is registered. -/
theorem run_type_of_vector (hb : b.Typed callees) (hp : p.fault = none)
    (hmatrix : p.isMatrix = false) (hsupports : b.target.supportsScalar p.scalar = true) :
    ∃ t b', b.run (type (.primitive p)) = (.ok t, b') ∧ b.Extends b' ∧ b'.Typed callees ∧
      b'.types.kind t = .primitive p := by
  have hcheck : checkShape b.target (.primitive p) = .ok () := by
    rw [checkShape, checkPrimitive, hmatrix]
    cases hk : p.scalar with
    | bool | i32 | f32 => rfl
    | u32 =>
        rw [hk] at hsupports
        have hrequire : b.target.require .unsignedInt = .ok () :=
          Target.require_eq_ok_iff.mpr hsupports
        dsimp only
        rw [hrequire]
        rfl
    | f16 =>
        rw [hk] at hsupports
        have hrequire : b.target.require .float16 = .ok () := Target.require_eq_ok_iff.mpr hsupports
        dsimp only
        rw [hrequire]
        rfl
  obtain ⟨t, b', hrun⟩ := succeeds_primitive (b := b) p
  have htype : b.run (type (.primitive p)) = (.ok t, b') := by
    rw [type, run_get_bind, Builder.run_bind, Builder.run_liftM, hcheck, Interning.shape, hp]
    exact hrun
  obtain ⟨hext, hb', hpost⟩ := ensures_primitive hb hp
  rw [hrun] at hext hb'
  exact ⟨t, b', htype, hext, hb', hpost t b' hrun⟩

/-- Several arguments are parts whose components are counted. -/
theorem vectorArgs_of_several (hargs : 2 ≤ args.length) :
    vectorArgs p args = (do
      let (nodes, count) ← vectorParts p args 0 args
      if count ≠ p.components.toNat then throw (← constructFailure p args)
      return nodes) := by
  match args, hargs with
  | .expr _ :: _ :: _, _ => rfl
  | .host _ :: _ :: _, _ => rfl

/-- A scalar or vector has four components at most. -/
theorem components_le (hp : p.fault = none) (hmatrix : p.isMatrix = false) :
    p.components.toNat ≤ 4 := by
  obtain ⟨hcols, hrows⟩ := PrimitiveType.rows_cases hp hmatrix
  rw [PrimitiveType.components, hcols]
  rcases hrows with h | h | h | h <;> rw [h] <;> decide

/-- A scalar or vector that the target has is built from two or more arguments exactly if each is a
part and their components are as many as those of the result. -/
theorem succeeds_construct_iff (hb : b.Typed callees) (hp : p.fault = none)
    (hmatrix : p.isMatrix = false) (hsupports : b.target.supportsScalar p.scalar = true)
    (hargs : 2 ≤ args.length) (hknown : ∀ v ∈ args, b.Knows v)
    (hregistered : ∀ v ∈ args, b.HasRegistered v) :
    (construct (.primitive p) args).Succeeds b ↔
      (∀ v ∈ args, b.isPart p.scalar v = true) ∧ b.componentCount args = p.components.toNat := by
  obtain ⟨t, b₁, htype, hext, hb₁, hkind⟩ := run_type_of_vector hb hp hmatrix hsupports
  have hrun : b.run (construct (.primitive p) args) = b₁.run (do
      pushNode t (.construct (← vectorArgs p args))) := by
    rw [construct, Builder.run_bind, htype]
    dsimp only
    rw [run_get_bind, hkind]
    dsimp only
    rw [if_neg (by simp [hmatrix])]
  have hknown₁ : ∀ v ∈ args, b₁.Knows v := fun v hv => (hknown v hv).of_extends hext
  have hregistered₁ : ∀ v ∈ args, b₁.HasRegistered v :=
    fun v hv => (hregistered v hv).of_extends hext
  have hcount := Builder.componentCount_of_extends hext hregistered
  unfold Succeeds
  rw [hrun, vectorArgs_of_several hargs]
  constructor
  · rintro ⟨e, b', h⟩
    obtain ⟨nodes, b₂, hnodes, -⟩ := run_bind_eq_ok_iff.mp h
    obtain ⟨x, b₃, hparts, hcheck⟩ := run_bind_eq_ok_iff.mp hnodes
    obtain ⟨hall, hx⟩ := isPart_of_run_vectorParts hb₁ hknown₁ hregistered₁ hparts
    obtain ⟨hequal, -⟩ := run_check_eq_ok_iff.mp hcheck
    refine ⟨fun v hv => ?_, ?_⟩
    · rw [← Builder.isPart_of_extends hext (hregistered v hv)]
      exact hall v hv
    · rw [← hcount, ← Nat.zero_add (b₁.componentCount args), ← hx]
      exact not_not.mp hequal
  · rintro ⟨hall, hequal⟩
    have hall₁ : ∀ v ∈ args, b₁.isPart p.scalar v = true := fun v hv =>
      (Builder.isPart_of_extends hext (hregistered v hv) _).trans (hall v hv)
    have hle := components_le hp hmatrix
    obtain ⟨nodes, b₂, hparts⟩ := run_vectorParts_of_isPart args 0 hb₁
      (by rwa [hext.target_eq]) hknown₁ hregistered₁ hall₁ (by omega)
    obtain ⟨e, b', hpush⟩ := succeeds_pushNode (b := b₂) t (.construct nodes)
    refine ⟨e, b', run_bind_eq_ok_iff.mpr ⟨nodes, b₂, ?_, hpush⟩⟩
    refine run_bind_eq_ok_iff.mpr ⟨_, b₂, hparts, run_check_eq_ok_iff.mpr ⟨?_, rfl⟩⟩
    simp [hcount, hequal]

end Build

namespace Session

/-- In whatever session, a scalar or vector that the target has is built from two or more operands
exactly if each is a host value that fits the component type or a scalar or vector of this type, and
the components of all operands together are as many as those of the result. However many operands
there are, the count does not go wrong. The handles that an author has are of registered types. -/
theorem vectors_count_components {s : Session} (hs : s.Reachable) {p : PrimitiveType}
    (hp : p.fault = none) (hmatrix : p.isMatrix = false)
    (hsupports : s.builder.target.supportsScalar p.scalar = true) {args : List Value}
    (hargs : 2 ≤ args.length) (hknown : ∀ v ∈ args, s.Knows v)
    (hregistered : ∀ v ∈ args, s.builder.HasRegistered v) :
    (Build.construct (.primitive p) args).Succeeds s.builder ↔
      (∀ v ∈ args, s.builder.isPart p.scalar v = true) ∧
        s.builder.componentCount args = p.components.toNat :=
  Build.succeeds_construct_iff hs.typed.builder hp hmatrix hsupports hargs
    (fun v hv => hs.typed.knows (hknown v hv)) hregistered

/-- A vector of two components is not built from 258 ones, though a byte counts two. -/
theorem vectors_count_components_ones :
    Reachable { builder := .new { target := .webGL2 } } ∧
      ¬(Build.construct (.primitive (.vector .i32 2))
        (List.replicate 258 (.host (.int 1)))).Succeeds (.new { target := .webGL2 }) := by
  have hs : Reachable { builder := .new { target := .webGL2 } } := .new _
  have hhost : ∀ v ∈ List.replicate 258 (Value.host (.int 1)), v = .host (.int 1) :=
    fun v hv => (List.mem_replicate.mp hv).2
  refine ⟨hs, fun hsucceeds => ?_⟩
  have hcount := ((vectors_count_components hs rfl rfl rfl
    (by rw [List.length_replicate]; decide) (fun v hv => by rw [hhost v hv]; trivial)
    (fun v hv => by rw [hhost v hv]; trivial)).mp hsucceeds).2
  rw [Builder.componentCount, List.map_replicate, List.sum_replicate] at hcount
  cases hcount

end Session

end WebShader
