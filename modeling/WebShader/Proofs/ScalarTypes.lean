import WebShader.Builtin
import WebShader.Expression
import WebShader.Proofs.ListTraversal
import WebShader.Proofs.Registration

/-!
# Component types

Registrations bring in no component types but those they are asked for. So a registry keeps to the
component types of its target, of which WebGL has no unsigned integers.
-/

namespace WebShader

namespace Registry

/-- The primitive types of a registry have components of these types only. -/
def HasOnly (P : ScalarKind → Prop) (r : Registry) : Prop :=
  ∀ t p, r.primitive? t = some p → P p.scalar

variable {P : ScalarKind → Prop} {r : Registry}

/-- Nothing is registered at first. -/
theorem hasOnly_empty : empty.HasOnly P := by
  intro t p h
  have hkind : empty.kind t = .void := kind_eq_void_of_le (Nat.zero_le _)
  rw [primitive?_eq_some_iff, hkind] at h
  cases h

/-- A type is added whose components are as asked. -/
theorem HasOnly.push (hr : r.HasOnly P) (key : String) {kind : TypeKind}
    (hkind : ∀ p, kind = .primitive p → P p.scalar) : (r.push key kind).HasOnly P := by
  intro t p h
  rw [primitive?_eq_some_iff] at h
  rcases kind_of_push h (by simp) with hold | hnew
  · exact hr t p (primitive?_eq_some_iff.mpr hold)
  · exact hkind p hnew

/-- What a registry has only, so does every smaller one. -/
theorem HasOnly.of_le {r' : Registry} (h : r ≤ r') (hr' : r'.HasOnly P) : r.HasOnly P :=
  fun t p hp => hr' t p (primitive?_of_le h hp)

end Registry

/-- A registry has components of these types only if another one has. -/
def Registry.StaysWithin (P : ScalarKind → Prop) (r r' : Registry) : Prop :=
  r.HasOnly P → r'.HasOnly P

/-- Only primitive types bring in components. -/
instance (P : ScalarKind → Prop) : Registry.IsGrowth (Registry.StaysWithin P) where
  refl _ := id
  trans _ _ _ h h' hr := h' (h hr)
  push _ key _ hprimitive _ hr := hr.push key fun p hp => absurd hp (hprimitive p)
  generated _ _ := id

namespace Interning

/-- A registration that brings in components of these types only. -/
abbrev Keeps {α : Type} (P : ScalarKind → Prop) (act : Interning α) : Prop :=
  Follows (Registry.StaysWithin P) act

theorem keeps_primitive {P : ScalarKind → Prop} {p : PrimitiveType} (hp : P p.scalar) :
    Keeps P (primitive p) :=
  follows_insert fun _ hr => hr.push _ fun _ h => TypeKind.primitive.inj h ▸ hp

end Interning

/-! ## Shapes -/

/-- A primitive type that a target has is one whose components it has. -/
theorem Build.supportsScalar_of_checkPrimitive {target : Target} {p : PrimitiveType}
    (h : checkPrimitive target p = .ok ()) : target.supportsScalar p.scalar = true := by
  cases hscalar : p.scalar with
  | bool | i32 | f32 => rfl
  | u32 =>
      cases target with
      | webGL =>
          rw [checkPrimitive, hscalar] at h
          cases h
      | webGL2 | webGPU => rfl
  | f16 =>
      cases target with
      | webGL | webGL2 =>
          rw [checkPrimitive, hscalar] at h
          cases h
      | webGPU => rfl

namespace Interning

variable {P : ScalarKind → Prop} {target : Target}

mutual

/-- The shapes that a target has bring in no components but those it has. -/
theorem keeps_shape (hP : ∀ k, target.supportsScalar k = true → P k) (shape : TypeShape)
    (h : Build.checkShape target shape = .ok ()) : Keeps P (Interning.shape shape) :=
  match shape with
  | .void => follows_void
  | .primitive p => by
      have hp : P p.scalar := hP _ (Build.supportsScalar_of_checkPrimitive h)
      rw [Interning.shape]
      cases p.fault with
      | some fault => exact .throw _
      | none => exact keeps_primitive hp
  | .array element n => by
      have helement : Build.checkShape target element = .ok () := by
        rw [Build.checkShape] at h
        dsimp only at h
        split at h
        · obtain ⟨_, -, h⟩ := bind_eq_ok_iff.mp h
          split at h
          · exact (bind_eq_ok_iff.mp h).choose_spec.2
          · exact h
        · split at h
          · exact (bind_eq_ok_iff.mp h).choose_spec.2
          · exact h
      rw [Interning.shape]
      exact .bind (keeps_shape hP element helement) fun _ => follows_array _ _
  | .struct name policy members => by
      rw [Interning.shape]
      exact .bind (keeps_memberShapes hP members h) fun _ => follows_struct _ _ _
  | .pointer pointee _ => by
      obtain ⟨_, -, hpointee⟩ := bind_eq_ok_iff.mp h
      rw [Interning.shape]
      exact .bind (keeps_shape hP pointee hpointee) fun _ => follows_pointer _ _
  | .texture t => by
      rw [Interning.shape]
      cases t.fault with
      | some fault => exact .throw _
      | none => exact follows_insert_other _ (by simp) (by simp)
  | .sampler kind => follows_insert_other _ (by simp) (by simp)
termination_by structural shape

theorem keeps_memberShapes (hP : ∀ k, target.supportsScalar k = true → P k)
    (members : List (String × TypeShape))
    (h : Build.checkMemberShapes target members = .ok ()) : Keeps P (memberShapes members) :=
  match members with
  | [] => .pure []
  | (_, type) :: rest => by
      obtain ⟨_, htype, hrest⟩ := bind_eq_ok_iff.mp h
      rw [memberShapes]
      exact .bind (keeps_shape hP type htype) fun _ =>
        .bind (keeps_memberShapes hP rest hrest) fun _ => .pure _
termination_by structural members

end

end Interning

/-! ## Operators -/

/-- The result of an operator has components of an operand, or truth values. -/
theorem BinaryOp.scalar_of_result? {op : BinaryOp} {l r p : PrimitiveType}
    (h : op.result? l r = some p) :
    p.scalar = l.scalar ∨ p.scalar = r.scalar ∨ p.scalar = .bool := by
  have hproduct : op.result? l r = matrixProduct? l r →
      p.scalar = l.scalar ∨ p.scalar = r.scalar := by
    rw [h]
    unfold matrixProduct?
    grind [PrimitiveType.vector, PrimitiveType.matrix]
  have hcomponents : op.result? l r = componentwise? l r →
      p.scalar = l.scalar ∨ p.scalar = r.scalar := by
    rw [h]
    unfold componentwise?
    grind
  unfold result? at h hproduct hcomponents
  grind [PrimitiveType.withScalar]

/-- The elements of a type have its kind of component. -/
theorem PrimitiveType.scalar_element (p : PrimitiveType) : p.element.scalar = p.scalar := by
  unfold element
  split <;> rfl

/-! ## Supported types -/

/-- A target has the components of types, and a stage. -/
structure Target.Serves (target : Target) (types : Registry) (stage : Option Stage) : Prop where
  types : types.HasOnly (target.supportsScalar · = true)
  stage : stage = some .compute → target.supports .compute = true

/-- A built-in variable of a stage that the target has holds components that it has. -/
theorem Builtin.supportsScalar_type {b : Builtin} {target : Target}
    (h : b.stage = .compute → target.supports .compute = true) :
    target.supportsScalar (b.type target).scalar = true := by
  cases b <;> cases target <;> first | rfl | cases h rfl

/-- The target of a builder has the components of its types, and its stage. -/
def Builder.Supported (b : Builder) : Prop := b.target.Serves b.types b.currentStage

/-- Nothing is registered at first that the target does not have. -/
theorem Builder.supported_new (config : Config) : (new config).Supported :=
  ⟨Registry.hasOnly_empty, by simp [currentStage, new]⟩

/-- A supported builder has the components of a type only if its target has. -/
def Builder.Offers (k : ScalarKind) (b : Builder) : Prop :=
  b.Supported → b.target.supportsScalar k = true

/-- What is registered is offered. -/
theorem Builder.offers_of_primitive? {b : Builder} {t : TypeId} {p : PrimitiveType}
    (h : b.types.primitive? t = some p) : b.Offers p.scalar := fun hb => hb.types t p h

/-! ## Signed types -/

/-- A registry without unsigned integers. -/
def Registry.IsSigned (r : Registry) : Prop := r.hasScalar .u32 = false

/-- A registry is signed if it has no unsigned components. -/
theorem Registry.isSigned_iff {r : Registry} : r.IsSigned ↔ r.HasOnly (· ≠ .u32) := by
  rw [IsSigned, hasScalar, Array.any_eq_false']
  constructor
  · intro h t p hp
    unfold primitive? kind at hp
    split at hp
    · rename_i p' hkind
      split at hkind
      · rename_i entry hentry
        have hne := h entry (Array.mem_of_getElem? hentry)
        rw [hkind, Option.some.inj hp] at hne
        simpa using hne
      · cases hkind
    · cases hp
  · intro h entry hmem
    obtain ⟨i, hi⟩ := Array.getElem?_of_mem hmem
    cases hkind : entry.kind with
    | primitive p =>
        have hp : r.primitive? ⟨i⟩ = some p := by
          rw [primitive?_eq_some_iff, kind, hi]
          exact hkind
        simpa using h ⟨i⟩ p hp
    | void | array | struct | pointer | texture | sampler => simp

/-- No type of a signed registry has unsigned components. -/
theorem Registry.IsSigned.scalar_ne {r : Registry} (hr : r.IsSigned) {t : TypeId}
    {p : PrimitiveType} (h : r.primitive? t = some p) : p.scalar ≠ .u32 := isSigned_iff.mp hr t p h

namespace Interning

/-- A registration that adds no unsigned integers. -/
def KeepsSigned {α : Type} (act : Interning α) : Prop :=
  ∀ r : Registry, r.IsSigned → (r.run act).2.IsSigned

/-- A registration that adds no unsigned components keeps the registry signed. -/
theorem Follows.signed {α : Type} {act : Interning α} (h : Keeps (· ≠ .u32) act) :
    act.KeepsSigned := fun r hr => Registry.isSigned_iff.mpr (h r (Registry.isSigned_iff.mp hr))

/-- A type without unsigned components keeps the registry signed. -/
theorem keepsSigned_primitive {p : PrimitiveType} (hp : p.scalar ≠ .u32) :
    (primitive p).KeepsSigned := (keeps_primitive (P := (· ≠ .u32)) hp).signed

/-- The types that WebGL has are signed. -/
theorem keepsSigned_shape (shape : TypeShape) (h : Build.checkShape .webGL shape = .ok ()) :
    (Interning.shape shape).KeepsSigned := by
  refine (keeps_shape (fun k hk => ?_) shape h).signed
  rintro rfl
  cases hk

end Interning

end WebShader
