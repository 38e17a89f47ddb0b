import WebShader.Proofs.StructuralIdentity

/-!
# Promotion

The copy of a type under `std140` rules holds the same data as the type, and no packed struct. It is
its own copy, and so is every type that contains no packed struct, in particular that of each member
of a struct under `std140` rules.
-/

namespace WebShader

open Interning (ensures_std140 ensures_std140_reads run_std140_of_holds)

namespace TypeShape

/-! ## Data -/

/-- Whether values of the shape can be held. -/
def isStorable : TypeShape → Bool
  | .primitive _ | .array _ _ | .struct _ _ _ => true
  | .void | .pointer _ _ | .texture _ | .sampler _ => false

/-- The canonical description can be stored where the description can. -/
theorem isStorable_canonical (outer : LayoutPolicy) (d : TypeShape) :
    (d.canonical outer).isStorable = d.isStorable := by
  cases d <;> rfl

mutual

/-- What a shape says about the data it holds, and not about the names and the layout of its
structs: its leaves, the lengths of its arrays and the names of its members, in order. -/
def data : TypeShape → TypeShape
  | .array element n => .array (data element) n
  | .struct _ _ members => .struct none .packed (memberData members)
  | .pointer pointee space => .pointer (data pointee) space
  | d => d

/-- The names of the members of a struct, with their data. -/
def memberData : List (String × TypeShape) → List (String × TypeShape)
  | [] => []
  | (name, type) :: rest => (name, data type) :: memberData rest

end

mutual

/-- Rules change nothing about the data. -/
theorem data_canonical (outer : LayoutPolicy) : (d : TypeShape) → (d.canonical outer).data = d.data
  | .void | .primitive _ | .texture _ | .sampler _ => rfl
  | .array element n => by rw [canonical, data, data, data_canonical outer element]
  | .struct name own members => by
      rw [canonical, data, data, memberData_memberShapes (outer.within own) members]
  | .pointer pointee space => by rw [canonical, data, data, data_canonical .packed pointee]

/-- The members hold the same data in order. -/
theorem memberData_memberShapes (policy : LayoutPolicy) :
    (members : List (String × TypeShape)) →
      memberData (memberShapes policy members) = memberData members
  | [] => rfl
  | (name, type) :: rest => by
      rw [memberShapes, memberData, memberData, data_canonical policy type,
        memberData_memberShapes policy rest]

end

end TypeShape

namespace Registry

variable {r r' : Registry} {t t' : TypeId}

/-- A type can be stored where its description can. -/
theorem WellFormed.isStorable_shapeOf (hr : r.WellFormed) (t : TypeId) :
    (r.shapeOf t).isStorable = (r.kind t).isStorable := by
  rw [hr.shapeOf_eq]
  cases r.kind t <;> rfl

/-! ## Copies -/

namespace Sound

/-- The copy of a type whose values can be held is such a type too, without packed structs and with
the same data. -/
theorem promoted (hr : r.Sound) (hstorable : (r.kind t).isStorable = true)
    (hrun : r.run (Interning.std140 t) = (.ok t', r')) :
    r'.Sound ∧ t'.index < r'.size ∧ r'.IsStd140 t' ∧
      (r'.shapeOf t').data = (r.shapeOf t).data := by
  have ht := lt_size_of_isStorable hstorable
  obtain ⟨hsound, -, hholds⟩ := ensures_std140 hr ht
  rw [hrun] at hsound
  obtain ⟨hlt, hstd⟩ := hholds t' r' hrun
  obtain ⟨-, hshape⟩ := (ensures_std140_reads hr ht).2.2 t' r' hrun
  -- only what can be held is free of packed structs for sure: a pointer is its own copy
  have hstorable' : (r'.kind t').isStorable = true := by
    rw [← hsound.wellFormed.isStorable_shapeOf, hshape, TypeShape.isStorable_canonical,
      hr.wellFormed.isStorable_shapeOf, hstorable]
  exact ⟨hsound, hlt, hstd hstorable', by rw [hshape, TypeShape.data_canonical]⟩

/-- A type without packed structs is its own copy. -/
theorem run_std140_of_isStd140 (hr : r.Sound) (hstorable : (r.kind t).isStorable = true)
    (h : r.IsStd140 t) : r.run (Interning.std140 t) = (.ok t, r) :=
  run_std140_of_holds hr ⟨lt_size_of_isStorable hstorable, fun _ => h⟩

end Sound

/-- The copy under `std140` rules of a type whose values can be held contains no packed struct,
holds the same data and is its own copy. A type that contains no packed struct is its own copy, and
so are the types of the members of the structs under `std140` rules. -/
theorem std140_promotes (hr : r.Reachable) :
    (∀ t, (r.kind t).isStorable = true →
      (∀ t' r', r.run (Interning.std140 t) = (.ok t', r') →
        r'.IsStd140 t' ∧ (r'.shapeOf t').data = (r.shapeOf t).data ∧
          r'.run (Interning.std140 t') = (.ok t', r')) ∧
      (r.IsStd140 t → r.run (Interning.std140 t) = (.ok t, r))) ∧
    ∀ u s, r.kind u = .struct s → s.policy = .std140 →
      ∀ m ∈ s.members, r.run (Interning.std140 m.type) = (.ok m.type, r) := by
  refine ⟨fun t hstorable => ⟨fun t' r' hrun => ?_, fun hstd => ?_⟩, fun u s hs hpolicy m hm => ?_⟩
  · obtain ⟨hsound, hlt, hstd, hdata⟩ := hr.sound.promoted hstorable hrun
    exact ⟨hstd, hdata, run_std140_of_holds hsound ⟨hlt, fun _ => hstd⟩⟩
  · exact hr.sound.run_std140_of_isStd140 hstorable hstd
  -- the members of a struct under `std140` rules have been promoted when it was registered
  · have hvalid := hr.sound.valid_of_kind hs
    exact hr.sound.run_std140_of_isStd140 ((of_checkMembers hvalid.2.1).1 m hm).2.2
      (hvalid.2.2.2 hpolicy m hm)

/-! ## A row of lamps -/

/-- Some packed lamps with a packed lens each. -/
def lampRow : TypeShape :=
  .array (.struct (some "Lamp") .packed
    [("power", .scalar .f32), ("lens", .struct (some "Lens") .packed [("tint", .vector .f32 3)])]) 4

/-- The registry of the lamps. -/
def rowTypes : Registry := (empty.run (Interning.shape lampRow)).2

/-- The registry of the lamps and of their copies. -/
def promotedTypes : Registry := (rowTypes.run (Interning.std140 ⟨4⟩)).2

/-- The row of lamps is promoted. -/
theorem run_rowTypes : rowTypes.run (Interning.std140 ⟨4⟩) = (.ok ⟨7⟩, promotedTypes) :=
  run_of_toOption (by decide +kernel)

/-- The copy of a lamp, as it is registered. -/
def promotedLamp : StructType where
  name := "Lamp_std140"
  policy := .std140
  members := [⟨"power", ⟨0⟩⟩, ⟨"lens", ⟨5⟩⟩]
  layout := ⟨[0, 16], 16, 32⟩

/-- The lamp that is promoted. -/
theorem kind_promotedTypes : promotedTypes.kind ⟨6⟩ = .struct promotedLamp := by
  decide +kernel

/-- The row of copies contains no packed lamp or lens, holds what the row does and is its own copy;
the lens of a copy is its own copy, too. -/
theorem lampRow_promotes :
    promotedTypes.IsStd140 ⟨7⟩ ∧
      (promotedTypes.shapeOf ⟨7⟩).data = (rowTypes.shapeOf ⟨4⟩).data ∧
      promotedTypes.run (Interning.std140 ⟨7⟩) = (.ok ⟨7⟩, promotedTypes) ∧
      promotedTypes.run (Interning.std140 ⟨5⟩) = (.ok ⟨5⟩, promotedTypes) := by
  have hrow : rowTypes.Reachable := .shape lampRow .empty
  have hpromoted : promotedTypes.Reachable := .std140 (by decide +kernel) hrow
  obtain ⟨hcopies, -⟩ := std140_promotes hrow
  obtain ⟨-, hmembers⟩ := std140_promotes hpromoted
  obtain ⟨hstd, hdata, hself⟩ := (hcopies ⟨4⟩ (by decide +kernel)).1 ⟨7⟩ promotedTypes run_rowTypes
  exact ⟨hstd, hdata, hself,
    hmembers ⟨6⟩ promotedLamp kind_promotedTypes rfl ⟨"lens", ⟨5⟩⟩ (by decide)⟩

end Registry

end WebShader
