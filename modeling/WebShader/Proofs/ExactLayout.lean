import WebShader.Binding.Layout
import WebShader.Proofs.BindingPartition
import WebShader.Proofs.DeclaredLayout
import WebShader.Proofs.GroupLayouts
import WebShader.Proofs.StructPlacement

/-!
# Exact layouts

Layouts are computed as they are without bounds, and only what leaves the address space is refused.
What is computed with them later, where structs are declared and buffers are bound, stays within
the address space and is never refused.
-/

namespace WebShader

open Layout

/-! ## Extents -/

/-- What the extents of a primitive type are computed from is far from the last address. -/
structure PrimitiveType.Fits (p : PrimitiveType) : Prop where
  rounded : p.vectorExtent.size + p.vectorExtent.alignment < addressSpace
  column : p.element.vectorExtent.size + 16 < addressSpace
  extent : ∀ policy, (p.extent policy).size < addressSpace

/-- The primitive types that there are fit into the address space. -/
theorem fits_valid :
    ∀ p ∈ PrimitiveType.valid, p.vectorExtent.size + p.vectorExtent.alignment < addressSpace ∧
      p.element.vectorExtent.size + 16 < addressSpace ∧
      ∀ policy ∈ LayoutPolicy.all, (p.extent policy).size < addressSpace := by
  decide

/-- A valid primitive type fits into the address space. -/
theorem PrimitiveType.fits {p : PrimitiveType} (h : p.fault = none) : p.Fits := by
  obtain ⟨hrounded, hcolumn, hextent⟩ := fits_valid p (mem_valid h)
  exact ⟨hrounded, hcolumn, fun policy => hextent policy (Registry.mem_all_policies policy)⟩

namespace Registry

/-- The members of a laid out struct have extents under its rules and under packed ones, and all of
them end within the struct, whose size is an address. -/
structure Measures (r : Registry) (s : StructType) : Prop where
  size_lt : s.layout.size < addressSpace
  length_eq : s.layout.offsets.length = s.members.length
  natural : ∀ m ∈ s.members, ∃ e, r.extent m.type .packed = .ok e ∧ e.size < addressSpace
  within : ∀ x ∈ s.members.zip s.layout.offsets, ∃ e,
    r.extent x.1.type s.policy = .ok e ∧ x.2 + e.size ≤ s.layout.size

namespace Sound

variable {r : Registry}

/-- The size of every type that has an extent is an address. -/
theorem extent_size_lt (hr : r.Sound) {t : TypeId} {policy : LayoutPolicy} {e : Extent}
    (h : r.extent t policy = .ok e) : e.size < addressSpace := by
  have hvalid := hr.valid t
  cases hk : r.kind t with
  | primitive p =>
      rw [hk] at hvalid
      rw [extent_primitive hk] at h
      obtain rfl := Except.ok.inj h
      exact (PrimitiveType.fits hvalid).extent policy
  | array element n =>
      obtain ⟨inner, slot, size, -, -, hsize, rfl⟩ :=
        (hr.wellFormed.extent_array_eq_ok_iff hk).mp h
      obtain ⟨rfl, hlt⟩ := checked_eq_some_iff.mp hsize
      exact hlt
  | struct s =>
      rw [hk] at hvalid
      rw [extent_struct hk] at h
      obtain rfl := Except.ok.inj h
      obtain ⟨hlayout, hfits⟩ := hr.structLayout_iff.mp hvalid.2.2.1
      dsimp only
      rw [hlayout]
      exact hfits _ (by simp [structNumbers, placements])
  | void | pointer | texture | sampler =>
      rw [extent, hk] at h
      obtain rfl := Except.ok.inj h
      decide

/-- Everything that is asked of the layout of a registered struct later is there. -/
theorem measures (hr : r.Sound) {t : TypeId} {s : StructType} (hs : r.kind t = .struct s) :
    r.Measures s := by
  have hvalid := hr.valid_of_kind hs
  obtain ⟨es, hes, hplaces, -⟩ := hr.places_of_structLayout hvalid.2.2.1
  -- the size of a struct is its extent under any rules
  refine ⟨hr.extent_size_lt (extent_struct hs .packed), ?_, fun m _ => ?_, fun x hx => ?_⟩
  · rw [hplaces.aligned.length_eq, ← List.Forall₂.length_eq hes]
  · obtain ⟨e, he⟩ := hr.exists_packed_extent m.type
    exact ⟨e, he, hr.extent_size_lt he⟩
  · obtain ⟨e, he, hmem⟩ := exists_mem_zip_of_forall₂ hes hx
    exact ⟨e, he, hplaces.within _ hmem⟩

end Sound

end Registry

/-! ## Declared structs -/

/-- Every registered struct can be declared in a WGSL source. -/
theorem Wgsl.exists_struct {stage : ResolvedStage} (hr : stage.types.Sound) {t : TypeId}
    {s : StructType} (hs : stage.types.kind t = .struct s) : ∃ d, Wgsl.struct stage t = .ok d := by
  obtain ⟨_, _, -, -, hstructs⟩ := Wgsl.exists_declarations (s := stage) hr [t]
  have hmem := (Registry.collects_structsOf hr.wellFormed [t]).new t List.mem_cons_self t s
    Relation.ReflTransGen.refl hs
  obtain ⟨d, hd, -⟩ := hstructs t hmem s hs
  exact ⟨d, hd⟩

/-! ## Bound buffers -/

namespace Binding

variable {r : Registry}

/-- Members whose types have extents have layouts. -/
theorem exists_memberLayouts {policy : LayoutPolicy} {placed : List (Member × Nat)}
    (h : ∀ x ∈ placed, ∃ e, r.extent x.1.type policy = .ok e) :
    ∃ members, memberLayouts r policy placed = .ok members := by
  induction placed with
  | nil => exact ⟨[], rfl⟩
  | cons x rest ih =>
      obtain ⟨m, offset⟩ := x
      obtain ⟨e, he⟩ := h (m, offset) List.mem_cons_self
      obtain ⟨members, hmembers⟩ := ih fun y hy => h y (List.mem_cons_of_mem _ hy)
      refine ⟨⟨m.name, offset, e.size, r.display m.type⟩ :: members, ?_⟩
      simp only [memberLayouts, he, hmembers]
      rfl

/-- A buffer has a layout if it holds a struct, or else something with an extent under the rules of
its use. -/
theorem exists_bufferLayout (hr : r.Sound) {t : TypeId} {bufferUse : BufferUse}
    (h : r.struct? t = none → ∃ e, r.extent t bufferUse.policy = .ok e) :
    ∃ layout, bufferLayout r t bufferUse = .ok layout := by
  unfold bufferLayout
  cases hs : r.struct? t with
  | none =>
      obtain ⟨e, he⟩ := h hs
      simp only [he]
      exact ⟨_, rfl⟩
  | some s =>
      obtain ⟨members, hmembers⟩ := exists_memberLayouts fun x hx =>
        ((hr.measures (Registry.struct?_eq_some_iff.mp hs)).within x hx).imp fun _ he => he.1
      simp only [hmembers]
      exact ⟨_, rfl⟩

/-- The content of a record that agrees with the registered types has a layout. -/
theorem Typed.exists_layout {all : List Shared} {b : Record} (h : Typed all r b) (hr : r.Sound) :
    ∃ layout, b.content.layout r = .ok layout := by
  cases h with
  | @block t st hb _ hk _ =>
      obtain ⟨layout, hlayout⟩ : ∃ layout, bufferLayout r t .uniform = .ok layout :=
        exists_bufferLayout hr (by simp [Registry.struct?, hk])
      exact ⟨.buffer layout, by rw [hb, Content.layout, hlayout]; rfl⟩
  | @storage t readOnly hb =>
      obtain ⟨layout, hlayout⟩ : ∃ layout,
          bufferLayout r t (if readOnly then .readOnlyStorage else .storage) = .ok layout :=
        exists_bufferLayout hr fun _ => by cases readOnly <;> exact hr.exists_packed_extent t
      exact ⟨.buffer layout, by rw [hb, Content.layout, hlayout]; rfl⟩
  | texture hb => exact ⟨_, by rw [hb]; rfl⟩
  | sampler hb => exact ⟨_, by rw [hb]; rfl⟩
  | generated hb => exact ⟨_, by rw [hb]; rfl⟩

/-- Every group has a layout when the contents of all records have. -/
theorem Plan.exists_groupLayout {p : Plan}
    (h : ∀ b ∈ p.records, ∃ layout, b.content.layout r = .ok layout) (label : String) (n : Nat) :
    ∃ g, p.groupLayout r label n = .ok g := by
  have hentries : ∀ b ∈ p.records.filter (·.group.toNat == n), ∃ e, b.entry r = .ok e := by
    intro b hb
    obtain ⟨layout, hlayout⟩ := h b (List.mem_of_mem_filter hb)
    exact ⟨⟨b.index, b.name, b.visibility, layout⟩, by rw [Record.entry, hlayout]; rfl⟩
  obtain ⟨entries, hentries⟩ := exists_forall₂ hentries
  exact ⟨⟨label ++ ".group" ++ toString n, n, entries⟩, by
    rw [groupLayout, mapM_eq_ok_iff.mpr hentries]; rfl⟩

/-- There are layouts when each group has one and the groups can be counted. -/
theorem Plan.exists_layouts {p : Plan} {label : String}
    (h : ∀ n, ∃ g, p.groupLayout r label n = .ok g)
    (hwords : ∀ b ∈ p.records, b.group.toNat + 1 < 4294967296) :
    ∃ groups, p.layouts r label = .ok groups := by
  obtain ⟨count, hcount⟩ := exists_groupCount_iff.mpr hwords
  obtain ⟨groups, hgroups⟩ := exists_forall₂ fun n (_ : n ∈ List.range count) => h n
  exact ⟨groups, by rw [layouts, hcount]; exact mapM_eq_ok_iff.mpr hgroups⟩

end Binding

/-! ## Reachable registries -/

namespace Registry

/-- Types and structs have the layouts they have without bounds, and are refused exactly when a
stride, the end of a member or a size is no address. What is computed with the layouts later does
not leave the address space and is not refused: extents of primitive types, the place that is left
behind a member of a struct, the declarations of structs and the layouts of bound buffers. Only the
number of the groups may not be a word. -/
theorem layout_exact {r : Registry} (hr : r.Reachable) :
    (∀ t policy e, r.extent t policy = .ok e ↔
      e = r.unbounded t policy ∧ Addressable (r.extentNumbers t policy)) ∧
    (∀ members policy layout, r.structLayout members policy = .ok layout ↔
      layout = r.unboundedStruct policy members ∧
        Addressable (r.structNumbers policy members)) ∧
    (∀ t p, r.kind t = .primitive p → p.Fits) ∧
    (∀ t s, r.kind t = .struct s → r.Measures s ∧
      ∀ stage : ResolvedStage, stage.types = r → ∃ d, Wgsl.struct stage t = .ok d) ∧
    ∀ target vars stages p r',
      (∀ x ∈ Binding.declarations vars stages, x.2.type.index < r.size) →
      r.run (Binding.plan target vars stages) = (.ok p, r') →
      ∀ label, (∀ n, ∃ g, p.groupLayout r' label n = .ok g) ∧
        ((∀ b ∈ p.records, b.group.toNat + 1 < 4294967296) →
          ∃ groups, p.layouts r' label = .ok groups) := by
  have hsound := hr.sound
  refine ⟨fun t policy => hsound.isExact t policy, fun members policy layout =>
    hsound.structLayout_iff, fun t p hk => ?_, fun t s hs => ⟨hsound.measures hs, ?_⟩, ?_⟩
  · have hvalid := hsound.valid_of_kind hk
    exact PrimitiveType.fits hvalid
  · rintro stage rfl
    exact Wgsl.exists_struct hsound hs
  · intro target vars stages p r' htypes hrun label
    -- the resources of a plan have been laid out before, when they were bound
    obtain ⟨all, hgathers, hbind⟩ := Binding.plan_eq_ok hrun
    obtain ⟨hsound', htyped⟩ := Binding.typed_of_gathers hsound htypes hgathers hbind
    have hgroups := Binding.Plan.exists_groupLayout
      (fun b hb => (htyped b hb).exists_layout hsound') label
    exact ⟨hgroups, Binding.Plan.exists_layouts hgroups⟩

/-! ## Half of the address space -/

/-- The registry of an array that fills half of the address space if it is packed, and would need
twice the address space under `std140` rules. -/
def hugeTypes : Registry := (empty.run (Interning.shape (.array (.scalar .f32) 536870912))).2

/-- The array does not fit into the address space under the rules of uniforms. -/
theorem not_addressable_hugeTypes :
    ¬Addressable (hugeTypes.extentNumbers ⟨1⟩ .std140) := by
  intro h
  have hlt := h 8589934592 (by decide +kernel)
  exact absurd hlt (by decide)

/-- All that is bound in the scene is in the first group. -/
theorem group_scene {p : Binding.Plan} {r' : Registry} (hrun : Binding.sceneTypes.run
    (Binding.plan .webGPU Binding.sceneVars Binding.sceneStages) = (.ok p, r'))
    {b : Binding.Record} (hb : b ∈ p.records) : b.group = 0 := by
  have hall : (Binding.sceneTypes.run
      (Binding.plan .webGPU Binding.sceneVars Binding.sceneStages)).1.toOption.all
        (fun p => p.records.all (·.group == 0)) = true := by decide +kernel
  rw [hrun] at hall
  exact eq_of_beq (List.all_eq_true.mp hall b hb)

/-- The array is exactly as large as it should be, or refused. The blocks of terrain can be
declared, and the groups of a scene have layouts. -/
theorem huge_layout_exact :
    hugeTypes.extent ⟨1⟩ .packed = .ok ⟨2147483648, 4⟩ ∧
    (∀ e, hugeTypes.extent ⟨1⟩ .std140 ≠ .ok e) ∧
    (∀ stage : ResolvedStage, stage.types = terrainTypes → ∃ d, Wgsl.struct stage ⟨7⟩ = .ok d) ∧
    ∃ p r', Binding.sceneTypes.run
      (Binding.plan .webGPU Binding.sceneVars Binding.sceneStages) = (.ok p, r') ∧
        ∃ groups, p.layouts r' "scene" = .ok groups := by
  obtain ⟨hexact, -⟩ := layout_exact (r := hugeTypes) (.shape _ .empty)
  obtain ⟨-, -, -, hstructs, -⟩ := layout_exact (r := terrainTypes) (.shape _ .empty)
  obtain ⟨-, -, -, -, hplans⟩ := layout_exact (r := Binding.sceneTypes) (.shape _ (.shape _ .empty))
  obtain ⟨p, r', hrun, -⟩ := Binding.exists_scenePlan
  refine ⟨(hexact ⟨1⟩ .packed _).mpr ⟨by decide +kernel, by decide +kernel⟩, fun e he => ?_,
    (hstructs ⟨7⟩ terrain kind_terrainTypes).2, p, r', hrun, ?_⟩
  · exact not_addressable_hugeTypes ((hexact ⟨1⟩ .std140 e).mp he).2
  · refine (hplans _ _ _ p r' Binding.index_lt_sceneTypes hrun "scene").2 fun b hb => ?_
    rw [group_scene hrun hb]
    decide

end Registry

end WebShader
