import WebShader.Glsl.Module
import WebShader.Proofs.DeclarationReading

/-!
# The layout GLSL ES gives to uniform blocks

GLSL ES 3.00 lays out a block declared `std140` by its own rules, from the types of its members.
What comes out is the layout that the struct of the block was registered with.
-/

namespace WebShader

namespace Glsl

open Layout

/-! ## The rules -/

/-- The extent of a scalar or of a vector with some components: three of them align like four. -/
def componentsExtent (rows : Nat) : Extent :=
  ⟨4 * rows, if rows = 1 then 4 else if rows = 2 then 8 else 16⟩

/-- The extent of an array: the alignment of an element, rounded up to 16, is the one of the array,
and the elements are spaced by a multiple of it. -/
def arrayExtent (element : Extent) (n : Nat) : Extent :=
  let alignment := roundUp element.alignment 16
  ⟨roundUp element.size alignment * n, alignment⟩

/-- The extent GLSL ES gives to a type in a block. Matrices are arrays of their columns. -/
def TypeName.block (known : Known String) : TypeName → Option Extent
  | primitive p =>
    let column := componentsExtent p.rows.toNat
    some (if p.isMatrix then arrayExtent column p.cols.toNat else column)
  | array element n => (element.block known).map fun e => arrayExtent e n
  | struct name => known.extent name
  | void | sampler _ => none

/-- The layout of a struct in a block, or of the block itself: the strictest alignment of the
members, rounded up to 16, is the one of the struct, which is padded to it. -/
def blockLayout (members : List Extent) : StructLayout :=
  let alignment := roundUp (strictest members) 16
  ⟨offsets members 0, alignment, roundUp (ending members 0) alignment⟩

/-- The layout GLSL ES gives to a struct. -/
def Struct.block (known : Known String) (d : Struct) : Option StructLayout :=
  (d.fields.mapM fun (f : Field) => f.type.block known).map blockLayout

/-! ## Types -/

/-- Primitive types of 32-bit components have the extent of `std140` rules. -/
theorem block_primitive_valid :
    ∀ p ∈ PrimitiveType.valid, p.scalar ≠ .f16 →
      TypeName.block [] (.primitive p) = some (p.extent .std140) := by
  decide

/-- An array has the extent of `std140` rules when its elements have. -/
theorem arrayExtent_eq {inner stride : Extent} {n size : Nat} (hdvd : inner.alignment ∣ 16)
    (hstride : Registry.elementExtent .std140 inner = some stride)
    (hsize : checked (stride.size * n) = some size) :
    arrayExtent inner n = ⟨size, stride.alignment⟩ := by
  obtain ⟨bytes, hbytes, rfl⟩ := Option.map_eq_some_iff.mp hstride
  obtain ⟨m, hm, hm'⟩ := Option.bind_eq_some_iff.mp hbytes
  rw [(checked_eq_some_iff.mp hsize).1, roundUp?_eq_some (by decide) hm',
    roundUp?_eq_some (pos_of_dvd_sixteen hdvd) hm, arrayExtent, roundUp_sixteen hdvd,
    roundUp_roundUp (by decide) hdvd, Nat.max_eq_right (Nat.le_of_dvd (by decide) hdvd)]

/-- A type whose declaration GLSL ES lays out like `std140` rules do: its structs follow them, no
component has 16 bits, and every array has a length. -/
structure Blockable (r : Registry) (t : TypeId) : Prop where
  std140 : r.IsStd140 t
  half : ∀ u p, r.Contains t u → r.kind u = .primitive p → p.scalar ≠ .f16
  storable : (r.kind t).isStorable = true
  sized : r.isRuntimeSized t = false

section Types

variable {r : Registry} {t : TypeId} {known : Known String}

/-- The types that such a type contains are such types. -/
theorem Blockable.part (h : Blockable r t) (hr : r.Sound) {u : TypeId}
    (hu : u ∈ (r.kind t).parts) : Blockable r u := by
  obtain ⟨hstorable, hsized⟩ := hr.part_of_sized h.storable h.sized hu
  exact ⟨h.std140.part hu, fun v p hv hp => h.half v p (Relation.ReflTransGen.head hu hv) hp,
    hstorable, hsized⟩

/-- GLSL ES gives to the name of a type the extent of the type under `std140` rules. -/
theorem block_typeName (hr : r.Sound) (target : Target) {t : TypeId} (h : Blockable r t)
    (hknown : ∀ u s, r.Contains t u → r.kind u = .struct s →
      known.extent s.name = some ⟨s.layout.size, s.layout.alignment⟩)
    {laid : Extent} (hlaid : r.extent t .std140 = .ok laid) :
    ∃ name, typeName r target t = .ok name ∧ name.block known = some laid := by
  have hvalid := hr.valid t
  cases hk : r.kind t with
  | primitive p =>
      rw [hk] at hvalid
      rw [Registry.extent_primitive hk] at hlaid
      refine ⟨.primitive p, by rw [typeName, hk], ?_⟩
      rw [← Except.ok.inj hlaid]
      exact block_primitive_valid p (PrimitiveType.mem_valid hvalid)
        (h.half t p Relation.ReflTransGen.refl hk)
  | array element n =>
      have hpart : element ∈ (r.kind t).parts := by rw [hk]; exact List.mem_cons_self
      have hdown := hr.wellFormed t element hpart
      obtain ⟨inner, stride, size, hinner, hstride, hsize, rfl⟩ :=
        (hr.wellFormed.extent_array_eq_ok_iff hk).mp hlaid
      obtain ⟨name, hname, hblock⟩ := block_typeName hr target (h.part hr hpart)
        (fun u s hu hs => hknown u s (Relation.ReflTransGen.head hpart hu) hs) hinner
      have hn : n ≠ 0 := by
        have hsized := h.sized
        rw [Registry.isRuntimeSized_array hk] at hsized
        simpa using hsized
      refine ⟨.array name n, ?_, ?_⟩
      · rw [typeName, hk]
        simp only [hn, if_false, hdown, if_true, hname, Except.map]
      · rw [TypeName.block, hblock, Option.map_some,
          arrayExtent_eq (hr.extent_dvd_sixteen hinner) hstride hsize]
  | struct s =>
      rw [Registry.extent_struct hk] at hlaid
      refine ⟨.struct s.name, by rw [typeName, hk], ?_⟩
      rw [← Except.ok.inj hlaid]
      exact hknown t s Relation.ReflTransGen.refl hk
  | void | pointer | texture | sampler =>
      have hstorable := h.storable
      rw [hk] at hstorable
      simp [TypeKind.isStorable] at hstorable
termination_by t.index

/-- The members of a struct are declared with their extents under `std140` rules. -/
theorem block_fields {s : ResolvedStage} (hr : s.types.Sound) {members : List Member}
    {es : List Extent} (hes : s.types.MemberExtents .std140 members es)
    (hmembers : ∀ m ∈ members, Blockable s.types m.type)
    (hknown : ∀ m ∈ members, ∀ u su, s.types.Contains m.type u → s.types.kind u = .struct su →
      known.extent su.name = some ⟨su.layout.size, su.layout.alignment⟩) :
    ∃ fields : List Field, (members.mapM fun m => field s m.name m.type) = .ok fields ∧
      fields.map (·.name) = members.map (·.name) ∧
      (fields.mapM fun (f : Field) => f.type.block known) = some es := by
  induction hes with
  | nil => exact ⟨[], rfl, rfl, rfl⟩
  | @cons m e rest es he hes ih =>
      obtain ⟨name, hname, hblock⟩ := block_typeName hr s.target
        (hmembers m List.mem_cons_self) (hknown m List.mem_cons_self) he
      obtain ⟨fields, hfields, hnames, hblocks⟩ :=
        ih (fun m' hm' => hmembers m' (List.mem_cons_of_mem _ hm'))
          (fun m' hm' => hknown m' (List.mem_cons_of_mem _ hm'))
      refine ⟨⟨name, m.name⟩ :: fields, ?_, ?_, ?_⟩
      · rw [List.mapM_cons, hfields, field, typeOf, hname]
        rfl
      · rw [List.map_cons, List.map_cons, hnames]
      · rw [List.mapM_cons, hblock, hblocks]
        rfl

/-- GLSL ES gives to the declared members of a struct the layout the struct was registered with,
when the structs they contain have been declared. -/
theorem block_struct {s : ResolvedStage} (hr : s.types.Sound) {t : TypeId} {st : StructType}
    (hk : s.types.kind t = .struct st) (h : Blockable s.types t)
    (hknown : ∀ m ∈ st.members, ∀ u su, s.types.Contains m.type u →
      s.types.kind u = .struct su →
        known.extent su.name = some ⟨su.layout.size, su.layout.alignment⟩) :
    ∃ fields, (st.members.mapM fun m => field s m.name m.type) = .ok fields ∧
      fields.map (·.name) = st.members.map (·.name) ∧
      Struct.block known ⟨st.name, fields⟩ = some st.layout := by
  obtain ⟨es, hes, hlayout⟩ := hr.layout_eq hk
  have hpolicy := h.std140 t st Relation.ReflTransGen.refl hk
  rw [hpolicy] at hes hlayout
  have hmembers : ∀ m ∈ st.members, Blockable s.types m.type := by
    intro m hm
    refine h.part hr ?_
    rw [hk]
    exact List.mem_map_of_mem hm
  obtain ⟨fields, hfields, hnames, hblocks⟩ := block_fields hr hes hmembers hknown
  refine ⟨fields, hfields, hnames, ?_⟩
  have hdvd := hr.memberExtents_dvd_sixteen hes
  rw [Struct.block, hblocks, Option.map_some, blockLayout, hlayout, ofExtents_std140 hdvd,
    roundUp_sixteen (strictest_dvd_sixteen hdvd)]

end Types

/-! ## Blocks -/

section Blocks

variable {s : ResolvedStage} {t : TypeId} {st : StructType}

/-- What a type of a block contains can stand in a block. -/
theorem Blockable.of_contains {r : Registry} {t u : TypeId} (h : Blockable r t) (hr : r.Sound)
    (hu : r.Contains t u) : Blockable r u := by
  induction hu with
  | refl => exact h
  | tail _ hpart ih => exact ih.part hr hpart

/-- The structs that the members of a block contain, as a source declares them. -/
def blockStructs (s : ResolvedStage) (st : StructType) :
    Except ShaderError (List (String × Struct)) :=
  (s.types.structsOf (st.members.map (·.type))).mapM fun u => do
    let d ← struct s u
    return (d.name, d)

/-- A struct is declared with its members in order. -/
theorem struct_eq_ok (hk : s.types.kind t = .struct st) {fields : List Field}
    (hfields : (st.members.mapM fun m => field s m.name m.type) = .ok fields) :
    struct s t = .ok ⟨st.name, fields⟩ := by
  rw [struct, ResolvedStage.struct, Registry.struct?, hk]
  simp only [bind, Except.bind, hfields]
  rfl

/-- A block is declared with the members of its struct. -/
theorem uniform_eq (htarget : s.target = .webGL2) (hk : s.types.kind t = .struct st)
    {b : Binding.Record} (hb : b.content = .uniformBlock t) :
    uniform s b = (st.members.mapM fun m => field s m.name m.type).map fun fields =>
      .block ⟨st.name, fields⟩ b.name := by
  rw [uniform, hb]
  simp only [Registry.struct?, hk, htarget, if_true]
  cases st.members.mapM fun m => field s m.name m.type <;> rfl

/-- A block and the structs it contains are declared, and the declarations read in order give the
block the layout that its struct was registered with. -/
theorem block_layout (hr : s.types.Sound) (hk : s.types.kind t = .struct st)
    (h : Blockable s.types t) (htarget : s.target = .webGL2) {b : Binding.Record}
    (hb : b.content = .uniformBlock t) :
    ∃ ds known fields, blockStructs s st = .ok ds ∧ readStructs Struct.block [] ds = some known ∧
      uniform s b = .ok (.block ⟨st.name, fields⟩ b.name) ∧
      fields.map (·.name) = st.members.map (·.name) ∧
      Struct.block known ⟨st.name, fields⟩ = some st.layout := by
  have hcollects := Registry.collects_structsOf hr.wellFormed (st.members.map (·.type))
  have hmem : ∀ u ∈ s.types.structsOf (st.members.map (·.type)),
      Blockable s.types u ∧ ∃ su, s.types.kind u = .struct su := by
    intro u hu
    rcases hcollects.only u hu with hnil | ⟨⟨part, hpart, hcontains⟩, hsu⟩
    · simp at hnil
    · have hpart' : part ∈ (s.types.kind t).parts := by rw [hk]; exact hpart
      exact ⟨(h.part hr hpart').of_contains hr hcontains, hsu⟩
  -- each struct is read when those that its members hold have been
  obtain ⟨ds, known, hds, hread, hreads, -⟩ :=
    readStructs_ordered Struct.block (fun name => name) (fun _ => True)
      (fun u => do
        let d ← struct s u
        return (d.name, d)) [] hr (fun _ _ h => h) (fun _ _ _ h => h)
      (by simpa using hcollects.ordered) (fun u hu => (hmem u hu).2)
      (fun u hu su before known hsu hbefore hreads _ => by
        obtain ⟨fields, hfields, -, hblock⟩ := block_struct hr hsu (hmem u hu).1
          fun m hm v sv hv hsv => by
            have hpart : m.type ∈ (s.types.kind u).parts := by
              rw [hsu]
              exact List.mem_map_of_mem hm
            have hne := hr.wellFormed.ne_of_contains_part hpart hv
            have hin := hbefore v sv (Relation.ReflTransGen.head hpart hv) hne hsv
            exact hreads v hin sv hsv
        exact ⟨⟨su.name, fields⟩, by rw [struct_eq_ok hsu hfields]; rfl, hblock⟩)
      (by simp [Reads]) trivial
  obtain ⟨fields, hfields, hnames, hblock⟩ := block_struct hr hk h
    fun m hm v sv hv hsv =>
      hreads v (hcollects.new m.type (List.mem_map_of_mem hm) v sv hv hsv) sv hsv
  refine ⟨ds, known, fields, hds, hread, ?_, hnames, hblock⟩
  rw [uniform_eq htarget hk hb, hfields]
  rfl

/-- A struct with a runtime-sized tail contains one whose last member is a runtime-sized array. -/
theorem exists_runtime_member {r : Registry} (hr : r.Sound) {t : TypeId} {st : StructType}
    (hk : r.kind t = .struct st) (hsized : r.isRuntimeSized t = true) :
    ∃ u su element, r.Contains t u ∧ r.kind u = .struct su ∧
      ∃ m ∈ su.members, r.kind m.type = .array element 0 := by
  rw [Registry.isRuntimeSized, hk] at hsized
  dsimp only at hsized
  cases hlast : st.members.getLast? with
  | none => simp [hlast] at hsized
  | some m =>
      have hm := List.mem_of_getLast? hlast
      have hpart : m.type ∈ (r.kind t).parts := by
        rw [hk]
        exact List.mem_map_of_mem hm
      have hdown := hr.wellFormed t m.type hpart
      simp only [hlast, hdown, if_true] at hsized
      cases hkm : r.kind m.type with
      | array element n =>
          rw [Registry.isRuntimeSized_array hkm, beq_iff_eq] at hsized
          rw [hsized] at hkm
          exact ⟨t, st, element, Relation.ReflTransGen.refl, hk, m, hm, hkm⟩
      | struct sm =>
          obtain ⟨u, su, element, hu, hsu, hrest⟩ := exists_runtime_member hr hkm hsized
          exact ⟨u, su, element, Relation.ReflTransGen.head hpart hu, hsu, hrest⟩
      | void | primitive | pointer | texture | sampler =>
          rw [Registry.isRuntimeSized, hkm] at hsized
          simp at hsized
termination_by t.index

/-- A member that is a runtime-sized array cannot be declared. -/
theorem fields_ne_ok {m : Member} {element : TypeId}
    (hm : m ∈ st.members) (hkm : s.types.kind m.type = .array element 0) (fields : List Field) :
    (st.members.mapM fun m => field s m.name m.type) ≠ .ok fields := by
  intro h
  obtain ⟨f, -, hf⟩ := exists_result_of_forall₂ (mapM_eq_ok_iff.mp h) m hm
  rw [field, typeOf, typeName, hkm] at hf
  simp [bind, Except.bind] at hf

/-- Only blocks without a runtime-sized tail are declared together with the structs they
contain. -/
theorem isRuntimeSized_eq_false_of_declared (hr : s.types.Sound)
    (hk : s.types.kind t = .struct st) (htarget : s.target = .webGL2) {b : Binding.Record}
    (hb : b.content = .uniformBlock t) {ds : List (String × Struct)} {u : Uniform}
    (hds : blockStructs s st = .ok ds) (hu : uniform s b = .ok u) :
    s.types.isRuntimeSized t = false := by
  by_contra hsized
  obtain ⟨v, sv, element, hv, hsv, m, hm, hkm⟩ :=
    exists_runtime_member hr hk (by simpa using hsized)
  rcases Relation.ReflTransGen.cases_head hv with rfl | ⟨part, hpart, hrest⟩
  · rw [hk] at hsv
    obtain rfl := TypeKind.struct.inj hsv
    rw [uniform_eq htarget hk hb] at hu
    cases hfields : st.members.mapM fun m => field s m.name m.type with
    | error e =>
        rw [hfields] at hu
        simp [Except.map] at hu
    | ok fields => exact fields_ne_ok hm hkm fields hfields
  · rw [hk] at hpart
    have hcollects := Registry.collects_structsOf hr.wellFormed (st.members.map (·.type))
    have hin := hcollects.new part hpart v sv hrest hsv
    obtain ⟨entry, -, hentry⟩ := exists_result_of_forall₂ (mapM_eq_ok_iff.mp hds) v hin
    obtain ⟨d, hd, -⟩ := bind_eq_ok_iff.mp hentry
    obtain ⟨sv', hsv', hd⟩ := bind_eq_ok_iff.mp hd
    rw [ResolvedStage.struct, Registry.struct?, hsv] at hsv'
    obtain rfl := Except.ok.inj hsv'
    obtain ⟨fields, hfields, -⟩ := bind_eq_ok_iff.mp hd
    exact fields_ne_ok hm hkm fields hfields

end Blocks

end Glsl

end WebShader
