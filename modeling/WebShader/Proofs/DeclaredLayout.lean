import WebShader.Proofs.NaturalLayout

/-!
# The structs of a WGSL source

A WGSL source declares the wrappers its structs need, then its structs, each after those it
contains. Read in this order, every declaration gives its struct the layout it was registered with.
-/

namespace WebShader

namespace Wgsl

/-! ## Wrappers -/

section Wrappers

variable {r : Registry} {known : Known TypeName}

/-- The wrappers of a list of types have been read. -/
def ReadsWrappers (wrapped : List PrimitiveType) (known : Known TypeName) : Prop :=
  ∀ p ∈ wrapped, known.extent (.padded p) = some (wrapperExtent p)

/-- Wrappers read as the types they pad, in 16 bytes. -/
theorem readStructs_wrappers {wrapped : List PrimitiveType}
    (hvalid : ∀ p ∈ wrapped, p.fault = none) {before : List PrimitiveType}
    (h : ReadsWrappers before known) :
    ∃ known', readStructs Struct.natural known
        (wrapped.map fun p => (.padded p, wrapper p)) = some known' ∧
      ReadsWrappers (before ++ wrapped) known' := by
  induction wrapped generalizing known before with
  | nil => exact ⟨known, rfl, by simpa using h⟩
  | cons p rest ih =>
      have hp := wrapper_natural_valid p (PrimitiveType.mem_valid (hvalid p List.mem_cons_self))
      obtain ⟨layout, hlayout, hextent⟩ := Option.map_eq_some_iff.mp hp
      have hnext : ReadsWrappers (before ++ [p]) ((.padded p, wrapperExtent p) :: known) := by
        intro q hq
        rw [extent_cons]
        by_cases heq : p = q
        · simp [heq]
        · have hmem : q ∈ before := by
            rcases List.mem_append.mp hq with hq | hq
            · exact hq
            · exact absurd (List.mem_singleton.mp hq).symm heq
          simpa [heq] using h q hmem
      obtain ⟨known', hread, hreads⟩ :=
        ih (fun q hq => hvalid q (List.mem_cons_of_mem _ hq)) hnext
      refine ⟨known', ?_, by rwa [List.append_cons]⟩
      rw [List.map_cons, readStructs, wrapper_natural, hlayout, ← hread, ← hextent]
      rfl

/-- Collecting what is new finds everything. -/
theorem mem_foldl_new {ps found : List PrimitiveType} {p : PrimitiveType} :
    p ∈ ps.foldl (fun found p => if found.contains p then found else found ++ [p]) found ↔
      p ∈ found ∨ p ∈ ps := by
  induction ps generalizing found with
  | nil => simp
  | cons q rest ih =>
      rw [List.foldl_cons, ih]
      by_cases hq : q ∈ found
      · simp only [List.contains_eq_mem, hq, decide_true, if_true, List.mem_cons]
        constructor
        · rintro (h | h)
          · exact Or.inl h
          · exact Or.inr (Or.inr h)
        · rintro (h | rfl | h)
          · exact Or.inl h
          · exact Or.inl hq
          · exact Or.inr h
      · simp [hq, or_assoc]

/-- The types whose wrappers are declared are those that some member needs. -/
theorem mem_wrappers_iff {structs : List StructType} {p : PrimitiveType} :
    p ∈ wrappers r structs ↔ ∃ st ∈ structs, st.policy = .std140 ∧
      ∃ m ∈ st.members, wrapped? r m.type = some p := by
  unfold wrappers
  rw [mem_foldl_new]
  simp only [List.not_mem_nil, false_or, List.mem_filterMap, List.mem_flatMap, List.mem_filter,
    beq_iff_eq]
  constructor
  · rintro ⟨m, ⟨st, ⟨hst, hpolicy⟩, hm⟩, hwrapped⟩
    exact ⟨st, hst, hpolicy, m, hm, hwrapped⟩
  · rintro ⟨st, hst, hpolicy, m, hm, hwrapped⟩
    exact ⟨m, ⟨st, ⟨hst, hpolicy⟩, hm⟩, hwrapped⟩

/-- Only registered types are wrapped. -/
theorem fault_of_wrapped? (hr : r.Sound) {t : TypeId} {p : PrimitiveType}
    (h : wrapped? r t = some p) : p.fault = none := by
  have hvalid := hr.valid t
  cases hk : r.kind t with
  | primitive q =>
      rw [hk] at hvalid
      rw [wrapped?, hk] at h
      dsimp only at h
      split at h
      · rw [← Option.some.inj h]
        exact hvalid
      · simp at h
  | array element n =>
      have hdown := hr.wellFormed t element (by rw [hk]; exact List.mem_cons_self)
      rw [wrapped?_array hr hk] at h
      cases hs : scalarElement? r element with
      | some q =>
          rw [hs] at h
          dsimp only at h
          split at h
          · have hfault := hr.valid element
            rw [(kind_eq_of_scalarElement? hs).1] at hfault
            rw [← Option.some.inj h]
            exact hfault
          · simp at h
      | none =>
          rw [hs] at h
          exact fault_of_wrapped? hr h
  | void | struct | pointer | texture | sampler =>
      rw [wrapped?, hk] at h
      simp at h
termination_by t.index

end Wrappers

/-! ## Structs -/

section Structs

variable {s : ResolvedStage} {known : Known TypeName} {wrapped : List PrimitiveType}

/-- The structs found in a list of types. -/
theorem mem_filterMap_struct? {r : Registry} {ts : List TypeId} {t : TypeId} {st : StructType}
    (ht : t ∈ ts) (hk : r.kind t = .struct st) : st ∈ ts.filterMap r.struct? := by
  refine List.mem_filterMap.mpr ⟨t, ht, ?_⟩
  rw [Registry.struct?, hk]

/-- The declaration of a struct reads as the struct was laid out, once the structs and wrappers it
needs have been read. -/
theorem natural_struct_of_reads (hr : s.types.Sound) {ts : List TypeId}
    (h : Reads known s.types .struct ts) (hknown : ReadsWrappers wrapped known) {t : TypeId}
    {st : StructType} (hk : s.types.kind t = .struct st)
    (hbefore : ∀ u su, s.types.Contains t u → u ≠ t → s.types.kind u = .struct su → u ∈ ts)
    (hwrapped : st.policy = .std140 → ∀ m ∈ st.members, ∀ p,
      wrapped? s.types m.type = some p → p ∈ wrapped) :
    ∃ d, struct s t = .ok d ∧ d.name = st.name ∧
      d.fields.map (·.name) = st.members.map (·.name) ∧ d.natural known = some st.layout := by
  refine natural_struct hr hk (fun m hm u su hu hsu => ?_) fun hpolicy m hm p hp => ?_
  · have hpart : m.type ∈ (s.types.kind t).parts := by
      rw [hk]
      exact List.mem_map_of_mem hm
    have hne := hr.wellFormed.ne_of_contains_part hpart hu
    exact h u (hbefore u su (Relation.ReflTransGen.head hpart hu) hne hsu) su hsu
  · exact hknown p (hwrapped hpolicy m hm p hp)

/-- The declarations of the structs that some types contain are all there, and can be read in
order; each reads as its struct was laid out. -/
theorem exists_declarations (hr : s.types.Sound) (used : List TypeId) :
    ∃ ds known, declarations s (s.types.structsOf used) = .ok ds ∧
      readStructs Struct.natural [] ds = some known ∧
      ∀ t ∈ s.types.structsOf used, ∀ st, s.types.kind t = .struct st →
        ∃ d, struct s t = .ok d ∧ (TypeName.struct st.name, d) ∈ ds ∧
          d.fields.map (·.name) = st.members.map (·.name) ∧
          d.natural known = some st.layout := by
  have hcollects := Registry.collects_structsOf hr.wellFormed used
  have hordered := hcollects.ordered
  have hstructs : ∀ t ∈ s.types.structsOf used, ∃ st, s.types.kind t = .struct st := by
    intro t ht
    rcases hcollects.only t ht with hnil | ⟨-, hst⟩
    · simp at hnil
    · exact hst
  generalize s.types.structsOf used = ts at hordered hstructs
  have hwrapped : ∀ t ∈ ts, ∀ st, s.types.kind t = .struct st → st.policy = .std140 →
      ∀ m ∈ st.members, ∀ p, wrapped? s.types m.type = some p →
        p ∈ wrappers s.types (ts.filterMap s.types.struct?) := by
    intro t ht st hk hpolicy m hm p hp
    exact mem_wrappers_iff.mpr ⟨st, mem_filterMap_struct? ht hk, hpolicy, m, hm, hp⟩
  have hvalid : ∀ p ∈ wrappers s.types (ts.filterMap s.types.struct?), p.fault = none := by
    intro p hp
    obtain ⟨st, -, -, m, -, hm⟩ := mem_wrappers_iff.mp hp
    exact fault_of_wrapped? hr hm
  -- the wrappers come before the structs and need nothing but themselves
  obtain ⟨known, hpadded, hwrappers⟩ := readStructs_wrappers hvalid
    (show ReadsWrappers [] [] by simp [ReadsWrappers])
  rw [List.nil_append] at hwrappers
  obtain ⟨ds, known', hds, hread, hreads, hwrappers'⟩ :=
    readStructs_ordered Struct.natural TypeName.struct
      (ReadsWrappers (wrappers s.types (ts.filterMap s.types.struct?)))
      (fun t => do
        let d ← struct s t
        return (TypeName.struct d.name, d)) [] hr
      (fun _ _ h => TypeName.struct.inj h)
      (fun known n e h p hp => by rw [extent_cons]; simpa using h p hp)
      (by simpa using hordered) hstructs
      (fun t ht st before known hk hbefore hreads hknown => by
        obtain ⟨d, hd, hname, -, hnatural⟩ :=
          natural_struct_of_reads hr hreads hknown hk hbefore (hwrapped t ht st hk)
        exact ⟨d, by rw [hd, ← hname]; rfl, hnatural⟩)
      (by simp [Reads]) hwrappers
  refine ⟨(wrappers s.types (ts.filterMap s.types.struct?)).map (fun p => (.padded p, wrapper p)) ++
    ds, known', ?_, ?_, ?_⟩
  · unfold declarations
    rw [hds]
    rfl
  · rw [readStructs_append, hpadded]
    exact hread
  · intro t ht st hk
    obtain ⟨d, hd, hname, hnames, hnatural⟩ := natural_struct_of_reads hr hreads hwrappers' hk
      (fun u su hu _ hsu => hordered.mem_of_contains ht hu hsu) (hwrapped t ht st hk)
    refine ⟨d, hd, List.mem_append_right _ ?_, hnames, hnatural⟩
    obtain ⟨entry, hentry, hresult⟩ :=
      exists_result_of_forall₂ (mapM_eq_ok_iff.mp hds) t ht
    rw [hd] at hresult
    rw [← hname, show (TypeName.struct d.name, d) = entry from Except.ok.inj hresult]
    exact hentry

/-- The structs of a source are the declarations of those its types contain. -/
theorem structs_of_module {m : Module} (h : module s = .ok m) :
    ∃ ds, declarations s (s.types.structsOf s.usedTypes) = .ok ds ∧ m.structs = ds.map (·.2) := by
  obtain ⟨structs, hstructs, h⟩ := bind_eq_ok_iff.mp h
  have hpairs : (s.structTypes.mapM fun t => do
      let d ← struct s t
      return (TypeName.struct d.name, d) : Except ShaderError _) =
        .ok (structs.map fun d => (TypeName.struct d.name, d)) := by
    rw [mapM_eq_ok_iff] at hstructs ⊢
    rw [List.forall₂_map_right_iff]
    refine hstructs.imp fun t d hd => ?_
    rw [hd]
    rfl
  have hm : m.structs = (wrappers s.types (s.structTypes.filterMap s.types.struct?)).map wrapper ++
      structs := by
    iterate 7 obtain ⟨_, -, h⟩ := bind_eq_ok_iff.mp h
    rw [← Except.ok.inj h]
  have hds : declarations s (s.types.structsOf s.usedTypes) =
      .ok ((wrappers s.types (s.structTypes.filterMap s.types.struct?)).map
        (fun p => (.padded p, wrapper p)) ++
          structs.map fun d => (TypeName.struct d.name, d)) := by
    rw [declarations, ← ResolvedStage.structTypes_eq, hpairs]
    rfl
  exact ⟨_, hds, hm.trans (by simp [List.map_map, Function.comp_def])⟩

end Structs

end Wgsl

end WebShader
