import WebShader.Program
import WebShader.Proofs.Places
import WebShader.Proofs.NameScopes
import WebShader.Proofs.SpelledTypes
import WebShader.Proofs.StructOrder

/-!
# Declared structs

The structs that a stage declares: each of them once, and with every type that the stage uses all
the structs that it contains.
-/

namespace WebShader

namespace Registry

/-! ## Lists of structs -/

/-- Every struct that the type contains is listed. -/
def Lists (r : Registry) (ts : List TypeId) (t : TypeId) : Prop :=
  ∀ u s, r.Contains t u → r.kind u = .struct s → u ∈ ts

section Lists

variable {r : Registry} {ts found : List TypeId} {t u : TypeId}

/-- A list that has the structs of a type has those of what the type contains. -/
theorem Lists.of_contains (h : r.Lists ts t) (hu : r.Contains t u) : r.Lists ts u :=
  fun v s hv hs => h v s (Relation.ReflTransGen.trans hu hv) hs

/-- A list that has the structs of a type has those of its parts. -/
theorem Lists.part (h : r.Lists ts t) (hu : u ∈ (r.kind t).parts) : r.Lists ts u :=
  h.of_contains (Relation.ReflTransGen.single hu)

/-- A struct whose structs are listed is listed itself. -/
theorem Lists.mem (h : r.Lists ts t) {s : StructType} (hs : r.kind t = .struct s) : t ∈ ts :=
  h t s Relation.ReflTransGen.refl hs

/-- A list that has the structs of an array has those of its elements. -/
theorem Lists.element (h : r.Lists ts t) {element : TypeId} {n : Nat}
    (hk : r.kind t = .array element n) : r.Lists ts element :=
  h.part (by rw [hk]; exact List.mem_cons_self)

/-- A list that has the structs of a pointer has those of what it points to. -/
theorem Lists.pointee (h : r.Lists ts t) {pointee : TypeId} {space : AddressSpace}
    (hk : r.kind t = .pointer pointee space) : r.Lists ts pointee :=
  h.part (by rw [hk]; exact List.mem_cons_self)

/-- A list that has the structs of a struct has those of its members. -/
theorem Lists.member (h : r.Lists ts t) {s : StructType} (hk : r.kind t = .struct s) {m : Member}
    (hm : m ∈ s.members) : r.Lists ts m.type :=
  h.part (by rw [hk]; exact List.mem_map_of_mem hm)

/-- Collecting structs from one type after the other lists each of them once. -/
theorem nodup_foldl {f : List TypeId → TypeId → List TypeId}
    (hf : ∀ t ∈ ts, ∀ found, r.Ordered found → found.Nodup →
      r.Ordered (f found t) ∧ (f found t).Nodup)
    (hfound : r.Ordered found) (hnodup : found.Nodup) : (ts.foldl f found).Nodup := by
  induction ts generalizing found with
  | nil => exact hnodup
  | cons t rest ih =>
      obtain ⟨hordered, hone⟩ := hf t List.mem_cons_self found hfound hnodup
      exact ih (fun t' ht' => hf t' (List.mem_cons_of_mem _ ht')) hordered hone

/-- The structs of a type are not listed again where they have been found before. -/
theorem nodup_addStructs (hr : r.WellFormed) (t : TypeId) {found : List TypeId}
    (hfound : r.Ordered found) (hnodup : found.Nodup) : (r.addStructs found t).Nodup := by
  have hcollects : ∀ part ∈ (r.kind t).parts, ∀ found, r.Ordered found → r.Collects found [part]
      (if part.index < t.index then r.addStructs found part else found) := by
    intro part hpart found hfound
    rw [if_pos (hr t part hpart)]
    exact collects_addStructs hr part hfound
  have hparts : ∀ part ∈ (r.kind t).parts, ∀ found, r.Ordered found → found.Nodup →
      r.Ordered (if part.index < t.index then r.addStructs found part else found) ∧
        (if part.index < t.index then r.addStructs found part else found).Nodup := by
    intro part hpart found hfound hnodup
    have hdown := hr t part hpart
    refine ⟨(hcollects part hpart found hfound).ordered, ?_⟩
    rw [if_pos hdown]
    exact nodup_addStructs hr part hfound hnodup
  rw [addStructs]
  cases hk : r.kind t with
  | struct s =>
      dsimp only
      -- a struct is added once, after its members
      by_cases hmem : found.contains t = true
      · rw [if_pos hmem]
        exact hnodup
      · rw [if_neg hmem]
        have hmembers : ∀ part ∈ s.members.map (·.type), part ∈ (r.kind t).parts := by
          intro part hpart
          rw [hk]
          exact hpart
        have hfold := collects_foldl
          (fun part hpart found hfound => hcollects part (hmembers part hpart) found hfound) hfound
        refine List.nodup_append.mpr ⟨?_, List.nodup_singleton t, ?_⟩
        · exact nodup_foldl (fun part hpart => hparts part (hmembers part hpart)) hfound hnodup
        · -- a struct is not contained in its members
          rintro u hu other hother rfl
          rw [List.mem_singleton.mp hother] at hu
          rcases hfold.only t hu with hold | ⟨⟨part, hpart, hcontains⟩, -⟩
          · exact hmem (by simpa using hold)
          · have hle := hr.contains_index_le hcontains
            have hdown := hr t part (hmembers part hpart)
            omega
  | array element n =>
      exact (hparts element (by rw [hk]; exact List.mem_cons_self) found hfound hnodup).2
  | pointer pointee space =>
      exact (hparts pointee (by rw [hk]; exact List.mem_cons_self) found hfound hnodup).2
  | void | primitive | texture | sampler => exact hnodup
termination_by t.index

/-- No struct is listed twice. -/
theorem nodup_structsOf (hr : r.WellFormed) (used : List TypeId) : (r.structsOf used).Nodup :=
  nodup_foldl (fun t _ _ hfound hnodup =>
    ⟨(collects_addStructs hr t hfound).ordered, nodup_addStructs hr t hfound hnodup⟩)
    ordered_nil List.nodup_nil

end Lists

end Registry

/-! ## Structs of a stage -/

namespace ResolvedStage

/-- The names of the structs that the stage declares, in order. -/
def structNames (s : ResolvedStage) : List String :=
  s.structTypes.filterMap fun t => (s.types.struct? t).map (·.name)

/-- The stage declares every struct that the type contains. -/
def Covers (s : ResolvedStage) (t : TypeId) : Prop := s.types.Lists s.structTypes t

variable {s : ResolvedStage} {t : TypeId} {st : StructType}

/-- A stage declares the structs of the types that it uses. -/
theorem covers_of_usedTypes (hr : s.types.WellFormed) (ht : t ∈ s.usedTypes) : s.Covers t :=
  (s.types.collects_structsOf hr s.usedTypes).new t ht

/-- A struct that is covered is declared under its name. -/
theorem Covers.name_mem (h : s.Covers t) (hs : s.types.kind t = .struct st) :
    st.name ∈ s.structNames :=
  List.mem_filterMap.mpr ⟨t, h.mem hs, by rw [Registry.struct?, hs]; rfl⟩

/-- A struct of the stage is a registered one. -/
theorem struct_eq_ok_iff : s.struct t = .ok st ↔ s.types.kind t = .struct st := by
  unfold ResolvedStage.struct Registry.struct?
  cases s.types.kind t <;> simp

/-- The source of a stage has its text and tells the names of its structs. -/
theorem source_eq_ok {src : StageSource} (h : s.source = .ok src) :
    s.text = .ok src.text ∧ src.structs = s.structNames := by
  simp only [source, bind_eq_ok_iff] at h
  obtain ⟨text, htext, h⟩ := h
  rw [← Except.ok.inj h]
  exact ⟨htext, rfl⟩

/-- Every declared struct is one, and the stage declares the structs that it contains. -/
theorem covers_of_mem (hr : s.types.WellFormed) (ht : t ∈ s.structTypes) : s.Covers t :=
  fun _ _ hu hs => (s.types.collects_structsOf hr s.usedTypes).ordered.mem_of_contains ht hu hs

/-- No struct of a stage is listed twice. -/
theorem nodup_structTypes (hr : s.types.WellFormed) : s.structTypes.Nodup :=
  Registry.nodup_structsOf hr s.usedTypes

/-- No two structs that the stage declares have the same name. -/
theorem nodup_structNames (hr : s.types.Sound) : s.structNames.Nodup := by
  -- two registered structs of one name are the same type
  refine (nodup_structTypes hr.wellFormed).filterMap fun t u name ht hu => ?_
  obtain ⟨st, hst, hname⟩ := Option.map_eq_some_iff.mp ht
  obtain ⟨su, hsu, hname'⟩ := Option.map_eq_some_iff.mp hu
  exact hr.name_inj t u st su (Registry.struct?_eq_some_iff.mp hst)
    (Registry.struct?_eq_some_iff.mp hsu) (hname.trans hname'.symm)

/-! ## Stages that keep to themselves -/

/-- A variable that was declared while the stage was authored. -/
def Owns (s : ResolvedStage) (v : VarId) : Prop :=
  ∃ d, s.vars[v.index]? = some d ∧ d.stage = s.stage

/-- A stage that only involves variables of its own: its declarations, its statements and the
records that it sees are about them, and it assigns to places. -/
structure IsClosed (s : ResolvedStage) : Prop where
  sound : s.types.Sound
  globals : ∀ v ∈ s.decls.globals, s.Owns v
  constants : ∀ c ∈ s.constants, ∃ v, s.vars[v.index]? = some c.1 ∧ s.Owns v
  params : ∀ f ∈ s.functions, ∀ v ∈ f.1.params, s.Owns v
  bodies : ∀ f ∈ s.functions, Stmt.BlockMeets s.Owns (·.IsPlace s.types s.vars) f.2
  main : Stmt.BlockMeets s.Owns (·.IsPlace s.types s.vars) s.main
  buffers : ∀ b ∈ s.records, ∀ t readOnly, b.content = .storageBuffer t readOnly →
    t ∈ s.variableTypes
  blocks : ∀ b ∈ s.records, ∀ t st, b.content = .uniformBlock t → s.types.kind t = .struct st →
    ∀ m ∈ st.members, m.type ∈ s.variableTypes

/-- The type of a variable of the stage is one of the types of its variables. -/
theorem mem_variableTypes {v : VarId} {d : Variable} (hd : s.vars[v.index]? = some d)
    (hstage : d.stage = s.stage) : d.type ∈ s.variableTypes := by
  refine List.mem_map_of_mem (List.mem_filter.mpr ⟨?_, by simp [hstage]⟩)
  obtain ⟨hlt, rfl⟩ := Array.getElem?_eq_some_iff.mp hd
  exact Array.getElem_mem_toList hlt

namespace IsClosed

/-- The types of the variables are covered. -/
theorem covers_variable (h : s.IsClosed) (ht : t ∈ s.variableTypes) : s.Covers t := by
  refine covers_of_usedTypes h.sound.wellFormed ?_
  simp only [usedTypes, List.mem_append]
  tauto

/-- The type of a variable that the stage owns is covered. -/
theorem covers_var (h : s.IsClosed) {v : VarId} {d : Variable} (hv : s.Owns v)
    (hd : s.var v = .ok d) : s.Covers d.type := by
  obtain ⟨d', hd', hstage⟩ := hv
  obtain rfl := Option.some.inj (hd'.symm.trans (var_eq_ok_iff.mp hd))
  exact h.covers_variable (mem_variableTypes hd' hstage)

/-- The types of a constant and of its initializer are covered. -/
theorem covers_constant (h : s.IsClosed) {c : Variable × Term} (hc : c ∈ s.constants) :
    s.Covers c.1.type ∧ ∀ t ∈ c.2.types, s.Covers t := by
  constructor
  · obtain ⟨v, hv, howns⟩ := h.constants c hc
    exact h.covers_var howns (var_eq_ok_iff.mpr hv)
  · intro t ht
    refine covers_of_usedTypes h.sound.wellFormed ?_
    have hmem : t ∈ s.constants.flatMap fun c => c.2.types := List.mem_flatMap.mpr ⟨c, hc, ht⟩
    simp only [usedTypes, List.mem_append]
    tauto

/-- The types of a function are covered. -/
theorem covers_function (h : s.IsClosed) {f : Function × List (Stmt Term)} (hf : f ∈ s.functions) :
    s.Covers f.1.result ∧ ∀ t ∈ Stmt.blockTypes f.2, s.Covers t := by
  constructor
  · refine covers_of_usedTypes h.sound.wellFormed ?_
    have hmem : f.1.result ∈ s.functions.map (·.1.result) := List.mem_map_of_mem hf
    simp only [usedTypes, List.mem_append]
    tauto
  · intro t ht
    refine covers_of_usedTypes h.sound.wellFormed ?_
    have hmem : t ∈ s.functions.flatMap fun f => Stmt.blockTypes f.2 :=
      List.mem_flatMap.mpr ⟨f, hf, ht⟩
    simp only [usedTypes, List.mem_append]
    tauto

/-- The types of the main function are covered. -/
theorem covers_main (h : s.IsClosed) : ∀ t ∈ Stmt.blockTypes s.main, s.Covers t := by
  intro t ht
  refine covers_of_usedTypes h.sound.wellFormed ?_
  simp only [usedTypes, List.mem_append]
  tauto

/-- Blocks are declared as structs, save where GLSL ES 3.00 declares their members in place. -/
theorem covers_block (h : s.IsClosed) (htarget : s.target ≠ .webGL2) {b : Binding.Record}
    (hb : b ∈ s.records) (hblock : b.content = .uniformBlock t) : s.Covers t := by
  refine covers_of_usedTypes h.sound.wellFormed ?_
  have hmem : t ∈ s.blockTypes := by
    rw [blockTypes, if_neg htarget]
    exact List.mem_filterMap.mpr ⟨b, hb, by rw [hblock]; rfl⟩
  simp only [usedTypes, List.mem_append]
  tauto

end IsClosed

end ResolvedStage

end WebShader
