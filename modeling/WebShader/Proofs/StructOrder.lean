import WebShader.Proofs.Reachable
import WebShader.Resolved

/-!
# The order of struct declarations

A source declares each struct after those it contains.
-/

namespace WebShader

namespace Registry

/-! ## Ordered lists of types -/

/-- Every struct that a type of the list contains comes before it. -/
def Ordered (r : Registry) (ts : List TypeId) : Prop :=
  ∀ pre t post, ts = pre ++ t :: post →
    ∀ u s, r.Contains t u → u ≠ t → r.kind u = .struct s → u ∈ pre

section Ordered

variable {r : Registry} {ts found out : List TypeId}

/-- No types are in order. -/
theorem ordered_nil : r.Ordered [] := by
  intro pre t post h
  simp at h

/-- A type is put after the structs it contains. -/
theorem Ordered.append_singleton (h : r.Ordered ts) {t : TypeId}
    (ht : ∀ u s, r.Contains t u → u ≠ t → r.kind u = .struct s → u ∈ ts) :
    r.Ordered (ts ++ [t]) := by
  intro pre t' post heq u s hu hne hs
  rcases List.eq_nil_or_concat post with rfl | ⟨post', last, rfl⟩
  · obtain ⟨rfl, hlast⟩ := List.append_inj' heq rfl
    obtain rfl := (List.cons.inj hlast).1
    exact ht u s hu hne hs
  · rw [List.concat_eq_append, ← List.cons_append, ← List.append_assoc] at heq
    obtain ⟨hpre, -⟩ := List.append_inj' heq rfl
    exact h pre t' post' hpre u s hu hne hs

/-- The structs that a listed struct contains are listed. -/
theorem Ordered.mem_of_contains (h : r.Ordered ts) {t u : TypeId} (ht : t ∈ ts)
    (hu : r.Contains t u) {s : StructType} (hs : r.kind u = .struct s) : u ∈ ts := by
  obtain ⟨pre, post, rfl⟩ := List.append_of_mem ht
  by_cases hne : u = t
  · rw [hne]
    exact ht
  · exact List.mem_append_left _ (h pre t post rfl u s hu hne hs)

/-! ## Collecting structs -/

/-- A list of structs in order that holds those found before and those that some types contain, and
no others. -/
structure Collects (r : Registry) (found : List TypeId) (ts : List TypeId)
    (out : List TypeId) : Prop where
  ordered : r.Ordered out
  old : ∀ u ∈ found, u ∈ out
  new : ∀ t ∈ ts, ∀ u s, r.Contains t u → r.kind u = .struct s → u ∈ out
  only : ∀ u ∈ out, u ∈ found ∨ (∃ t ∈ ts, r.Contains t u) ∧ ∃ s, r.kind u = .struct s

/-- Structs are collected from one type after the other. -/
theorem collects_foldl {f : List TypeId → TypeId → List TypeId}
    (hf : ∀ t ∈ ts, ∀ found, r.Ordered found → r.Collects found [t] (f found t))
    (hfound : r.Ordered found) : r.Collects found ts (ts.foldl f found) := by
  induction ts generalizing found with
  | nil => exact ⟨hfound, fun u hu => hu, by simp, fun u hu => Or.inl hu⟩
  | cons t rest ih =>
      have hone := hf t List.mem_cons_self found hfound
      have hrest := ih (fun t' ht' => hf t' (List.mem_cons_of_mem _ ht')) hone.ordered
      refine ⟨hrest.ordered, fun u hu => hrest.old u (hone.old u hu), ?_, ?_⟩
      · intro t' ht' u s hu hs
        rcases List.mem_cons.mp ht' with rfl | ht'
        · exact hrest.old u (hone.new t' List.mem_cons_self u s hu hs)
        · exact hrest.new t' ht' u s hu hs
      · intro u hu
        rcases hrest.only u hu with hu | ⟨⟨t', ht', hcontains⟩, hs⟩
        · rcases hone.only u hu with hu | ⟨⟨t', ht', hcontains⟩, hs⟩
          · exact Or.inl hu
          · rw [List.mem_singleton.mp ht'] at hcontains
            exact Or.inr ⟨⟨t, List.mem_cons_self, hcontains⟩, hs⟩
        · exact Or.inr ⟨⟨t', List.mem_cons_of_mem _ ht', hcontains⟩, hs⟩

/-- A type other than itself that a type contains is contained in one of its parts. -/
theorem exists_part_of_contains {t u : TypeId} (h : r.Contains t u) (hne : u ≠ t) :
    ∃ part ∈ (r.kind t).parts, r.Contains part u := by
  rcases Relation.ReflTransGen.cases_head h with rfl | ⟨part, hpart, hrest⟩
  · exact absurd rfl hne
  · exact ⟨part, hpart, hrest⟩

/-- The structs of a type that is none itself are those of its only part. -/
theorem Collects.of_part {t part : TypeId} (h : r.Collects found [part] out)
    (hparts : (r.kind t).parts = [part]) (hnone : ∀ s, r.kind t ≠ .struct s) :
    r.Collects found [t] out := by
  refine ⟨h.ordered, h.old, ?_, ?_⟩
  · intro t' ht' u s hu hs
    rw [List.mem_singleton.mp ht'] at hu
    have hne : u ≠ t := fun heq => hnone s (heq ▸ hs)
    obtain ⟨part', hpart', hrest⟩ := exists_part_of_contains hu hne
    rw [hparts] at hpart'
    exact h.new part' hpart' u s hrest hs
  · intro u hu
    rcases h.only u hu with hu | ⟨⟨part', hpart', hcontains⟩, hs⟩
    · exact Or.inl hu
    · refine Or.inr ⟨⟨t, List.mem_cons_self, ?_⟩, hs⟩
      exact Relation.ReflTransGen.head (by rw [hparts]; exact hpart') hcontains

/-- The structs of a type are put after those found before, each after those it contains. -/
theorem collects_addStructs (hr : r.WellFormed) (t : TypeId) {found : List TypeId}
    (hfound : r.Ordered found) : r.Collects found [t] (r.addStructs found t) := by
  have hparts : ∀ part ∈ (r.kind t).parts, ∀ found, r.Ordered found →
      r.Collects found [part]
        (if part.index < t.index then r.addStructs found part else found) := by
    intro part hpart found hfound
    have hdown := hr t part hpart
    rw [if_pos hdown]
    exact collects_addStructs hr part hfound
  rw [addStructs]
  cases hk : r.kind t with
  | struct s =>
      dsimp only
      -- a struct that has been found before is there with all that it holds
      by_cases hmem : found.contains t = true
      · rw [if_pos hmem]
        have ht : t ∈ found := by simpa using hmem
        refine ⟨hfound, fun u hu => hu, ?_, fun u hu => Or.inl hu⟩
        intro t' ht' u su hu hsu
        rw [List.mem_singleton.mp ht'] at hu
        exact hfound.mem_of_contains ht hu hsu
      · rw [if_neg hmem]
        -- what it holds goes first
        have hfold := collects_foldl
          (fun part (hpart : part ∈ s.members.map (·.type)) found hfound =>
            hparts part (by rw [hk]; exact hpart) found hfound)
          hfound
        refine ⟨hfold.ordered.append_singleton ?_, ?_, ?_, ?_⟩
        · intro u su hu hne hsu
          obtain ⟨part, hpart, hrest⟩ := exists_part_of_contains hu hne
          rw [hk] at hpart
          exact hfold.new part hpart u su hrest hsu
        · exact fun u hu => List.mem_append_left _ (hfold.old u hu)
        · intro t' ht' u su hu hsu
          rw [List.mem_singleton.mp ht'] at hu
          by_cases hne : u = t
          · rw [hne]
            exact List.mem_append_right _ List.mem_cons_self
          · obtain ⟨part, hpart, hrest⟩ := exists_part_of_contains hu hne
            rw [hk] at hpart
            exact List.mem_append_left _ (hfold.new part hpart u su hrest hsu)
        · intro u hu
          rcases List.mem_append.mp hu with hu | hu
          · rcases hfold.only u hu with hu | ⟨⟨part, hpart, hcontains⟩, hs⟩
            · exact Or.inl hu
            · refine Or.inr ⟨⟨t, List.mem_cons_self, ?_⟩, hs⟩
              exact Relation.ReflTransGen.head (by rw [hk]; exact hpart) hcontains
          · rw [List.mem_singleton.mp hu]
            exact Or.inr ⟨⟨t, List.mem_cons_self, Relation.ReflTransGen.refl⟩, s, hk⟩
  | array element n =>
      have hpart := hparts element (by rw [hk]; exact List.mem_cons_self) found hfound
      exact hpart.of_part (by rw [hk]; rfl) (by rw [hk]; simp)
  | pointer pointee space =>
      have hpart := hparts pointee (by rw [hk]; exact List.mem_cons_self) found hfound
      exact hpart.of_part (by rw [hk]; rfl) (by rw [hk]; simp)
  | void | primitive | texture | sampler =>
      refine ⟨hfound, fun u hu => hu, ?_, fun u hu => Or.inl hu⟩
      intro t' ht' u s hu hs
      rw [List.mem_singleton.mp ht'] at hu
      have hne : u ≠ t := fun heq => by rw [heq, hk] at hs; simp at hs
      obtain ⟨part, hpart, -⟩ := exists_part_of_contains hu hne
      rw [hk] at hpart
      simp [TypeKind.parts] at hpart
termination_by t.index

/-- The structs of some types, in the order in which a source declares them. -/
def structsOf (r : Registry) (used : List TypeId) : List TypeId := used.foldl r.addStructs []

/-- The structs of some types are collected in order. -/
theorem collects_structsOf (hr : r.WellFormed) (used : List TypeId) :
    r.Collects [] used (r.structsOf used) :=
  collects_foldl (fun t _ _ hfound => collects_addStructs hr t hfound) ordered_nil

end Ordered

end Registry

/-- The structs a stage declares are those of the types it uses. -/
theorem ResolvedStage.structTypes_eq (s : ResolvedStage) :
    s.structTypes = s.types.structsOf s.usedTypes := rfl

end WebShader
