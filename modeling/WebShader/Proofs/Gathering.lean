import Mathlib.Data.List.Nodup
import WebShader.Binding.Plan
import WebShader.Proofs.ListTraversal

/-!
# Gathered resources

Gathering the declarations of the stages makes one resource of each name, in the order of first
declarations. A resource knows all its declarations and the stages that make them.
-/

namespace WebShader

namespace Binding

/-- The declarations of the resources of a program, with their variables. -/
abbrev Declarations := List (VarId × Variable)

/-- The stages of a set are those that declare a name. -/
def SeenFrom (ds : Declarations) (name : String) (visibility : Visibility) : Prop :=
  ∀ stage, visibility.has stage = true ↔ ∃ x ∈ ds, x.2.name = name ∧ x.2.stage = stage

/-- The resources gathered from a list of declarations. -/
structure Gathers (ds : Declarations) (all : List Shared) : Prop where
  names : all.map (·.name) = (ds.map (·.2.name)).eraseDups
  nodup : (all.map (·.name)).Nodup
  vars : ∀ s ∈ all, s.vars = (ds.filter fun x => x.2.name == s.name).map (·.1)
  agree : ∀ s ∈ all, ∀ x ∈ ds, x.2.name = s.name → x.2.type = s.type ∧ x.2.role = s.role
  seen : ∀ s ∈ all, SeenFrom ds s.name s.visibility

section Steps

variable {r : Registry} {v : VarId} {d : Variable} {all all' : List Shared}

/-- A declaration either is the first of its name or joins those of its name. -/
theorem gather_eq_ok (h : gather r v d all = .ok all') :
    (d.name ∉ all.map (·.name) ∧
      all' = all ++ [⟨d.name, d.type, d.role, .ofStage d.stage, [v]⟩]) ∨
    ∃ before s after, all = before ++ s :: after ∧ d.name ∉ before.map (·.name) ∧
      s.name = d.name ∧ s.type = d.type ∧ s.role = d.role ∧
      all' = before ++ { s with
        visibility := s.visibility.union (.ofStage d.stage), vars := s.vars ++ [v] } :: after := by
  induction all generalizing all' with
  | nil => exact Or.inl ⟨by simp, (Except.ok.inj h).symm⟩
  | cons s rest ih =>
      rw [gather] at h
      by_cases hname : s.name = d.name
      · rw [if_neg (not_not.mpr hname)] at h
        split_ifs at h with hagree
        have hsame : s.type = d.type ∧ s.role = d.role := by simpa using hagree
        refine Or.inr ⟨[], s, rest, rfl, by simp, hname, hsame.1, hsame.2, ?_⟩
        exact (Except.ok.inj h).symm
      · rw [if_pos hname] at h
        have hne : d.name ≠ s.name := fun heq => hname heq.symm
        cases hrest : gather r v d rest with
        | error e =>
            rw [hrest] at h
            cases h
        | ok rest' =>
            rw [hrest] at h
            obtain rfl := (Except.ok.inj h).symm
            rcases ih hrest with ⟨hnew, rfl⟩ | ⟨before, t, after, rfl, hbefore, hshared⟩
            · left
              exact ⟨by simpa [hne] using hnew, rfl⟩
            · right
              obtain ⟨htname, htype, hrole, rfl⟩ := hshared
              exact ⟨s :: before, t, after, rfl, by simpa [hne] using hbefore, htname, htype,
                hrole, rfl⟩

variable {ds : Declarations}

/-- The stages that declare a name, with one more declaration. -/
theorem SeenFrom.append {name : String} {visibility : Visibility}
    (h : SeenFrom ds name visibility) (v : VarId) (d : Variable) :
    SeenFrom (ds ++ [(v, d)]) name
      (if d.name = name then visibility.union (.ofStage d.stage) else visibility) := by
  intro stage
  have hold := h stage
  by_cases hname : d.name = name
  · rw [if_pos hname, Visibility.has_union, Visibility.has_ofStage, Bool.or_eq_true, hold]
    constructor
    · rintro (⟨x, hx, hxname⟩ | hstage)
      · exact ⟨x, List.mem_append_left _ hx, hxname⟩
      · exact ⟨(v, d), by simp, hname, by simpa using hstage⟩
    · rintro ⟨x, hx, hxname, hxstage⟩
      rcases List.mem_append.mp hx with hx | hx
      · exact Or.inl ⟨x, hx, hxname, hxstage⟩
      · right
        rw [List.mem_singleton.mp hx] at hxstage
        simpa using hxstage
  · rw [if_neg hname, hold]
    constructor
    · rintro ⟨x, hx, hxname⟩
      exact ⟨x, List.mem_append_left _ hx, hxname⟩
    · rintro ⟨x, hx, hxname, hxstage⟩
      rcases List.mem_append.mp hx with hx | hx
      · exact ⟨x, hx, hxname, hxstage⟩
      · rw [List.mem_singleton.mp hx] at hxname
        exact absurd hxname hname

/-- What is known of a resource that the new declaration is not about. -/
theorem Gathers.keep (h : Gathers ds all) {s : Shared} (hs : s ∈ all) (hname : s.name ≠ d.name) :
    s.vars = ((ds ++ [(v, d)]).filter fun x => x.2.name == s.name).map (·.1) ∧
      (∀ x ∈ ds ++ [(v, d)], x.2.name = s.name → x.2.type = s.type ∧ x.2.role = s.role) ∧
      SeenFrom (ds ++ [(v, d)]) s.name s.visibility := by
  have hne : ¬d.name = s.name := fun heq => hname heq.symm
  refine ⟨?_, ?_, ?_⟩
  · rw [h.vars s hs]
    simp [List.filter_append, hne]
  · intro x hx hxname
    rcases List.mem_append.mp hx with hx | hx
    · exact h.agree s hs x hx hxname
    · rw [List.mem_singleton.mp hx] at hxname
      exact absurd hxname hne
  · have hseen := (h.seen s hs).append v d
    rwa [if_neg hne] at hseen

/-- One more declaration is gathered with the others. -/
theorem Gathers.gather (h : Gathers ds all) (hgather : gather r v d all = .ok all') :
    Gathers (ds ++ [(v, d)]) all' := by
  have hmem : ∀ name, name ∈ all.map (·.name) ↔ ∃ x ∈ ds, x.2.name = name := by
    intro name
    rw [h.names, List.mem_eraseDups, List.mem_map]
  rcases gather_eq_ok hgather with ⟨hnew, rfl⟩ | hjoin
  · have hfresh : ∀ x ∈ ds, x.2.name ≠ d.name := by
      intro x hx heq
      exact hnew ((hmem d.name).mpr ⟨x, hx, heq⟩)
    have hnotin : d.name ∉ ds.map (·.2.name) := by
      intro hin
      obtain ⟨x, hx, hxname⟩ := List.mem_map.mp hin
      exact hfresh x hx hxname
    have hold : ∀ s ∈ all, s.name ≠ d.name := by
      intro s hs heq
      exact hnew (heq ▸ List.mem_map_of_mem hs)
    constructor
    · rw [List.map_append, List.map_append, h.names]
      exact (eraseDups_concat_of_not_mem hnotin).symm
    · rw [List.map_append]
      refine List.nodup_append.mpr ⟨h.nodup, by simp, ?_⟩
      rintro name hname other hother rfl
      rw [List.mem_singleton.mp hother] at hname
      exact hnew hname
    · intro s hs
      rcases List.mem_append.mp hs with hs | hs
      · exact (h.keep hs (hold s hs)).1
      · rw [List.mem_singleton.mp hs, List.filter_append,
          List.filter_eq_nil_iff.mpr (by simpa using hfresh)]
        simp
    · intro s hs
      rcases List.mem_append.mp hs with hs | hs
      · exact (h.keep hs (hold s hs)).2.1
      · rw [List.mem_singleton.mp hs]
        intro x hx hxname
        rcases List.mem_append.mp hx with hx | hx
        · exact absurd hxname (hfresh x hx)
        · rw [List.mem_singleton.mp hx]
          exact ⟨rfl, rfl⟩
    · intro s hs
      rcases List.mem_append.mp hs with hs | hs
      · exact (h.keep hs (hold s hs)).2.2
      · rw [List.mem_singleton.mp hs]
        intro stage
        show (Visibility.ofStage d.stage).has stage = true ↔ _
        rw [Visibility.has_ofStage, beq_iff_eq]
        constructor
        · intro hstage
          exact ⟨(v, d), by simp, rfl, hstage⟩
        · rintro ⟨x, hx, hxname, hxstage⟩
          rcases List.mem_append.mp hx with hx | hx
          · exact absurd hxname (hfresh x hx)
          · rwa [List.mem_singleton.mp hx] at hxstage
  · obtain ⟨before, s, after, rfl, hbefore, hname, htype, hrole, rfl⟩ := hjoin
    have hs : s ∈ before ++ s :: after := by simp
    -- the resources around `s` have other names
    have hother : ∀ t ∈ before ++ after, t.name ≠ d.name := by
      have hnodup := h.nodup
      rw [List.map_append, List.map_cons, List.nodup_middle, ← List.map_append, hname] at hnodup
      intro t ht heq
      exact (List.nodup_cons.mp hnodup).1 (heq ▸ List.mem_map_of_mem ht)
    have hcases : ∀ t ∈ before ++ { s with
        visibility := s.visibility.union (.ofStage d.stage), vars := s.vars ++ [v] } :: after,
        t = { s with visibility := s.visibility.union (.ofStage d.stage),
                     vars := s.vars ++ [v] } ∨
          (t ∈ before ++ s :: after ∧ t.name ≠ d.name) := by
      intro t ht
      rcases List.mem_append.mp ht with ht | ht
      · exact Or.inr ⟨List.mem_append_left _ ht, hother t (List.mem_append_left _ ht)⟩
      · rcases List.mem_cons.mp ht with ht | ht
        · exact Or.inl ht
        · exact Or.inr ⟨by simp [ht], hother t (List.mem_append_right _ ht)⟩
    have hdeclared : d.name ∈ ds.map (·.2.name) := by
      obtain ⟨x, hx, hxname⟩ := (hmem d.name).mp (hname ▸ List.mem_map_of_mem hs)
      exact hxname ▸ List.mem_map_of_mem (f := fun x : VarId × Variable => x.2.name) hx
    constructor
    · have hnames := h.names
      rw [List.map_append, List.map_cons] at hnames ⊢
      rw [hnames, List.map_append]
      exact (eraseDups_concat_of_mem hdeclared).symm
    · have hnodup := h.nodup
      rw [List.map_append, List.map_cons] at hnodup ⊢
      exact hnodup
    · intro t ht
      rcases hcases t ht with rfl | ⟨hold, hne⟩
      · show s.vars ++ [v] = _
        rw [h.vars s hs]
        simp [List.filter_append, hname]
      · exact (h.keep hold hne).1
    · intro t ht
      rcases hcases t ht with rfl | ⟨hold, hne⟩
      · intro x hx hxname
        rcases List.mem_append.mp hx with hx | hx
        · exact h.agree s hs x hx hxname
        · rw [List.mem_singleton.mp hx]
          exact ⟨htype.symm, hrole.symm⟩
      · exact (h.keep hold hne).2.1
    · intro t ht
      rcases hcases t ht with rfl | ⟨hold, hne⟩
      · have hseen := (h.seen s hs).append v d
        rwa [if_pos hname.symm] at hseen
      · exact (h.keep hold hne).2.2

end Steps

/-- What is gathered from declarations, some of which have been gathered already. -/
theorem Gathers.gatherAll {r : Registry} {ds : Declarations} {all : List Shared}
    (h : Gathers ds all) {rest : Declarations} {all' : List Shared}
    (hgather : gatherAll r rest all = .ok all') : Gathers (ds ++ rest) all' := by
  induction rest generalizing ds all with
  | nil =>
      rw [List.append_nil, ← Except.ok.inj hgather]
      exact h
  | cons x rest ih =>
      obtain ⟨v, d⟩ := x
      rw [Binding.gatherAll] at hgather
      obtain ⟨found, hfound, hrest⟩ := bind_eq_ok_iff.mp hgather
      rw [List.append_cons]
      exact ih (h.gather hfound) hrest

/-- The resources of a program are those of its declarations. -/
theorem gathers_gatherAll {r : Registry} {ds : Declarations} {all : List Shared}
    (h : gatherAll r ds [] = .ok all) : Gathers ds all := by
  have hnil : Gathers [] [] := ⟨rfl, List.nodup_nil, by simp, by simp, by simp⟩
  exact hnil.gatherAll h

/-! ## Declarations of a resource -/

section Declared

variable {ds : Declarations} {all : List Shared} {s s' : Shared} {v : VarId}

/-- The declarations of a resource are those with its name. -/
theorem Gathers.mem_vars_iff (h : Gathers ds all) (hs : s ∈ all) :
    v ∈ s.vars ↔ ∃ d, (v, d) ∈ ds ∧ d.name = s.name := by
  rw [h.vars s hs]
  simp

/-- Every declaration is gathered. -/
theorem Gathers.exists_shared (h : Gathers ds all) {d : Variable} (hd : (v, d) ∈ ds) :
    ∃ s ∈ all, s.name = d.name := by
  have hname : d.name ∈ all.map (·.name) := by
    rw [h.names, List.mem_eraseDups]
    exact List.mem_map_of_mem (f := fun x : VarId × Variable => x.2.name) hd
  exact List.mem_map.mp hname

/-- A resource has a declaration. -/
theorem Gathers.exists_declaration (h : Gathers ds all) (hs : s ∈ all) :
    ∃ x ∈ ds, x.2.name = s.name := by
  have hname : s.name ∈ (ds.map (·.2.name)).eraseDups := by
    rw [← h.names]
    exact List.mem_map_of_mem hs
  exact List.mem_map.mp (List.mem_eraseDups.mp hname)

/-- A declaration is a variable that does not belong to a workgroup, seen from some stage. -/
theorem exists_var_of_mem_declarations {vars : Array Variable} {stages : List BuiltStage}
    {d : Variable} (h : (v, d) ∈ declarations vars stages) :
    ∃ found stage, vars[v.index]? = some found ∧ found.role ≠ .workgroup ∧
      d = { found with stage } := by
  obtain ⟨s, -, h⟩ := List.mem_flatMap.mp h
  obtain ⟨w, -, h⟩ := List.mem_filterMap.mp h
  split at h
  · rename_i found hfound
    split_ifs at h with hrole
    obtain ⟨rfl, rfl⟩ := Prod.mk.inj (Option.some.inj h)
    exact ⟨found, s.decls.stage, hfound, hrole, rfl⟩
  · cases h

/-- A declaration is the one of a variable that does not belong to a workgroup. -/
theorem mem_declarations {vars : Array Variable} {stages : List BuiltStage} {d : Variable}
    (h : (v, d) ∈ declarations vars stages) :
    ∃ found, vars[v.index]? = some found ∧ found.role ≠ .workgroup ∧ d.name = found.name := by
  obtain ⟨found, stage, hfound, hrole, rfl⟩ := exists_var_of_mem_declarations h
  exact ⟨found, hfound, hrole, rfl⟩

/-- A variable has one name, whichever stage declares it. -/
theorem name_eq_of_mem_declarations {vars : Array Variable} {stages : List BuiltStage}
    {d d' : Variable} (h : (v, d) ∈ declarations vars stages)
    (h' : (v, d') ∈ declarations vars stages) : d.name = d'.name := by
  obtain ⟨found, hfound, -, hd⟩ := mem_declarations h
  obtain ⟨found', hfound', -, hd'⟩ := mem_declarations h'
  rw [hfound] at hfound'
  rw [hd, hd', Option.some.inj hfound']

/-- No variable is declared as two resources. -/
theorem Gathers.eq_of_mem_vars {vars : Array Variable} {stages : List BuiltStage}
    (h : Gathers (declarations vars stages) all) (hs : s ∈ all) (hs' : s' ∈ all)
    (hv : v ∈ s.vars) (hv' : v ∈ s'.vars) : s = s' := by
  obtain ⟨d, hd, hname⟩ := (h.mem_vars_iff hs).mp hv
  obtain ⟨d', hd', hname'⟩ := (h.mem_vars_iff hs').mp hv'
  have heq := name_eq_of_mem_declarations hd hd'
  exact List.inj_on_of_nodup_map h.nodup hs hs' (by rw [← hname, heq, hname'])

end Declared

end Binding

end WebShader
