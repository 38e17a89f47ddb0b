import Mathlib.Order.MinMax
import WebShader.Binding.Layout
import WebShader.Proofs.BindingOrder

/-!
# Layouts of groups

A program is given one layout for each group, from the first to the last one in use, and each record
is an entry of the layout of its group. The number of groups is a word like the numbers of groups:
with a record in the very last group there are no layouts.
-/

namespace WebShader

namespace Binding

/-- The entry describes the record. -/
structure Record.IsEntry (b : Record) (e : Entry) : Prop where
  index : e.index = b.index
  name : e.name = b.name
  visibility : e.visibility = b.visibility

/-- One layout for each group up to the last one in use. A layout has an entry for each record of
its group, and their indices ascend. -/
structure Plan.Covers (p : Plan) (layouts : List GroupLayout) : Prop where
  count : ∀ n, n < layouts.length ↔ ∃ b ∈ p.records, n ≤ b.group.toNat
  groups : List.Forall₂ (fun n g => g.group = n ∧
    List.Forall₂ Record.IsEntry (p.records.filter (·.group.toNat == n)) g.entries)
      (List.range layouts.length) layouts
  ascending : ∀ g ∈ layouts, (g.entries.map (·.index)).Pairwise (· < ·)

/-! ## Groups in use -/

/-- What is below the largest of some numbers is below one of them. -/
theorem lt_foldl_max_iff {n a : Nat} {l : List Nat} :
    n < l.foldl max a ↔ n < a ∨ ∃ x ∈ l, n < x := by
  induction l generalizing a with
  | nil => simp
  | cons x rest ih =>
      rw [List.foldl_cons, ih, lt_max_iff, or_assoc]
      simp

namespace Plan

variable {p : Plan} {r : Registry} {label : String}

/-- Groups are counted up to the last one in use. -/
theorem lt_iff_of_groupCount {n count : Nat} (h : p.groupCount = .ok count) :
    n < count ↔ ∃ b ∈ p.records, n ≤ b.group.toNat := by
  unfold groupCount at h
  split at h
  · cases h
  · rw [← Except.ok.inj h, lt_foldl_max_iff]
    simp only [Nat.not_lt_zero, false_or, List.mem_map, exists_exists_and_eq_and, Nat.lt_succ_iff]

/-- The groups can be counted unless there is a record in the very last one. -/
theorem exists_groupCount_iff :
    (∃ count, p.groupCount = .ok count) ↔ ∀ b ∈ p.records, b.group.toNat + 1 < 4294967296 := by
  unfold groupCount
  split_ifs with hlast
  · obtain ⟨b, hb, hgroup⟩ := List.any_eq_true.mp hlast
    refine iff_of_false (fun ⟨_, h⟩ => by cases h) fun h => ?_
    exact absurd (h b hb) (Nat.not_lt.mpr (of_decide_eq_true hgroup))
  · refine iff_of_true ⟨_, rfl⟩ fun b hb => Nat.lt_of_not_le fun hgroup => hlast ?_
    exact List.any_eq_true.mpr ⟨b, hb, decide_eq_true hgroup⟩

/-! ## Entries -/

/-- The layout of a group has an entry for each of its records, in order. -/
theorem groupLayout_eq_ok {n : Nat} {g : GroupLayout} (h : p.groupLayout r label n = .ok g) :
    g.group = n ∧
      List.Forall₂ Record.IsEntry (p.records.filter (·.group.toNat == n)) g.entries := by
  obtain ⟨entries, hentries, h⟩ := bind_eq_ok_iff.mp h
  obtain rfl := Except.ok.inj h
  refine ⟨rfl, (mapM_eq_ok_iff.mp hentries).imp fun b e he => ?_⟩
  obtain ⟨layout, -, he⟩ := bind_eq_ok_iff.mp he
  obtain rfl := Except.ok.inj he
  exact ⟨rfl, rfl, rfl⟩

/-- Each group has its layout, with an entry for each of its records. -/
theorem forall₂_of_layouts {gs : List GroupLayout} (h : p.layouts r label = .ok gs) :
    p.groupCount = .ok gs.length ∧
      List.Forall₂ (fun n g => g.group = n ∧
        List.Forall₂ Record.IsEntry (p.records.filter (·.group.toNat == n)) g.entries)
          (List.range gs.length) gs := by
  obtain ⟨count, hcount, h⟩ := bind_eq_ok_iff.mp h
  have hgroups := (mapM_eq_ok_iff.mp h).imp fun _ _ => groupLayout_eq_ok
  have hlength : gs.length = count := by rw [← hgroups.length_eq, List.length_range]
  rw [hlength]
  exact ⟨hcount, hgroups⟩

end Plan

/-- Records that are numbered without a gap have entries with ascending indices. -/
theorem pairwise_index_of_entries {bs : List Record} {entries : List Entry} {n : Nat}
    (h : List.Forall₂ Record.IsEntry bs entries) (hdense : bs.map (·.index) = List.range n) :
    (entries.map (·.index)).Pairwise (· < ·) := by
  rw [map_eq_map_of_forall₂ h.flip fun _ _ he => he.index, hdense]
  exact List.pairwise_lt_range

/-- The layouts of a program, if there are any, cover its records. -/
theorem plan_covers {target : Target} {vars : Array Variable} {stages : List BuiltStage}
    {r r' r'' : Registry} {p : Plan} {label : String} {gs : List GroupLayout}
    (h : r.run (plan target vars stages) = (.ok p, r')) (hgs : p.layouts r'' label = .ok gs) :
    p.Covers gs := by
  obtain ⟨hcount, hgroups⟩ := Plan.forall₂_of_layouts hgs
  refine ⟨fun n => Plan.lt_iff_of_groupCount hcount, hgroups, fun g hg => ?_⟩
  obtain ⟨n, hn, -, hentries⟩ := exists_mem_of_forall₂ hgroups g hg
  obtain ⟨all, -, hbind⟩ := plan_eq_ok h
  have hdense := (built_bindAll Built.nil hbind).dense (UInt32.ofNat n)
  -- the plan has groups of 32 bits and the layouts any number, so the two filters are compared
  -- first
  have hword : n < 4294967296 := by
    obtain ⟨b, -, hb⟩ := (Plan.lt_iff_of_groupCount hcount).mp (List.mem_range.mp hn)
    exact Nat.lt_of_le_of_lt hb b.group.toNat_lt
  have hsame : p.records.filter (·.group == UInt32.ofNat n) =
      p.records.filter (·.group.toNat == n) := by
    refine List.filter_congr fun b _ => ?_
    rw [Bool.eq_iff_iff, beq_iff_eq, beq_iff_eq, ← UInt32.toNat_inj,
      UInt32.toNat_ofNat_of_lt' hword]
  rw [hsame] at hdense
  exact pairwise_index_of_entries hentries hdense

/-! ## A gap -/

/-- A texture in the first group, and a number in the third. -/
def gapVars : Array Variable :=
  #[⟨"albedo", ⟨1⟩, .texture 0, .fragment, none⟩, ⟨"time", ⟨0⟩, .uniform 2, .fragment, none⟩]

/-- The stage of the gap. -/
def gapStages : List BuiltStage := [⟨{ stage := .fragment, resources := [⟨0⟩, ⟨1⟩] }, []⟩]

/-- The names and the indices of the entries of each group, if there are layouts. -/
def gapEntries : Option (List (Nat × List (String × Nat))) :=
  match sceneTypes.run (plan .webGPU gapVars gapStages) with
  | (.ok p, r) => (p.layouts r "gap").toOption.map fun gs =>
      gs.map fun g => (g.group, g.entries.map fun e => (e.name, e.index))
  | (.error _, _) => none

/-- The entries of the groups around the gap. -/
theorem gapEntries_eq : gapEntries =
    some [(0, [("albedo", 0), ("albedo_sampler", 1)]), (1, []), (2, [("ublock_fs_2", 0)])] := by
  decide +kernel

/-- The group that is not used has a layout without entries. -/
theorem gap_covers : ∃ p r' gs, sceneTypes.run (plan .webGPU gapVars gapStages) = (.ok p, r') ∧
    p.layouts r' "gap" = .ok gs ∧
    gs.map (fun g => (g.group, g.entries.map fun e => (e.name, e.index))) =
      [(0, [("albedo", 0), ("albedo_sampler", 1)]), (1, []), (2, [("ublock_fs_2", 0)])] ∧
    p.Covers gs := by
  have hentries := gapEntries_eq
  unfold gapEntries at hentries
  rcases hrun : sceneTypes.run (plan .webGPU gapVars gapStages) with ⟨_ | p, r'⟩
  · rw [hrun] at hentries
    cases hentries
  · rw [hrun] at hentries
    dsimp only at hentries
    cases hgs : p.layouts r' "gap" with
    | error e =>
        rw [hgs] at hentries
        cases hentries
    | ok gs =>
        rw [hgs] at hentries
        exact ⟨p, r', gs, rfl, hgs, Option.some.inj hentries, plan_covers hrun hgs⟩

end Binding

end WebShader
