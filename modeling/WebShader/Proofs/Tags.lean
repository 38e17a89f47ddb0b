import WebShader.Proofs.Operations

/-!
# Tags along a stage

What the tags of a stage are after any sequence of tag calls, refused ones among them. A path stands
for the expression of the last call that named it. It keeps its place among the paths, though, from
the first call that named it, and so the paths of an expression are in the order in which they were
first used, for that expression or another.
-/

namespace WebShader

/-! ## Tags -/

/-- The expression of a path among tags. -/
def tagAt (tags : List (String × Expr)) (path : String) : Option Expr :=
  (tags.find? (·.1 == path)).map (·.2)

/-- The paths among tags, in order. -/
def tagPaths (tags : List (String × Expr)) : List String := tags.map (·.1)

/-- A path has a tag if it is one of the paths. -/
theorem any_tags_iff {tags : List (String × Expr)} {path : String} :
    tags.any (·.1 == path) = true ↔ path ∈ tagPaths tags := by
  simp [tagPaths]

/-- A path that is in use keeps its place, and a new one goes to the end. -/
theorem tagPaths_putTag (tags : List (String × Expr)) (path : String) (e : Expr) :
    tagPaths (putTag tags path e) =
      if path ∈ tagPaths tags then tagPaths tags else tagPaths tags ++ [path] := by
  unfold putTag
  by_cases hmem : path ∈ tagPaths tags
  · rw [if_pos (any_tags_iff.mpr hmem), if_pos hmem, tagPaths, tagPaths, List.map_map]
    refine List.map_congr_left fun t _ => ?_
    by_cases ht : t.1 = path <;> simp [ht]
  · rw [if_neg (mt any_tags_iff.mp hmem), if_neg hmem, tagPaths, List.map_append]
    rfl

/-- A tag moves its own path, and no other. -/
theorem tagAt_putTag (tags : List (String × Expr)) (path : String) (e : Expr) (p : String) :
    tagAt (putTag tags path e) p = if path = p then some e else tagAt tags p := by
  unfold putTag tagAt
  by_cases hmem : path ∈ tagPaths tags
  · -- the tags move where they stand, so they are found where they were
    have hkey : ((·.1 == p) ∘ fun t : String × Expr => if t.1 == path then (path, e) else t) =
        (·.1 == p) := by
      funext t
      by_cases ht : t.1 = path <;> simp [ht]
    rw [if_pos (any_tags_iff.mpr hmem), List.find?_map, hkey]
    cases hfind : tags.find? (·.1 == p) with
    | none =>
        have hne : path ≠ p := by
          rintro rfl
          obtain ⟨t, ht, htpath⟩ := List.mem_map.mp hmem
          exact List.find?_eq_none.mp hfind t ht (beq_iff_eq.mpr htpath)
        rw [if_neg hne]
        rfl
    | some t =>
        obtain rfl : t.1 = p := by simpa using List.find?_some hfind
        by_cases ht : path = t.1
        · simp [ht]
        · simp [ht, Ne.symm ht]
  · rw [if_neg (mt any_tags_iff.mp hmem), List.find?_append]
    by_cases hp : path = p
    · subst hp
      have hnone : tags.find? (·.1 == path) = none :=
        List.find?_eq_none.mpr fun t ht htpath =>
          hmem (List.mem_map.mpr ⟨t, ht, beq_iff_eq.mp htpath⟩)
      rw [hnone]
      simp
    · cases tags.find? (·.1 == p) <;> simp [hp]

/-- The paths of an expression are those that stand for it, each path being there once. -/
theorem map_filter_tags {tags : List (String × Expr)} (h : (tagPaths tags).Nodup) (e : Expr) :
    (tags.filter (·.2 == e)).map (·.1) =
      (tagPaths tags).filter fun p => tagAt tags p == some e := by
  rw [tagPaths, List.filter_map]
  refine congrArg (List.map _) (List.filter_congr fun t ht => ?_)
  rw [Function.comp_apply, tagAt, find?_key h ht]
  rfl

/-! ## Sequences of calls -/

/-- A builder after tag calls, each of a path and an expression, refused or not. -/
def Builder.tagAll (b : Builder) (calls : List (String × Expr)) : Builder :=
  calls.foldl (fun b x => (b.run (Build.tag x.2 x.1)).2) b

/-- The paths of the calls that are not refused. -/
def namedPaths (calls : List (String × Expr)) : List String :=
  (calls.map (·.1)).filter (· ≠ "")

/-- The expression of the last call with a path. -/
def lastCall (calls : List (String × Expr)) (path : String) : Option Expr :=
  if path = "" then none else tagAt calls.reverse path

namespace Builder

/-- What one tag call leaves of the tags of a stage. -/
theorem run_tag {b : Builder} {s : OpenStage} (hs : b.stage = some s) (e : Expr) (path : String) :
    (b.run (Build.tag e path)).2 = if path = "" then b else
      { b with stage := some { s with tags := putTag s.tags path e } } := by
  unfold Build.tag
  by_cases hpath : path = ""
  · subst hpath
    rfl
  · have hempty : path.isEmpty = false := by simpa using hpath
    rw [if_neg hpath]
    simp only [hempty, Bool.false_eq_true, if_false]
    rw [run_modifyStage_of_some hs]

/-- The paths of one more call. -/
theorem namedPaths_concat (calls : List (String × Expr)) (x : String × Expr) :
    namedPaths (calls ++ [x]) = namedPaths calls ++ if x.1 = "" then [] else [x.1] := by
  by_cases hx : x.1 = "" <;> simp [namedPaths, hx]

/-- The last call for a path, with one more call. -/
theorem lastCall_concat (calls : List (String × Expr)) (x : String × Expr) (path : String) :
    lastCall (calls ++ [x]) path =
      if x.1 ≠ "" ∧ x.1 = path then some x.2 else lastCall calls path := by
  unfold lastCall tagAt
  rw [List.reverse_append]
  by_cases hx : x.1 = path <;> by_cases hpath : path = "" <;> simp_all

/-- The tags after a sequence of calls: the paths by their first call, each with the expression of
its last call. -/
theorem tagAll_tags {b : Builder} {s : OpenStage} (hs : b.stage = some s) (htags : s.tags = [])
    (calls : List (String × Expr)) :
    ∃ s', (b.tagAll calls).stage = some s' ∧
      tagPaths s'.tags = (namedPaths calls).eraseDups ∧
      ∀ path, tagAt s'.tags path = lastCall calls path := by
  induction calls using List.reverseRecOn with
  | nil =>
      refine ⟨s, hs, by rw [htags]; rfl, fun path => ?_⟩
      rw [htags, lastCall, tagAt, tagAt]
      split <;> rfl
  | append_singleton calls x ih =>
      obtain ⟨s', hs', hpaths, hlast⟩ := ih
      have hafter : b.tagAll (calls ++ [x]) =
          ((b.tagAll calls).run (Build.tag x.2 x.1)).2 := by
        rw [tagAll, List.foldl_append]
        rfl
      rw [hafter, run_tag hs', namedPaths_concat]
      by_cases hx : x.1 = ""
      · rw [if_pos hx]
        refine ⟨s', hs', by simp [hx, hpaths], fun path => ?_⟩
        rw [lastCall_concat, hlast]
        simp [hx]
      · rw [if_neg hx, if_neg hx]
        refine ⟨_, rfl, ?_, fun path => ?_⟩
        · rw [tagPaths_putTag, hpaths]
          by_cases hmem : x.1 ∈ namedPaths calls
          · rw [eraseDups_concat_of_mem hmem, if_pos (List.mem_eraseDups.mpr hmem)]
          · rw [eraseDups_concat_of_not_mem hmem, if_neg (mt List.mem_eraseDups.mp hmem)]
        · rw [tagAt_putTag, hlast, lastCall_concat]
          simp [hx]

/-- **The law of tags.** After any sequence of tag calls in a stage, a path stands for the
expression of its last call; the paths of an expression are those whose last call was for it, each
once, in the order of the first call with each path. -/
theorem tags_after_calls {b : Builder} {s : OpenStage} (hs : b.stage = some s) (htags : s.tags = [])
    (calls : List (String × Expr)) :
    (∀ path, (b.tagAll calls).tagged path = lastCall calls path) ∧
    ∀ e, (b.tagAll calls).tagsOf e =
      (namedPaths calls).eraseDups.filter fun path => lastCall calls path == some e := by
  obtain ⟨s', hs', hpaths, hlast⟩ := tagAll_tags hs htags calls
  constructor
  · intro path
    rw [tagged, hs', Option.bind_some]
    exact hlast path
  · intro e
    have hnodup : (tagPaths s'.tags).Nodup := hpaths ▸ nodup_eraseDups _
    rw [tagsOf, hs']
    dsimp only
    rw [map_filter_tags hnodup, hpaths]
    exact List.filter_congr fun path _ => by rw [hlast]

/-- A path that moves to another expression comes before the paths that expression had already. -/
example (b : Builder) (x y : Expr) :
    let opened := { b with stage := some { decls := { stage := .vertex } } }
    (opened.tagAll [("a", x), ("b", y), ("a", y)]).stage.map (·.tags) = some [("a", y), ("b", y)] :=
  rfl

end Builder

end WebShader
