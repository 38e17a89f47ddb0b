import WebShader.Proofs.LexicalScopes

/-!
# The expressions of blocks

The expressions that recorded statements hold, at every depth. Growing a block adds those of what it
grows by, reading a block back gives one for each of them, and no other is printed.
-/

namespace WebShader

namespace Stmt

variable {ε δ : Type}

mutual

/-- The expressions of a statement, at every depth. -/
def exprs : Stmt ε → List ε
  | declare _ (some e) | eval e | returnWith (some e) => [e]
  | assign target _ value => [target, value]
  | conditional branches (some otherwise) => branchExprs branches ++ blockExprs otherwise
  | conditional branches none => branchExprs branches
  | forRange _ first last body => first :: last :: blockExprs body
  | whileDo cond body => cond :: blockExprs body
  | doWhile body cond => blockExprs body ++ [cond]
  | block body => blockExprs body
  | declare _ none | returnWith none | breakLoop | continueLoop | discard => []
termination_by structural s => s

/-- The expressions of a block. -/
def blockExprs : List (Stmt ε) → List ε
  | [] => []
  | s :: rest => s.exprs ++ blockExprs rest
termination_by structural body => body

/-- The expressions of the branches of a conditional. -/
def branchExprs : List (ε × List (Stmt ε)) → List ε
  | [] => []
  | (cond, body) :: rest => cond :: blockExprs body ++ branchExprs rest
termination_by structural branches => branches

end

/-! ## Blocks that grow -/

/-- The expressions of a longer block. -/
theorem blockExprs_append (body more : List (Stmt ε)) :
    blockExprs (body ++ more) = blockExprs body ++ blockExprs more := by
  induction body with
  | nil => rfl
  | cons s rest ih => rw [List.cons_append, blockExprs, blockExprs, ih, List.append_assoc]

/-- The expressions of more branches. -/
theorem branchExprs_append (branches more : List (ε × List (Stmt ε))) :
    branchExprs (branches ++ more) = branchExprs branches ++ branchExprs more := by
  induction branches with
  | nil => rfl
  | cons branch rest ih =>
      rw [List.cons_append, branchExprs, branchExprs, ih]
      simp

/-- The expressions of a block with one more statement. -/
theorem blockExprs_concat (body : List (Stmt ε)) (s : Stmt ε) :
    blockExprs (body ++ [s]) = blockExprs body ++ s.exprs := by
  rw [blockExprs_append, blockExprs, blockExprs, List.append_nil]

/-- Replacing the last statement by one whose further expressions have a property. -/
theorem mem_blockExprs_replaceLast {f : Stmt ε → Option (Stmt ε)} {P : ε → Prop}
    (hf : ∀ s s', f s = some s' → ∀ e ∈ s'.exprs, e ∈ s.exprs ∨ P e)
    {body body' : List (Stmt ε)} (h : replaceLast? f body = some body') :
    ∀ e ∈ blockExprs body', e ∈ blockExprs body ∨ P e := by
  fun_induction replaceLast? f body generalizing body' with
  | case1 => cases h
  | case2 s =>
      obtain ⟨s', hs', rfl⟩ := Option.map_eq_some_iff.mp h
      simpa [blockExprs] using hf s s' hs'
  | case3 s rest _ ih =>
      obtain ⟨rest', hrest', rfl⟩ := Option.map_eq_some_iff.mp h
      intro e he
      rw [blockExprs, List.mem_append] at he ⊢
      rcases he with he | he
      · exact Or.inl (Or.inl he)
      · exact (ih hrest' e he).imp_left Or.inr

/-- The expressions of a conditional with one more branch. -/
theorem exprs_addBranch {cond : ε} {body : List (Stmt ε)} {s s' : Stmt ε}
    (h : addBranch? cond body s = some s') : s'.exprs = s.exprs ++ cond :: blockExprs body := by
  unfold addBranch? at h
  split at h
  · obtain rfl := Option.some.inj h
    rw [exprs, exprs, branchExprs_append]
    simp [branchExprs]
  · cases h

/-- The expressions of a conditional with a last branch. -/
theorem exprs_addElse {body : List (Stmt ε)} {s s' : Stmt ε} (h : addElse? body s = some s') :
    s'.exprs = s.exprs ++ blockExprs body := by
  unfold addElse? at h
  split at h
  · obtain rfl := Option.some.inj h
    rw [exprs, exprs]
  · cases h

/-! ## Blocks that are read back -/

section Traversal

variable {f : ε → Except ShaderError δ}

mutual

/-- Each expression of a statement read back is read from one of the statement. -/
theorem exprs_of_traverse : (s : Stmt ε) → {s' : Stmt δ} → s.traverse f = .ok s' →
    List.Forall₂ (fun n e => f n = .ok e) s.exprs s'.exprs
  | declare v (some n), s', h | returnWith (some n), s', h => by
      simp only [traverse, optional, bind_eq_ok_iff] at h
      obtain ⟨init, hinit, h⟩ := h
      obtain ⟨e, he, rfl⟩ := map_eq_ok_iff.mp hinit
      rw [← Except.ok.inj h, exprs, exprs]
      exact .cons he .nil
  | declare v none, s', h | returnWith none, s', h => by
      rw [← Except.ok.inj h, exprs, exprs]
      exact .nil
  | assign target op value, s', h => by
      simp only [traverse, bind_eq_ok_iff] at h
      obtain ⟨target', htarget, value', hvalue, h⟩ := h
      rw [← Except.ok.inj h, exprs, exprs]
      exact .cons htarget (.cons hvalue .nil)
  | eval n, s', h => by
      simp only [traverse, bind_eq_ok_iff] at h
      obtain ⟨e, he, h⟩ := h
      rw [← Except.ok.inj h, exprs, exprs]
      exact .cons he .nil
  | conditional branches (some otherwise), s', h => by
      simp only [traverse, bind_eq_ok_iff] at h
      obtain ⟨branches', hbranches, otherwise', hotherwise, h⟩ := h
      rw [← Except.ok.inj h, exprs, exprs]
      exact List.rel_append (branchExprs_of_traverse branches hbranches)
        (blockExprs_of_traverse otherwise hotherwise)
  | conditional branches none, s', h => by
      simp only [traverse, bind_eq_ok_iff] at h
      obtain ⟨branches', hbranches, h⟩ := h
      rw [← Except.ok.inj h, exprs, exprs]
      exact branchExprs_of_traverse branches hbranches
  | forRange counter first last body, s', h => by
      simp only [traverse, bind_eq_ok_iff] at h
      obtain ⟨first', hfirst, last', hlast, body', hbody, h⟩ := h
      rw [← Except.ok.inj h, exprs, exprs]
      exact .cons hfirst (.cons hlast (blockExprs_of_traverse body hbody))
  | whileDo cond body, s', h => by
      simp only [traverse, bind_eq_ok_iff] at h
      obtain ⟨cond', hcond, body', hbody, h⟩ := h
      rw [← Except.ok.inj h, exprs, exprs]
      exact .cons hcond (blockExprs_of_traverse body hbody)
  | doWhile body cond, s', h => by
      simp only [traverse, bind_eq_ok_iff] at h
      obtain ⟨body', hbody, cond', hcond, h⟩ := h
      rw [← Except.ok.inj h, exprs, exprs]
      exact List.rel_append (blockExprs_of_traverse body hbody) (.cons hcond .nil)
  | block body, s', h => by
      simp only [traverse, bind_eq_ok_iff] at h
      obtain ⟨body', hbody, h⟩ := h
      rw [← Except.ok.inj h, exprs, exprs]
      exact blockExprs_of_traverse body hbody
  | breakLoop, s', h | continueLoop, s', h | discard, s', h => by
      rw [← Except.ok.inj h, exprs, exprs]
      exact .nil
termination_by structural s => s

/-- The expressions of a block are mapped in their order. -/
theorem blockExprs_of_traverse : (body : List (Stmt ε)) → {body' : List (Stmt δ)} →
    traverseBlock f body = .ok body' →
      List.Forall₂ (fun n e => f n = .ok e) (blockExprs body) (blockExprs body')
  | [], body', h => by
      rw [← Except.ok.inj h]
      exact .nil
  | s :: rest, body', h => by
      simp only [traverseBlock, bind_eq_ok_iff] at h
      obtain ⟨s', hs, rest', hrest, h⟩ := h
      rw [← Except.ok.inj h, blockExprs, blockExprs]
      exact List.rel_append (exprs_of_traverse s hs) (blockExprs_of_traverse rest hrest)
termination_by structural body => body

/-- The expressions of branches are mapped in their order. -/
theorem branchExprs_of_traverse : (branches : List (ε × List (Stmt ε))) →
    {branches' : List (δ × List (Stmt δ))} → traverseBranches f branches = .ok branches' →
      List.Forall₂ (fun n e => f n = .ok e) (branchExprs branches) (branchExprs branches')
  | [], branches', h => by
      rw [← Except.ok.inj h]
      exact .nil
  | (cond, body) :: rest, branches', h => by
      simp only [traverseBranches, bind_eq_ok_iff] at h
      obtain ⟨cond', hcond, body', hbody, rest', hrest, h⟩ := h
      have hblock := blockExprs_of_traverse body hbody
      rw [← Except.ok.inj h, branchExprs, branchExprs]
      exact .cons hcond (List.rel_append hblock (branchExprs_of_traverse rest hrest))
termination_by structural branches => branches

end

end Traversal

/-! ## Blocks that are printed -/

mutual

/-- The texts of a statement are printed for its expressions. -/
theorem exprs_of_mem_places {testsInside : Bool} {outer : List (List VarId)} :
    (s : Stmt ε) → ∀ q ∈ s.places testsInside outer, q.exprs ⊆ s.exprs
  | declare _ (some e) | eval e | returnWith (some e) => by
      rw [places, exprs, List.forall_mem_singleton]
      exact List.Subset.refl [e]
  | assign target _ value => by
      rw [places, exprs, List.forall_mem_cons, List.forall_mem_singleton]
      exact ⟨by simp, List.Subset.refl [target, value]⟩
  | conditional branches (some otherwise) => by
      rw [places, exprs, List.forall_mem_append]
      exact ⟨fun q hq => List.subset_append_of_subset_left _
          (exprs_of_mem_branchPlaces branches q hq),
        fun q hq => List.subset_append_of_subset_right _
          (exprs_of_mem_blockPlaces [] otherwise q hq)⟩
  | conditional branches none => by
      rw [places, exprs]
      exact exprs_of_mem_branchPlaces branches
  | forRange counter first last body => by
      rw [places, exprs, List.forall_mem_cons, List.forall_mem_cons]
      refine ⟨by simp, by simp, fun q hq => ?_⟩
      have hbody := exprs_of_mem_blockPlaces [counter] body q hq
      exact List.subset_cons_of_subset _ (List.subset_cons_of_subset _ hbody)
  | whileDo cond body => by
      rw [places, exprs, List.forall_mem_cons]
      refine ⟨by simp, fun q hq => ?_⟩
      exact List.subset_cons_of_subset _ (exprs_of_mem_blockPlaces [] body q hq)
  | doWhile body cond => by
      rw [places, exprs, List.forall_mem_append, List.forall_mem_singleton]
      exact ⟨fun q hq => List.subset_append_of_subset_left _
        (exprs_of_mem_blockPlaces [] body q hq), by simp⟩
  | block body => by
      rw [places, exprs]
      exact exprs_of_mem_blockPlaces [] body
  | declare _ none | returnWith none | breakLoop | continueLoop | discard => by
      rw [places]
      simp
termination_by structural s => s

/-- The expressions at a place in a block are expressions of the block. -/
theorem exprs_of_mem_blockPlaces {testsInside : Bool} {outer : List (List VarId)}
    (heads : List VarId) : (body : List (Stmt ε)) →
      ∀ q ∈ blockPlaces testsInside outer heads body, q.exprs ⊆ blockExprs body
  | [] => by
      rw [blockPlaces]
      simp
  | s :: rest => by
      rw [blockPlaces, blockExprs, List.forall_mem_append]
      exact ⟨fun q hq => List.subset_append_of_subset_left _ (exprs_of_mem_places s q hq),
        fun q hq => List.subset_append_of_subset_right _
          (exprs_of_mem_blockPlaces (heads ++ s.declared) rest q hq)⟩
termination_by structural body => body

/-- The expressions at a place in a branch are expressions of the branches. -/
theorem exprs_of_mem_branchPlaces {testsInside : Bool} {outer : List (List VarId)} :
    (branches : List (ε × List (Stmt ε))) →
      ∀ q ∈ branchPlaces testsInside outer branches, q.exprs ⊆ branchExprs branches
  | [] => by
      rw [branchPlaces]
      simp
  | (cond, body) :: rest => by
      rw [branchPlaces, branchExprs, List.forall_mem_append, List.forall_mem_cons]
      refine ⟨⟨by simp, fun q hq => ?_⟩, fun q hq => ?_⟩
      · have hbody := exprs_of_mem_blockPlaces [] body q hq
        exact List.subset_append_of_subset_left _ (List.subset_cons_of_subset _ hbody)
      · exact List.subset_append_of_subset_right _ (exprs_of_mem_branchPlaces rest q hq)
termination_by structural branches => branches

end

end Stmt

end WebShader
