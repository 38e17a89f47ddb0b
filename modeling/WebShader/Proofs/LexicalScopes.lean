import WebShader.Proofs.ListTraversal
import WebShader.Term

/-!
# Lexical scopes

Where the expressions of a recorded statement stand among the scopes of its variables. Reading a
statement back keeps every scope and its declarations.
-/

namespace WebShader

/-! ## Scopes and places -/

/-- A text printed for some expressions of a stage, by the scopes around them, from the innermost
out: those open where their author uses them, and those around the text. A scope holds what it
declares before that point. -/
structure Place (ε : Type) where
  opened : List (List VarId)
  printed : List (List VarId)
  exprs : List ε

namespace Stmt

variable {ε δ : Type}

/-- What a statement declares for those that follow it. -/
def declared : Stmt ε → List VarId
  | declare v _ => [v]
  | _ => []

/-- What the statements of a block declare. -/
def declaredBy (body : List (Stmt ε)) : List VarId := body.flatMap declared

mutual

/-- The scopes inside a statement, with all they declare. -/
def scopes : Stmt ε → List (List VarId)
  | conditional branches (some otherwise) =>
    branchScopes branches ++ declaredBy otherwise :: nestedScopes otherwise
  | conditional branches none => branchScopes branches
  | forRange counter _ _ body => (counter :: declaredBy body) :: nestedScopes body
  | whileDo _ body | doWhile body _ | block body => declaredBy body :: nestedScopes body
  | declare _ _ | assign _ _ _ | eval _ | returnWith _ | breakLoop | continueLoop | discard => []
termination_by structural s => s

/-- The scopes inside the statements of a block. -/
def nestedScopes : List (Stmt ε) → List (List VarId)
  | [] => []
  | s :: rest => s.scopes ++ nestedScopes rest
termination_by structural body => body

/-- The scopes inside the branches of a conditional. -/
def branchScopes : List (ε × List (Stmt ε)) → List (List VarId)
  | [] => []
  | (_, body) :: rest => declaredBy body :: nestedScopes body ++ branchScopes rest
termination_by structural branches => branches

end

/-- The scope of a block, in which some variables are declared before it starts, and the scopes
inside it. -/
def blockScopes (heads : List VarId) (body : List (Stmt ε)) : List (List VarId) :=
  (heads ++ declaredBy body) :: nestedScopes body

mutual

/-- The texts of a statement inside some scopes, in order. The value of an assignment is printed
with its target where the operator is written out. A language may print the condition of a loop
that tests it at the end inside the body of the loop; the bound of a counter is printed where the
counter is declared. -/
def places (testsInside : Bool) (outer : List (List VarId)) : Stmt ε → List (Place ε)
  | declare _ (some e) | eval e | returnWith (some e) => [⟨outer, outer, [e]⟩]
  | assign target _ value => [⟨outer, outer, [target]⟩, ⟨outer, outer, [target, value]⟩]
  | conditional branches (some otherwise) =>
    branchPlaces testsInside outer branches ++ blockPlaces testsInside outer [] otherwise
  | conditional branches none => branchPlaces testsInside outer branches
  | forRange counter first last body =>
    ⟨outer, outer, [first]⟩ :: ⟨outer, [counter] :: outer, [last]⟩ ::
      blockPlaces testsInside outer [counter] body
  | whileDo cond body => ⟨outer, outer, [cond]⟩ :: blockPlaces testsInside outer [] body
  | doWhile body cond =>
    blockPlaces testsInside outer [] body ++
      [⟨outer, if testsInside then declaredBy body :: outer else outer, [cond]⟩]
  | block body => blockPlaces testsInside outer [] body
  | declare _ none | returnWith none | breakLoop | continueLoop | discard => []
termination_by structural s => s

/-- The texts of a block, in whose scope some variables are declared before it starts. -/
def blockPlaces (testsInside : Bool) (outer : List (List VarId)) (heads : List VarId) :
    List (Stmt ε) → List (Place ε)
  | [] => []
  | s :: rest =>
    s.places testsInside (heads :: outer) ++
      blockPlaces testsInside outer (heads ++ s.declared) rest
termination_by structural body => body

/-- The texts of the branches of a conditional. -/
def branchPlaces (testsInside : Bool) (outer : List (List VarId)) :
    List (ε × List (Stmt ε)) → List (Place ε)
  | [] => []
  | (cond, body) :: rest =>
    ⟨outer, outer, [cond]⟩ :: blockPlaces testsInside outer [] body ++
      branchPlaces testsInside outer rest
termination_by structural branches => branches

end

/-! ## Scopes of blocks that grow -/

/-- What a longer block declares. -/
theorem declaredBy_append (body more : List (Stmt ε)) :
    declaredBy (body ++ more) = declaredBy body ++ declaredBy more := by
  simp [declaredBy]

/-- The inner scopes of a longer block. -/
theorem nestedScopes_append (body more : List (Stmt ε)) :
    nestedScopes (body ++ more) = nestedScopes body ++ nestedScopes more := by
  induction body with
  | nil => rfl
  | cons s rest ih => rw [List.cons_append, nestedScopes, nestedScopes, ih, List.append_assoc]

/-- The scopes of more branches. -/
theorem branchScopes_append (branches more : List (ε × List (Stmt ε))) :
    branchScopes (branches ++ more) = branchScopes branches ++ branchScopes more := by
  induction branches with
  | nil => rfl
  | cons branch rest ih =>
      rw [List.cons_append, branchScopes, branchScopes, ih]
      simp

/-- A statement that declares nothing adds the scopes inside it. -/
theorem mem_blockScopes_concat {heads : List VarId} {body : List (Stmt ε)} {s : Stmt ε}
    (hs : s.declared = []) {scope : List VarId} :
    scope ∈ blockScopes heads (body ++ [s]) ↔ scope ∈ blockScopes heads body ∨
      scope ∈ s.scopes := by
  have hdeclared : declaredBy [s] = [] := by simpa [declaredBy] using hs
  have hnested : nestedScopes [s] = s.scopes := by simp [nestedScopes]
  rw [blockScopes, blockScopes, declaredBy_append, nestedScopes_append, hdeclared, hnested]
  simp [or_assoc]

/-- A declaration adds its variable to the scope of its block. -/
theorem mem_blockScopes_declare {heads : List VarId} {body : List (Stmt ε)} {v : VarId}
    {init : Option ε} {scope : List VarId} :
    scope ∈ blockScopes heads (body ++ [declare v init]) ↔
      scope = heads ++ declaredBy body ++ [v] ∨ scope ∈ nestedScopes body := by
  rw [blockScopes, declaredBy_append, nestedScopes_append]
  simp [nestedScopes, scopes, declaredBy, declared]

/-- Replacing the last statement by one that declares nothing either changes its scopes only. -/
theorem mem_blockScopes_replaceLast {f : Stmt ε → Option (Stmt ε)} {more : List (List VarId)}
    (hf : ∀ s s', f s = some s' →
      s'.declared = s.declared ∧ ∀ scope, scope ∈ s'.scopes ↔ scope ∈ s.scopes ∨ scope ∈ more)
    {heads : List VarId} {body body' : List (Stmt ε)} (h : replaceLast? f body = some body')
    {scope : List VarId} :
    declaredBy body' = declaredBy body ∧
      (scope ∈ blockScopes heads body' ↔ scope ∈ blockScopes heads body ∨ scope ∈ more) := by
  have hparts : declaredBy body' = declaredBy body ∧
      (scope ∈ nestedScopes body' ↔ scope ∈ nestedScopes body ∨ scope ∈ more) := by
    fun_induction replaceLast? f body generalizing body' with
    | case1 => cases h
    | case2 s =>
        obtain ⟨s', hs', rfl⟩ := Option.map_eq_some_iff.mp h
        obtain ⟨hdeclared, hscopes⟩ := hf s s' hs'
        constructor
        · simpa [declaredBy] using hdeclared
        · simpa [nestedScopes] using hscopes scope
    | case3 s rest hrest ih =>
        obtain ⟨rest', hrest', rfl⟩ := Option.map_eq_some_iff.mp h
        obtain ⟨hdeclared, hscopes⟩ := ih hrest'
        constructor
        · unfold declaredBy at hdeclared ⊢
          rw [List.flatMap_cons, List.flatMap_cons, hdeclared]
        · rw [nestedScopes, nestedScopes, List.mem_append, List.mem_append, hscopes, or_assoc]
  refine ⟨hparts.1, ?_⟩
  rw [blockScopes, blockScopes, hparts.1, List.mem_cons, List.mem_cons, hparts.2, or_assoc]

/-- A branch that is added has scopes of its own. -/
theorem addBranch?_eq_some {cond : ε} {body : List (Stmt ε)} {s s' : Stmt ε}
    (h : addBranch? cond body s = some s') : s'.declared = s.declared ∧
      ∀ scope, scope ∈ s'.scopes ↔ scope ∈ s.scopes ∨ scope ∈ blockScopes [] body := by
  unfold addBranch? at h
  split at h
  · obtain rfl := Option.some.inj h
    refine ⟨rfl, fun scope => ?_⟩
    rw [scopes, scopes, branchScopes_append, List.mem_append]
    simp [branchScopes, blockScopes]
  · cases h

/-- A last branch that is added has scopes of its own. -/
theorem addElse?_eq_some {body : List (Stmt ε)} {s s' : Stmt ε}
    (h : addElse? body s = some s') : s'.declared = s.declared ∧
      ∀ scope, scope ∈ s'.scopes ↔ scope ∈ s.scopes ∨ scope ∈ blockScopes [] body := by
  unfold addElse? at h
  split at h
  · obtain rfl := Option.some.inj h
    refine ⟨rfl, fun scope => ?_⟩
    rw [scopes, scopes, List.mem_append]
    simp [blockScopes]
  · cases h

/-! ## Scopes around expressions -/

end Stmt

/-- A property that a scope has from its first declarations on, at each point of its block. -/
def PrefixClosed (P : List VarId → Prop) : Prop := ∀ before after, P (before ++ after) → P before

/-- A text that stands in all the scopes open where its author uses its expressions, and only in
scopes with a property. -/
structure Place.Within {ε : Type} (P : List VarId → Prop) (q : Place ε) : Prop where
  subset : q.opened ⊆ q.printed
  all : ∀ scope ∈ q.printed, P scope

theorem Place.within_self {ε : Type} {P : List VarId → Prop} {outer : List (List VarId)}
    {exprs : List ε} (h : ∀ scope ∈ outer, P scope) : Place.Within P ⟨outer, outer, exprs⟩ :=
  ⟨List.Subset.refl outer, h⟩

theorem Place.within_inner {ε : Type} {P : List VarId → Prop} {outer : List (List VarId)}
    {exprs : List ε} (h : ∀ scope ∈ outer, P scope) {scope : List VarId} (hscope : P scope) :
    Place.Within P ⟨outer, scope :: outer, exprs⟩ :=
  ⟨List.subset_cons_self scope outer, List.forall_mem_cons.mpr ⟨hscope, h⟩⟩

namespace Stmt

mutual

/-- What is true of the scopes around a statement and inside it is true of the scopes around each
of its expressions. -/
theorem within_places {P : List VarId → Prop} (hP : PrefixClosed P) {testsInside : Bool}
    {outer : List (List VarId)} (houter : ∀ scope ∈ outer, P scope) :
    (s : Stmt ε) → (∀ scope ∈ s.scopes, P scope) →
      ∀ q ∈ s.places testsInside outer, q.Within P
  | declare v (some e), _ | eval e, _ | returnWith (some e), _ => by
      intro q hq
      rw [places, List.mem_singleton] at hq
      rw [hq]
      exact Place.within_self houter
  | assign target op value, _ => by
      intro q hq
      rw [places, List.mem_pair] at hq
      rcases hq with rfl | rfl
      · exact Place.within_self houter
      · exact Place.within_self houter
  | conditional branches (some otherwise), h => by
      rw [scopes, List.forall_mem_append] at h
      rw [places, List.forall_mem_append]
      constructor
      · exact within_branchPlaces hP houter branches h.1
      · exact within_blockPlaces hP houter [] otherwise h.2
  | conditional branches none, h => by
      rw [scopes] at h
      rw [places]
      exact within_branchPlaces hP houter branches h
  | forRange counter first last body, h => by
      rw [scopes] at h
      rw [places, List.forall_mem_cons, List.forall_mem_cons]
      refine ⟨Place.within_self houter, Place.within_inner houter ?_, ?_⟩
      · exact hP [counter] (declaredBy body) (h _ List.mem_cons_self)
      · exact within_blockPlaces hP houter [counter] body h
  | whileDo cond body, h => by
      rw [scopes] at h
      rw [places, List.forall_mem_cons]
      exact ⟨Place.within_self houter, within_blockPlaces hP houter [] body h⟩
  | doWhile body cond, h => by
      rw [scopes] at h
      rw [places, List.forall_mem_append]
      refine ⟨within_blockPlaces hP houter [] body h, ?_⟩
      rw [List.forall_mem_singleton]
      cases testsInside with
      | false => exact Place.within_self houter
      | true => exact Place.within_inner houter (h _ List.mem_cons_self)
  | block body, h => by
      rw [scopes] at h
      rw [places]
      exact within_blockPlaces hP houter [] body h
  | declare v none, _ | returnWith none, _ | breakLoop, _ | continueLoop, _ | discard, _ => by
      intro q hq
      rw [places] at hq
      cases hq
termination_by structural s => s

theorem within_blockPlaces {P : List VarId → Prop} (hP : PrefixClosed P) {testsInside : Bool}
    {outer : List (List VarId)} (houter : ∀ scope ∈ outer, P scope) (heads : List VarId) :
    (body : List (Stmt ε)) → (∀ scope ∈ blockScopes heads body, P scope) →
      ∀ q ∈ blockPlaces testsInside outer heads body, q.Within P
  | [], _ => by
      intro q hq
      rw [blockPlaces] at hq
      cases hq
  | s :: rest, h => by
      rw [blockScopes, List.forall_mem_cons, nestedScopes, List.forall_mem_append] at h
      obtain ⟨hall, hs, hrest⟩ := h
      rw [blockPlaces, List.forall_mem_append]
      constructor
      · refine within_places hP ?_ s hs
        exact List.forall_mem_cons.mpr ⟨hP heads _ hall, houter⟩
      · apply within_blockPlaces hP houter (heads ++ s.declared) rest
        rw [blockScopes, List.forall_mem_cons, List.append_assoc]
        exact ⟨hall, hrest⟩
termination_by structural body => body

theorem within_branchPlaces {P : List VarId → Prop} (hP : PrefixClosed P) {testsInside : Bool}
    {outer : List (List VarId)} (houter : ∀ scope ∈ outer, P scope) :
    (branches : List (ε × List (Stmt ε))) → (∀ scope ∈ branchScopes branches, P scope) →
      ∀ q ∈ branchPlaces testsInside outer branches, q.Within P
  | [], _ => by
      intro q hq
      rw [branchPlaces] at hq
      cases hq
  | (cond, body) :: rest, h => by
      rw [branchScopes, List.forall_mem_append] at h
      rw [branchPlaces, List.forall_mem_append, List.forall_mem_cons]
      refine ⟨⟨Place.within_self houter, ?_⟩, ?_⟩
      · exact within_blockPlaces hP houter [] body h.1
      · exact within_branchPlaces hP houter rest h.2
termination_by structural branches => branches

end

/-! ## Statements read back -/

section Traversal

variable {f : ε → Except ShaderError δ}

mutual

/-- A statement read back declares the same and has the same scopes. -/
theorem scopes_of_traverse : (s : Stmt ε) → {s' : Stmt δ} → s.traverse f = .ok s' →
    s'.declared = s.declared ∧ s'.scopes = s.scopes
  | conditional branches (some otherwise), s', h => by
      simp only [traverse, bind_eq_ok_iff] at h
      obtain ⟨branches', hbranches, otherwise', hotherwise, h⟩ := h
      rw [← Except.ok.inj h, scopes, scopes, branchScopes_of_traverse branches hbranches]
      obtain ⟨hdeclared, hnested⟩ := nestedScopes_of_traverse otherwise hotherwise
      exact ⟨rfl, by rw [hdeclared, hnested]⟩
  | conditional branches none, s', h => by
      simp only [traverse, bind_eq_ok_iff] at h
      obtain ⟨branches', hbranches, h⟩ := h
      rw [← Except.ok.inj h, scopes, scopes, branchScopes_of_traverse branches hbranches]
      exact ⟨rfl, rfl⟩
  | forRange counter first last body, s', h => by
      simp only [traverse, bind_eq_ok_iff] at h
      obtain ⟨first', -, last', -, body', hbody, h⟩ := h
      obtain ⟨hdeclared, hnested⟩ := nestedScopes_of_traverse body hbody
      rw [← Except.ok.inj h, scopes, scopes, hdeclared, hnested]
      exact ⟨rfl, rfl⟩
  | whileDo cond body, s', h => by
      simp only [traverse, bind_eq_ok_iff] at h
      obtain ⟨cond', -, body', hbody, h⟩ := h
      obtain ⟨hdeclared, hnested⟩ := nestedScopes_of_traverse body hbody
      rw [← Except.ok.inj h, scopes, scopes, hdeclared, hnested]
      exact ⟨rfl, rfl⟩
  | doWhile body cond, s', h => by
      simp only [traverse, bind_eq_ok_iff] at h
      obtain ⟨body', hbody, cond', -, h⟩ := h
      obtain ⟨hdeclared, hnested⟩ := nestedScopes_of_traverse body hbody
      rw [← Except.ok.inj h, scopes, scopes, hdeclared, hnested]
      exact ⟨rfl, rfl⟩
  | block body, s', h => by
      simp only [traverse, bind_eq_ok_iff] at h
      obtain ⟨body', hbody, h⟩ := h
      obtain ⟨hdeclared, hnested⟩ := nestedScopes_of_traverse body hbody
      rw [← Except.ok.inj h, scopes, scopes, hdeclared, hnested]
      exact ⟨rfl, rfl⟩
  | declare v init, s', h => by
      simp only [traverse, bind_eq_ok_iff] at h
      obtain ⟨init', -, h⟩ := h
      rw [← Except.ok.inj h, scopes, scopes]
      exact ⟨rfl, rfl⟩
  | assign target op value, s', h => by
      simp only [traverse, bind_eq_ok_iff] at h
      obtain ⟨target', -, value', -, h⟩ := h
      rw [← Except.ok.inj h, scopes, scopes]
      exact ⟨rfl, rfl⟩
  | eval e, s', h | returnWith e, s', h => by
      simp only [traverse, bind_eq_ok_iff] at h
      obtain ⟨e', -, h⟩ := h
      rw [← Except.ok.inj h, scopes, scopes]
      exact ⟨rfl, rfl⟩
  | breakLoop, s', h | continueLoop, s', h | discard, s', h => by
      rw [← Except.ok.inj h, scopes, scopes]
      exact ⟨rfl, rfl⟩
termination_by structural s => s

/-- The scopes of a block are left alone when its expressions are mapped. -/
theorem nestedScopes_of_traverse : (body : List (Stmt ε)) → {body' : List (Stmt δ)} →
    traverseBlock f body = .ok body' →
      declaredBy body' = declaredBy body ∧ nestedScopes body' = nestedScopes body
  | [], body', h => by
      rw [← Except.ok.inj h]
      exact ⟨rfl, rfl⟩
  | s :: rest, body', h => by
      simp only [traverseBlock, bind_eq_ok_iff] at h
      obtain ⟨s', hs, rest', hrest, h⟩ := h
      obtain ⟨hdeclared, hscopes⟩ := scopes_of_traverse s hs
      obtain ⟨hdeclaredBy, hnested⟩ := nestedScopes_of_traverse rest hrest
      rw [← Except.ok.inj h, nestedScopes, nestedScopes, hscopes, hnested]
      unfold declaredBy at hdeclaredBy ⊢
      rw [List.flatMap_cons, List.flatMap_cons, hdeclared, hdeclaredBy]
      exact ⟨rfl, rfl⟩
termination_by structural body => body

/-- The scopes of branches are left alone when their expressions are mapped. -/
theorem branchScopes_of_traverse : (branches : List (ε × List (Stmt ε))) →
    {branches' : List (δ × List (Stmt δ))} → traverseBranches f branches = .ok branches' →
      branchScopes branches' = branchScopes branches
  | [], branches', h => by
      rw [← Except.ok.inj h]
      rfl
  | (cond, body) :: rest, branches', h => by
      simp only [traverseBranches, bind_eq_ok_iff] at h
      obtain ⟨cond', -, body', hbody, rest', hrest, h⟩ := h
      obtain ⟨hdeclared, hnested⟩ := nestedScopes_of_traverse body hbody
      rw [← Except.ok.inj h, branchScopes, branchScopes, hdeclared, hnested,
        branchScopes_of_traverse rest hrest]
termination_by structural branches => branches

end

/-- The scopes of a block are those of the block read back. -/
theorem blockScopes_of_traverse {heads : List VarId} {body : List (Stmt ε)}
    {body' : List (Stmt δ)} (h : traverseBlock f body = .ok body') :
    blockScopes heads body' = blockScopes heads body := by
  obtain ⟨hdeclared, hnested⟩ := nestedScopes_of_traverse body h
  rw [blockScopes, blockScopes, hdeclared, hnested]

end Traversal

end Stmt

end WebShader
