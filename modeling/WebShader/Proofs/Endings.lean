import WebShader.Proofs.Bodies
import WebShader.Proofs.Executions

/-!
# How bodies end

What recorded statements can end with, whatever their conditions turn out to be and however often
their loops go round. Where the jumps of a body lie in loops of its own and its last statement
always returns, it only ends by one of its returns, or where a fragment is discarded.
-/

namespace WebShader

variable {ε : Type}

/-! ## Endings -/

/-- How a run of statements ends. -/
inductive Ending (ε : Type) where
  | through
  | broke
  | continued
  | returned (value : Option ε)
  | discarded

namespace Ending

/-- How a loop ends when its body has ended so, unless it goes on. -/
def leaves? : Ending ε → Option (Ending ε)
  | through | continued => none
  | broke => some through
  | returned value => some (returned value)
  | discarded => some discarded

/-- An ending of statements whose returns are as told, and whose jumps lie in loops. -/
def Conforms (returns : Option ε → Prop) (inLoop : Bool) : Ending ε → Prop
  | through | discarded => True
  | broke | continued => inLoop = true
  | returned value => returns value

/-- A loop holds the jumps of its body. -/
theorem Conforms.leaves {returns : Option ε → Prop} {x x' : Ending ε} (h : x.Conforms returns true)
    (hx : x.leaves? = some x') (inLoop : Bool) : x'.Conforms returns inLoop := by
  cases x with
  | through | continued => cases hx
  | broke | discarded =>
      obtain rfl := Option.some.inj hx
      trivial
  | returned value =>
      obtain rfl := Option.some.inj hx
      exact h

end Ending

namespace Stmt

/-- The part can end so. Any branch of a conditional may be the one that is taken, and a loop may go
round any number of times. -/
inductive Ends : Part (Stmt ε) VarId ε → Ending ε → Prop where
  -- statements
  | declare (v : VarId) (init : Option ε) : Ends (.stmt (.declare v init)) .through
  | assign (target : ε) (op : Option BinaryOp) (value : ε) :
      Ends (.stmt (.assign target op value)) .through
  | eval (e : ε) : Ends (.stmt (.eval e)) .through
  | conditional {branches : List (ε × List (Stmt ε))} {otherwise : Option (List (Stmt ε))}
      {x : Ending ε} (h : Ends (.branches branches otherwise) x) :
      Ends (.stmt (.conditional branches otherwise)) x
  | forRange {counter : VarId} {first last : ε} {body : List (Stmt ε)} {x : Ending ε}
      (h : Ends (.counting counter last body) x) :
      Ends (.stmt (.forRange counter first last body)) x
  | whileDone (cond : ε) (body : List (Stmt ε)) : Ends (.stmt (.whileDo cond body)) .through
  | whileLeft {cond : ε} {body : List (Stmt ε)} {x x' : Ending ε} (h : Ends (.block body) x)
      (hx : x.leaves? = some x') : Ends (.stmt (.whileDo cond body)) x'
  | whileNext {cond : ε} {body : List (Stmt ε)} {x x' : Ending ε} (h : Ends (.block body) x)
      (hx : x.leaves? = none) (h' : Ends (.stmt (.whileDo cond body)) x') :
      Ends (.stmt (.whileDo cond body)) x'
  | doWhile {body : List (Stmt ε)} {cond : ε} {x : Ending ε}
      (h : Ends (.repeating body cond false) x) : Ends (.stmt (.doWhile body cond)) x
  | block {body : List (Stmt ε)} {x : Ending ε} (h : Ends (.block body) x) :
      Ends (.stmt (.block body)) x
  | returnWith (value : Option ε) : Ends (.stmt (.returnWith value)) (.returned value)
  | breakLoop : Ends (.stmt .breakLoop) .broke
  | continueLoop : Ends (.stmt .continueLoop) .continued
  | discard : Ends (.stmt .discard) .discarded
  -- blocks
  | nil : Ends (.block []) .through
  | left {s : Stmt ε} {rest : List (Stmt ε)} {x : Ending ε} (h : Ends (.stmt s) x)
      (hx : x ≠ .through) : Ends (.block (s :: rest)) x
  | next {s : Stmt ε} {rest : List (Stmt ε)} {x : Ending ε} (h : Ends (.stmt s) .through)
      (h' : Ends (.block rest) x) : Ends (.block (s :: rest)) x
  -- conditionals
  | noBranch : Ends (.branches [] none) .through
  | otherwise {body : List (Stmt ε)} {x : Ending ε} (h : Ends (.block body) x) :
      Ends (.branches [] (some body)) x
  | taken {cond : ε} {body : List (Stmt ε)} {rest : List (ε × List (Stmt ε))}
      {otherwise : Option (List (Stmt ε))} {x : Ending ε} (h : Ends (.block body) x) :
      Ends (.branches ((cond, body) :: rest) otherwise) x
  | skipped {cond : ε} {body : List (Stmt ε)} {rest : List (ε × List (Stmt ε))}
      {otherwise : Option (List (Stmt ε))} {x : Ending ε} (h : Ends (.branches rest otherwise) x) :
      Ends (.branches ((cond, body) :: rest) otherwise) x
  -- counters
  | counted (counter : VarId) (last : ε) (body : List (Stmt ε)) :
      Ends (.counting counter last body) .through
  | countLeft {counter : VarId} {last : ε} {body : List (Stmt ε)} {x x' : Ending ε}
      (h : Ends (.block body) x) (hx : x.leaves? = some x') :
      Ends (.counting counter last body) x'
  | countNext {counter : VarId} {last : ε} {body : List (Stmt ε)} {x x' : Ending ε}
      (h : Ends (.block body) x) (hx : x.leaves? = none)
      (h' : Ends (.counting counter last body) x') : Ends (.counting counter last body) x'
  -- loops that test at the end
  | repeatLeft {body : List (Stmt ε)} {cond : ε} {stop : Bool} {x x' : Ending ε}
      (h : Ends (.block body) x) (hx : x.leaves? = some x') :
      Ends (.repeating body cond stop) x'
  | repeatDone {body : List (Stmt ε)} {cond : ε} {stop : Bool} {x : Ending ε}
      (h : Ends (.block body) x) (hx : x.leaves? = none) :
      Ends (.repeating body cond stop) .through
  | repeatNext {body : List (Stmt ε)} {cond : ε} {stop : Bool} {x x' : Ending ε}
      (h : Ends (.block body) x) (hx : x.leaves? = none)
      (h' : Ends (.repeating body cond stop) x') : Ends (.repeating body cond stop) x'

/-! ## Returns and jumps -/

mutual

/-- At every depth, what a statement returns is as told, and every jump lies in a loop. -/
def Conforms (returns : Option ε → Prop) (inLoop : Bool) : Stmt ε → Prop
  | conditional branches (some otherwise) =>
    BranchesConform returns inLoop branches ∧ BlockConforms returns inLoop otherwise
  | conditional branches none => BranchesConform returns inLoop branches
  | forRange _ _ _ body | whileDo _ body | doWhile body _ => BlockConforms returns true body
  | block body => BlockConforms returns inLoop body
  | returnWith value => returns value
  | breakLoop | continueLoop => inLoop = true
  | declare _ _ | assign _ _ _ | eval _ | discard => True
termination_by structural s => s

/-- What the statements of a block return is as told, and their jumps lie in loops. -/
def BlockConforms (returns : Option ε → Prop) (inLoop : Bool) : List (Stmt ε) → Prop
  | [] => True
  | s :: rest => s.Conforms returns inLoop ∧ BlockConforms returns inLoop rest
termination_by structural body => body

/-- What the branches of a conditional return is as told, and their jumps lie in loops. -/
def BranchesConform (returns : Option ε → Prop) (inLoop : Bool) :
    List (ε × List (Stmt ε)) → Prop
  | [] => True
  | (_, body) :: rest =>
    BlockConforms returns inLoop body ∧ BranchesConform returns inLoop rest
termination_by structural branches => branches

end

variable {returns returns' : Option ε → Prop} {inLoop : Bool}

/-- A block conforms if each of its statements does. -/
theorem blockConforms_iff {body : List (Stmt ε)} :
    BlockConforms returns inLoop body ↔ ∀ s ∈ body, s.Conforms returns inLoop := by
  induction body with
  | nil => simp [BlockConforms]
  | cons s rest ih => rw [BlockConforms, ih, List.forall_mem_cons]

/-- Branches conform if the block of each of them does. -/
theorem branchesConform_iff {branches : List (ε × List (Stmt ε))} :
    BranchesConform returns inLoop branches ↔
      ∀ branch ∈ branches, BlockConforms returns inLoop branch.2 := by
  induction branches with
  | nil => simp [BranchesConform]
  | cons branch rest ih => rw [BranchesConform, ih, List.forall_mem_cons]

/-- Appending a statement that conforms. -/
theorem BlockConforms.concat {body : List (Stmt ε)} {s : Stmt ε}
    (hbody : BlockConforms returns inLoop body) (hs : s.Conforms returns inLoop) :
    BlockConforms returns inLoop (body ++ [s]) := by
  rw [blockConforms_iff] at hbody ⊢
  exact List.forall_mem_append.mpr ⟨hbody, List.forall_mem_singleton.mpr hs⟩

/-- Replacing the last statement of a block by one that conforms as it does. -/
theorem BlockConforms.replaceLast {f : Stmt ε → Option (Stmt ε)}
    (hf : ∀ s s', f s = some s' → s.Conforms returns inLoop → s'.Conforms returns inLoop)
    {body body' : List (Stmt ε)} (h : replaceLast? f body = some body')
    (hbody : BlockConforms returns inLoop body) : BlockConforms returns inLoop body' := by
  obtain ⟨init, s, s', rfl, hs', rfl⟩ := replaceLast?_eq_some_iff.mp h
  obtain ⟨hinit, hs⟩ := List.forall_mem_append.mp (blockConforms_iff.mp hbody)
  exact (blockConforms_iff.mpr hinit).concat (hf s s' hs' (hs s List.mem_cons_self))

/-- Adding a branch that conforms. -/
theorem Conforms.addBranch {cond : ε} {body : List (Stmt ε)} {s s' : Stmt ε}
    (h : addBranch? cond body s = some s') (hs : s.Conforms returns inLoop)
    (hbody : BlockConforms returns inLoop body) : s'.Conforms returns inLoop := by
  obtain ⟨branches, rfl, rfl⟩ := addBranch?_eq_some_iff.mp h
  have hbranches := branchesConform_iff.mp hs
  exact branchesConform_iff.mpr
    (List.forall_mem_append.mpr ⟨hbranches, List.forall_mem_singleton.mpr hbody⟩)

/-- Adding a last branch that conforms. -/
theorem Conforms.addElse {body : List (Stmt ε)} {s s' : Stmt ε} (h : addElse? body s = some s')
    (hs : s.Conforms returns inLoop) (hbody : BlockConforms returns inLoop body) :
    s'.Conforms returns inLoop := by
  obtain ⟨branches, rfl, rfl⟩ := addElse?_eq_some_iff.mp h
  exact ⟨hs, hbody⟩

mutual

/-- A statement still conforms if more may be returned. -/
theorem Conforms.imp (h : ∀ value, returns value → returns' value) (inLoop : Bool) :
    (s : Stmt ε) → s.Conforms returns inLoop → s.Conforms returns' inLoop
  | conditional branches (some otherwise), hs =>
    ⟨BranchesConform.imp h inLoop branches hs.1, BlockConforms.imp h inLoop otherwise hs.2⟩
  | conditional branches none, hs => BranchesConform.imp h inLoop branches hs
  | forRange _ _ _ body, hs | whileDo _ body, hs | doWhile body _, hs =>
    BlockConforms.imp h true body hs
  | block body, hs => BlockConforms.imp h inLoop body hs
  | returnWith value, hs => h value hs
  | breakLoop, hs | continueLoop, hs => hs
  | declare _ _, _ | assign _ _ _, _ | eval _, _ | discard, _ => trivial
termination_by structural s => s

/-- A block still conforms if more may be returned. -/
theorem BlockConforms.imp (h : ∀ value, returns value → returns' value) (inLoop : Bool) :
    (body : List (Stmt ε)) → BlockConforms returns inLoop body → BlockConforms returns' inLoop body
  | [], _ => trivial
  | s :: rest, hs => ⟨Conforms.imp h inLoop s hs.1, BlockConforms.imp h inLoop rest hs.2⟩
termination_by structural body => body

/-- Branches still conform if more may be returned. -/
theorem BranchesConform.imp (h : ∀ value, returns value → returns' value) (inLoop : Bool) :
    (branches : List (ε × List (Stmt ε))) → BranchesConform returns inLoop branches →
      BranchesConform returns' inLoop branches
  | [], _ => trivial
  | (_, body) :: rest, hs =>
    ⟨BlockConforms.imp h inLoop body hs.1, BranchesConform.imp h inLoop rest hs.2⟩
termination_by structural branches => branches

end

end Stmt

/-! ## Endings of what conforms -/

namespace Part

open Stmt

/-- What a part returns is as told, and its jumps lie in loops: in its own, if it is one. -/
def Conforms (returns : Option ε → Prop) (inLoop : Bool) : Part (Stmt ε) VarId ε → Prop
  | stmt s => s.Conforms returns inLoop
  | block body => BlockConforms returns inLoop body
  | branches cases otherwise => BranchesConform returns inLoop cases ∧
      ∀ body, otherwise = some body → BlockConforms returns inLoop body
  | counting _ _ body | repeating body _ _ => BlockConforms returns true body

/-- A part that always meets a return, unless it is left before. -/
def Returns : Part (Stmt ε) VarId ε → Prop
  | stmt s => s.alwaysReturns = true
  | block body => blockReturns body = true
  | branches cases otherwise => branchesReturn cases = true ∧
      ∃ body, otherwise = some body ∧ blockReturns body = true
  | counting _ _ _ | repeating _ _ _ => False

end Part

namespace Stmt.Ends

open WebShader.Part

variable {p : Part (Stmt ε) VarId ε} {x : Ending ε} {returns : Option ε → Prop}

/-- A part that conforms ends by a return only as told, and by a jump only in a loop. -/
theorem conforms (h : Ends p x) {inLoop : Bool} (hp : p.Conforms returns inLoop) :
    x.Conforms returns inLoop := by
  induction h generalizing inLoop with
  | declare | assign | eval | whileDone | discard | nil | noBranch | counted | repeatDone =>
      trivial
  | returnWith | breakLoop | continueLoop => exact hp
  | @conditional branches otherwise _ _ ih =>
      refine ih ?_
      cases otherwise with
      | none => exact ⟨hp, by simp⟩
      | some body => exact ⟨hp.1, by simpa using hp.2⟩
  | forRange _ ih | doWhile _ ih => exact @ih inLoop hp
  | block _ ih => exact ih hp
  | whileLeft _ hx ih | countLeft _ hx ih | repeatLeft _ hx ih =>
      have hbody := @ih true hp
      exact hbody.leaves hx inLoop
  | whileNext _ _ _ _ ih | countNext _ _ _ _ ih | repeatNext _ _ _ _ ih => exact ih hp
  | left _ _ ih => exact ih hp.1
  | next _ _ _ ih => exact ih hp.2
  | otherwise _ ih => exact ih (hp.2 _ rfl)
  | taken _ ih => exact ih hp.1.1
  | skipped _ ih => exact ih ⟨hp.1.2, hp.2⟩

/-- The end of a part that always meets a return is not reached. -/
theorem ne_through (h : Ends p x) (hp : p.Returns) : x ≠ .through := by
  induction h with
  | returnWith => simp
  | @conditional branches otherwise _ _ ih =>
      cases otherwise with
      | none => cases hp
      | some body =>
          have hreturns : branchesReturn branches = true ∧ blockReturns body = true :=
            Bool.and_eq_true_iff.mp hp
          exact ih ⟨hreturns.1, body, rfl, hreturns.2⟩
  | block _ ih => exact ih hp
  | left _ hx => exact hx
  | @next s rest _ _ _ ih ih' =>
      cases rest with
      | nil => exact absurd rfl (ih hp)
      | cons s' rest => exact ih' hp
  | otherwise _ ih =>
      obtain ⟨-, body, hbody, hreturns⟩ := hp
      rw [← Option.some.inj hbody] at hreturns
      exact ih hreturns
  | taken _ ih => exact ih (Bool.and_eq_true_iff.mp hp.1).1
  | skipped _ ih => exact ih ⟨(Bool.and_eq_true_iff.mp hp.1).2, hp.2⟩
  | noBranch =>
      obtain ⟨-, body, hbody, -⟩ := hp
      cases hbody
  -- nothing else always meets a return
  | declare | assign | eval | forRange | whileDone | whileLeft | whileNext | doWhile | breakLoop
  | continueLoop | discard | nil => cases hp
  | counted | countLeft | countNext | repeatLeft | repeatDone | repeatNext => exact hp.elim

end Stmt.Ends

end WebShader
