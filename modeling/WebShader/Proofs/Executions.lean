import WebShader.Operator
import WebShader.Proofs.Tokens

/-!
# Executions of sources

What a source does when it is run, as the sequence of its actions: declarations, assignments and
evaluations, with the outcome of each test. Actions and tests are known by their tokens only. What
an action does to memory is left open, so that a test has every outcome. A run may be observed up to
any point, so that what never ends is covered as well. `discard` has no rule: GLSL ES leaves the
shader there, WGSL goes on without effects.
-/

namespace WebShader

/-! ## Statements as they are read -/

/-- A statement of a source: an action of its own, or one that decides which statements are run. A
loop that tests its condition at the end is written in one of two ways: `doWhile` names the
condition to go on, `loop` the condition to leave. -/
inductive Flow where
  | act (text : List Token)
  | conditional (cases : List (List Token × List Flow)) (otherwise : Option (List Flow))
  | counting (first test step : List Token) (body : List Flow)
  | whileDo (cond : List Token) (body : List Flow)
  | doWhile (body : List Flow) (cond : List Token)
  | loop (body : List Flow) (breakIf : List Token)
  | block (body : List Flow)
  | give (value : List Token)
  | breakLoop
  | continueLoop
  | discard

/-! ## Observations -/

/-- An action of a recorded block, over variables `ν` and expressions `ε`. A counter is compared
with its bound and moves on by one. -/
inductive Event (ν ε : Type) where
  | declare (v : ν) (init : Option ε)
  | assign (target : ε) (op : Option BinaryOp) (value : ε)
  | eval (e : ε)
  | test (cond : ε) (holds : Bool)
  | bound (counter : ν) (last : ε) (holds : Bool)
  | step (counter : ν)
  | give (value : Option ε)

/-- An action of a source: one that is done, a test with its outcome, or a value that a function
gives. -/
inductive Deed where
  | act (text : List Token)
  | test (cond : List Token) (holds : Bool)
  | give (value : List Token)

/-- How a run ends. One that is cut has been observed up to there. -/
inductive Exit where
  | through
  | broke
  | continued
  | returned
  | cut
  deriving DecidableEq

/-- How a loop ends when its body has ended so, unless it goes on. -/
def Exit.leaves? : Exit → Option Exit
  | through | continued => none
  | broke => some through
  | returned => some returned
  | cut => some cut

/-- What is run, over statements `σ`: a statement, a block, what is left of a conditional, what is
left of a loop with a counter, or a loop that stops when the condition after its body has a given
outcome. -/
inductive Part (σ ν ε : Type) where
  | stmt (s : σ)
  | block (body : List σ)
  | branches (cases : List (ε × List σ)) (otherwise : Option (List σ))
  | counting (counter : ν) (last : ε) (body : List σ)
  | repeating (body : List σ) (cond : ε) (stop : Bool)

namespace Flow

/-- A part of a source, where a counter is known by the tokens that move it on. -/
abbrev Part := WebShader.Part Flow (List Token) (List Token)

/-! ## Runs -/

/-- The part can do the actions, in order, and end so. `continue` skips what is left of the body of
a loop, but neither the step of a counter nor the test at the end: `while` of a `do` goes on where
its condition holds, `break if` leaves where it does. -/
inductive Runs : Part → List Deed → Exit → Prop where
  | cut (p : Part) : Runs p [] .cut
  -- statements
  | act (text : List Token) : Runs (.stmt (.act text)) [.act text] .through
  | conditional {cases : List (List Token × List Flow)} {otherwise : Option (List Flow)}
      {t : List Deed} {x : Exit} (h : Runs (.branches cases otherwise) t x) :
      Runs (.stmt (.conditional cases otherwise)) t x
  | counting {first test step : List Token} {body : List Flow} {t : List Deed} {x : Exit}
      (h : Runs (.counting step test body) t x) :
      Runs (.stmt (.counting first test step body)) (.act first :: t) x
  | whileDone (cond : List Token) (body : List Flow) :
      Runs (.stmt (.whileDo cond body)) [.test cond false] .through
  | whileLeft {cond : List Token} {body : List Flow} {t : List Deed} {x x' : Exit}
      (h : Runs (.block body) t x) (hx : x.leaves? = some x') :
      Runs (.stmt (.whileDo cond body)) (.test cond true :: t) x'
  | whileNext {cond : List Token} {body : List Flow} {t t' : List Deed} {x x' : Exit}
      (h : Runs (.block body) t x) (hx : x.leaves? = none)
      (h' : Runs (.stmt (.whileDo cond body)) t' x') :
      Runs (.stmt (.whileDo cond body)) (.test cond true :: (t ++ t')) x'
  | doWhile {body : List Flow} {cond : List Token} {t : List Deed} {x : Exit}
      (h : Runs (.repeating body cond false) t x) : Runs (.stmt (.doWhile body cond)) t x
  | loop {body : List Flow} {breakIf : List Token} {t : List Deed} {x : Exit}
      (h : Runs (.repeating body breakIf true) t x) : Runs (.stmt (.loop body breakIf)) t x
  | block {body : List Flow} {t : List Deed} {x : Exit} (h : Runs (.block body) t x) :
      Runs (.stmt (.block body)) t x
  | give (value : List Token) : Runs (.stmt (.give value)) [.give value] .returned
  | breakLoop : Runs (.stmt .breakLoop) [] .broke
  | continueLoop : Runs (.stmt .continueLoop) [] .continued
  -- blocks
  | nil : Runs (.block []) [] .through
  | left {s : Flow} {rest : List Flow} {t : List Deed} {x : Exit}
      (h : Runs (.stmt s) t x) (hx : x ≠ .through) : Runs (.block (s :: rest)) t x
  | next {s : Flow} {rest : List Flow} {t t' : List Deed} {x : Exit}
      (h : Runs (.stmt s) t .through) (h' : Runs (.block rest) t' x) :
      Runs (.block (s :: rest)) (t ++ t') x
  -- conditionals
  | noBranch : Runs (.branches [] none) [] .through
  | otherwise {body : List Flow} {t : List Deed} {x : Exit} (h : Runs (.block body) t x) :
      Runs (.branches [] (some body)) t x
  | taken {cond : List Token} {body : List Flow} {rest : List (List Token × List Flow)}
      {otherwise : Option (List Flow)} {t : List Deed} {x : Exit} (h : Runs (.block body) t x) :
      Runs (.branches ((cond, body) :: rest) otherwise) (.test cond true :: t) x
  | skipped {cond : List Token} {body : List Flow} {rest : List (List Token × List Flow)}
      {otherwise : Option (List Flow)} {t : List Deed} {x : Exit}
      (h : Runs (.branches rest otherwise) t x) :
      Runs (.branches ((cond, body) :: rest) otherwise) (.test cond false :: t) x
  -- counters
  | counted (step test : List Token) (body : List Flow) :
      Runs (.counting step test body) [.test test false] .through
  | countLeft {step test : List Token} {body : List Flow} {t : List Deed} {x x' : Exit}
      (h : Runs (.block body) t x) (hx : x.leaves? = some x') :
      Runs (.counting step test body) (.test test true :: t) x'
  | countNext {step test : List Token} {body : List Flow} {t t' : List Deed} {x x' : Exit}
      (h : Runs (.block body) t x) (hx : x.leaves? = none)
      (h' : Runs (.counting step test body) t' x') :
      Runs (.counting step test body) (.test test true :: (t ++ .act step :: t')) x'
  -- loops that test at the end
  | repeatLeft {body : List Flow} {cond : List Token} {stop : Bool} {t : List Deed} {x x' : Exit}
      (h : Runs (.block body) t x) (hx : x.leaves? = some x') :
      Runs (.repeating body cond stop) t x'
  | repeatDone {body : List Flow} {cond : List Token} {stop : Bool} {t : List Deed} {x : Exit}
      (h : Runs (.block body) t x) (hx : x.leaves? = none) :
      Runs (.repeating body cond stop) (t ++ [.test cond stop]) .through
  | repeatNext {body : List Flow} {cond : List Token} {stop : Bool} {t t' : List Deed}
      {x x' : Exit} (h : Runs (.block body) t x) (hx : x.leaves? = none)
      (h' : Runs (.repeating body cond stop) t' x') :
      Runs (.repeating body cond stop) (t ++ .test cond (!stop) :: t') x'

end Flow

end WebShader
