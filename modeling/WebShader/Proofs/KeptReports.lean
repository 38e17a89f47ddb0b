import WebShader.Proofs.Narratives

/-!
# The report that is kept

Of the programs whose failures are reported, the builder keeps the report of the one that has ended
last: that of its failure, or none if it has been built. Nothing else counts. A program whose
failure is passed on leaves the report to those inside of it, and so do an overflow, which is never
reported, and a reset, so that the report may be of another program than the one that has ended
last.
-/

namespace WebShader

namespace Script

open Authoring

/-! ## Actions -/

/-- The label of the program that an action builds, if its failure is reported. -/
def Action.reportLabel? : Action → Option String
  | render isReported label .. | compute isReported label .. =>
      if isReported then some label else none
  | _ => none

/-- Whether an action asks for the report that is kept. -/
def Action.asksReport : Action → Bool
  | operation .lastError _ => true
  | _ => false

/-! ## Courses -/

/-- Which report is kept before and after a course. The report of a failure is the last remark of
the entry, and names the program by its label. -/
inductive Keeps : Course → Option String → Option String → Prop
  | stop (steps r) : Keeps (.steps steps []) r r
  | step {goesOn a entry rest entries r r₁ r₂} (h : Keeps (.action a entry) r r₁)
      (hrest : Keeps (.steps rest entries) r₁ r₂) :
      Keeps (.steps ((goesOn, a) :: rest) (entry :: entries)) r r₂
  | asked (name log r) : Keeps (.action (.operation .lastError name) ⟨.lastError r, [], log⟩) r r
  | within {a blocks r r'} (hlabel : a.reportLabel? = none) (hasks : a.asksReport = false)
      (h : Keeps (.bodies a.bodies blocks) r r') (reply log) :
      Keeps (.action a ⟨reply, blocks, log⟩) r r'
  | built {a label reply blocks r r'} (hlabel : a.reportLabel? = some label)
      (h : Keeps (.bodies a.bodies blocks) r r') (hreply : reply.succeeds = true) (log) :
      Keeps (.action a ⟨reply, blocks, log⟩) r none
  | failed {a label reply blocks r r'} (hlabel : a.reportLabel? = some label)
      (h : Keeps (.bodies a.bodies blocks) r r') (hreply : reply.succeeds = false) (log target e) :
      Keeps (.action a ⟨reply, blocks, log ++ [.error (failureReport label target e)]⟩) r
        (some (failureReport label target e))
  | overflowed {a label blocks r r'} (hlabel : a.reportLabel? = some label)
      (h : Keeps (.bodies a.bodies blocks) r r') (log) :
      Keeps (.action a ⟨.failed .overflow, blocks, log⟩) r r'
  | leave (bodies r) : Keeps (.bodies bodies []) r r
  | body {steps entries rest blocks r r₁ r₂} (h : Keeps (.steps steps entries) r r₁)
      (hrest : Keeps (.bodies rest blocks) r₁ r₂) :
      Keeps (.bodies (steps :: rest) (entries :: blocks)) r r₂

/-- Where no failure of a program would be reported, the report stays as it is. -/
theorem Keeps.eq_of_silent {c : Course} {r r' : Option String} (h : Keeps c r r')
    (hsilent : ∀ a entry, c.Has a entry → a.reportLabel? = none) : r' = r := by
  induction h with
  | stop | asked | leave => rfl
  | within _ _ _ _ _ ih => exact ih fun a entry h => hsilent a entry (.inside h)
  | built hlabel | failed hlabel | overflowed hlabel =>
      rw [hsilent _ _ .self] at hlabel
      cases hlabel
  | step _ _ ih ih' =>
      exact (ih' fun a entry h => hsilent a entry (.later h)).trans
        (ih fun a entry h => hsilent a entry (.here h))
  | body _ _ ih ih' =>
      exact (ih' fun a entry h => hsilent a entry (.next h)).trans
        (ih fun a entry h => hsilent a entry (.first h))

/-- The report that is kept, as transcripts tell it. -/
def reportStory : Narrative (Option String) where
  value := Prod.snd
  steps steps entries := Keeps (.steps steps entries)
  action a entry := Keeps (.action a entry)

theorem keeps_of_threads {bodies : List Script} {blocks : List (List Entry)} {r r' : Option String}
    (h : reportStory.Threads bodies blocks r r') : Keeps (.bodies bodies blocks) r r' := by
  induction h with
  | leave => exact .leave _ _
  | body h _ ih => exact .body h ih

/-! ## Programs -/

section Programs

variable {α : Type} {bodies more : List Script} {body vertex fragment : Run Unit}

/-- What ignores the report leaves it alone. -/
theorem rests_of_ignores {act : Build α} (h : Build.Ignores act) : reportStory.Rests act :=
  h.lastError_eq

/-- Looking at the builder leaves the report alone. -/
theorem rests_current : reportStory.Rests Build.current := fun _ => rfl

/-- A stage recounts its body. -/
theorem recounts_stage (h : reportStory.Traverses bodies body) (which : Stage)
    (earlier : List VarId) : reportStory.Traverses bodies (stage which earlier body) :=
  .bind (.of_rests (rests_of_ignores (Build.ordinary_openStage _ _).ignores)) fun _ =>
    .after h fun _ => .of_rests (rests_of_ignores (Build.ordinary_closeStage _).ignores)

/-- A render program recounts its two bodies. -/
theorem recounts_compileRender (label : String) (hv : reportStory.Traverses bodies vertex)
    (hf : reportStory.Traverses more fragment) :
    reportStory.Traverses (bodies ++ more) (compileRender label vertex fragment) := by
  refine .bind (recounts_stage hv _ _) fun v => .after (recounts_stage hf _ _) fun f => ?_
  refine .bind (.of_rests (rests_of_ignores (Build.ordinary_bindStages _).ignores)) fun plan => ?_
  refine .bind (.of_rests rests_current) fun b => ?_
  exact .bind (.except _) fun _ => .bind (.except _) fun _ => .bind (.except _) fun _ => .pure _

/-- A compute program recounts its body. -/
theorem recounts_compileCompute (label : String) (h : reportStory.Traverses bodies body) :
    reportStory.Traverses bodies (compileCompute label body) := by
  refine .bind (.of_rests (rests_of_ignores (Build.ordinary_require _).ignores)) fun _ => ?_
  refine .after (recounts_stage h _ _) fun c => ?_
  refine .bind (.of_rests (rests_of_ignores (Build.ordinary_bindStages _).ignores)) fun plan => ?_
  refine .bind (.of_rests rests_current) fun b => ?_
  exact .bind (.except _) fun _ => .bind (.except _) fun _ => .pure _

/-- A program recounts what it compiles. -/
theorem recounts_asProgram {compile : Run α} (h : reportStory.Traverses bodies compile) :
    reportStory.Traverses bodies (asProgram compile) := by
  refine .bind (.of_rests (rests_of_ignores Build.ordinary_start.ignores)) fun _ => ?_
  refine .attempt_bind h (fun x => ?_) ?_
  · refine .bind (.of_rests (rests_of_ignores Build.ordinary_finish.ignores)) fun _ => ?_
    cases x with
    | ok p => exact .pure p
    | error e => exact .throw e
  · intro e s a ha
    cases ha

/-- A program whose failure is reported decides which report is kept, and no other does. -/
theorem keeps_program (a : Action) {build : Run α} (isReported : Bool) (label : String)
    (shown : Option α → Reply) (h : reportStory.Traverses a.bodies build)
    (hlabel : a.reportLabel? = if isReported then some label else none)
    (hasks : a.asksReport = false) (hfails : (shown none).succeeds = false)
    (hbuilds : ∀ p, (shown (some p)).succeeds = true) :
    reportStory.Enacts a (do return shown (← program isReported label build)) := by
  intro s hs
  obtain ⟨blocks, hblocks, hthreads, -⟩ := h s
  have hbodies : Keeps (.bodies a.bodies blocks) s.1.lastError (build.runFrom s).2.1.lastError :=
    keeps_of_threads hthreads
  rw [hs, List.nil_append] at hblocks
  subst hblocks
  rw [runFrom_bind, runFrom_program]
  rcases hrun : build.runFrom s with ⟨e | p, t⟩
  · rw [hrun] at hbodies
    cases isReported with
    | true =>
        cases e with
        | overflow => exact .overflowed hlabel hbodies t.1.remarks
        | _ => exact .failed hlabel hbodies hfails t.1.remarks t.1.target _
    | false => cases e <;> exact .within hlabel hasks hbodies (.failed _) t.1.remarks
  · rw [hrun] at hbodies
    cases isReported with
    | true => exact .built hlabel hbodies (hbuilds p) t.1.remarks
    | false => exact .within hlabel hasks hbodies _ t.1.remarks

end Programs

/-! ## Scripts -/

/-- Only an action that neither reports nor asks for a report refers to names that no expression
has. -/
theorem asks_nothing_of_run_eq_error {tolerant : Bool} {n : Notes} {a : Action} {name : String}
    (h : a.run tolerant n = .error name) : a.reportLabel? = none ∧ a.asksReport = false := by
  cases a with
  | operation op given =>
      cases op with
      | lastError => cases h
      | _ => exact ⟨rfl, rfl⟩
  | render | compute => cases h
  | _ => exact ⟨rfl, rfl⟩

/-- No operation changes the report, and the one that asks for it shows it. -/
theorem keeps_operation {n : Notes} {op : Operation} {act : Run Reply} (given : Option String)
    (h : op.action n = .ok act) :
    reportStory.Enacts (.operation op given) (named (given.or op.ownName?) act) := by
  intro s hs
  by_cases hop : op = .lastError
  · subst hop
    rw [← Except.ok.inj h]
    show Keeps (.action _ ⟨.lastError s.1.lastError, s.2.blocks, s.1.remarks⟩) s.1.lastError
      s.1.lastError
    rw [hs]
    exact .asked given _ _
  · have hasks : (Action.operation op given).asksReport = false := by
      cases op <;> first | rfl | exact absurd rfl hop
    obtain ⟨hblocks, hreport⟩ := (IsQuiet.operation h).named (given.or op.ownName?) s
    show Keeps (.action _ ⟨_, _, _⟩) s.1.lastError (Builder.lastError _)
    rw [hreport, hblocks, hs]
    exact .within rfl hasks (.leave _ _) _ _

/-- The report is kept as transcripts tell it. -/
theorem reportStory_isTrue : reportStory.IsTrue where
  stop _ _ := .stop _ _
  step h hrest := Keeps.step h hrest
  unbound h log r :=
    have ⟨hlabel, hasks⟩ := asks_nothing_of_run_eq_error h
    .within hlabel hasks (.leave _ _) _ log
  operation given h := keeps_operation given h
  within {a _ _ _} hprogram hbodies h reply log := by
    have hnothing : a.reportLabel? = none ∧ a.asksReport = false := by
      cases a <;> first | exact ⟨rfl, rfl⟩ | exact absurd rfl hbodies | cases hprogram
    exact .within hnothing.1 hnothing.2 (keeps_of_threads h) reply log
  render isReported label vertex fragment v f queries hv hf := by
    have hprogram := keeps_program
      (.render isReported label vertex fragment queries) isReported label
      (fun built => .render (built.map fun p => (p, queries.map (·.answer p.layouts))))
      (recounts_asProgram (recounts_compileRender label hv hf)) rfl rfl rfl fun _ => rfl
    exact hprogram
  compute isReported label steps body queries h := by
    have hprogram := keeps_program (.compute isReported label steps queries) isReported label
      (fun built => .compute (built.map fun p => (p, queries.map (·.answer p.layouts))))
      (recounts_asProgram (recounts_compileCompute label h)) rfl rfl rfl fun _ => rfl
    exact hprogram

section Shows

variable {tolerant : Bool} {steps : Script} {s t : Builder × Notes} {entries : List Entry}

/-- Along every script, whichever of its steps fail, the builder keeps the report of the reported
program that has ended last, and shows it when asked. -/
theorem Shows.keeps (h : Shows tolerant steps s entries t) :
    Keeps (.steps steps entries) s.1.lastError t.1.lastError :=
  reportStory_isTrue.steps_of_shows h

/-- Programs whose failures are passed on, built or not, and resets leave an earlier report. -/
theorem Shows.lastError_eq (h : Shows tolerant steps s entries t)
    (hsilent : ∀ a entry, (Course.steps steps entries).Has a entry → a.reportLabel? = none) :
    t.1.lastError = s.1.lastError :=
  h.keeps.eq_of_silent hsilent

end Shows

end Script

end WebShader
