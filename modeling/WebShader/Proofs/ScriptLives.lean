import WebShader.Proofs.Narratives

/-!
# Scripts and the lives of builders

Whatever runs, the builder goes through a life that fits the transcript. Only resets and programs
change where a builder is in its life; everything else leaves that to the bodies it runs.
-/

namespace WebShader

namespace Script

open Authoring

/-! ## Courses one after the other -/

namespace Lives

variable {bodies more : List Script} {blocks blocks' : List (List Entry)} {isComplete : Bool}
  {l l' : Life}

/-- Stages that are complete are followed by others. -/
theorem stages_append (h : Lives (.stages bodies blocks true) ⟨.building, false⟩ l)
    (h' : Lives (.stages more blocks' isComplete) ⟨.building, false⟩ l') :
    Lives (.stages (bodies ++ more) (blocks ++ blocks') isComplete) ⟨.building, false⟩ l' := by
  induction bodies generalizing blocks with
  | nil =>
      cases h with
      | finish => exact h'
  | cons steps bodies ih =>
      cases h with
      | kept hsteps hrest => exact .kept hsteps (ih hrest)

/-- What has not been completed is not complete with more stages to come. -/
theorem stages_left (h : Lives (.stages bodies blocks isComplete) ⟨.building, false⟩ l)
    (more : List Script) :
    Lives (.stages (bodies ++ more) blocks false) ⟨.building, false⟩ l := by
  induction bodies generalizing blocks with
  | nil =>
      cases h with
      | finish | abandon => exact .abandon _ _
  | cons steps bodies ih =>
      cases h with
      | abandon => exact .abandon _ _
      | kept hsteps hrest => exact .kept hsteps (ih hrest)
      | lost hsteps hclosed => exact .lost hsteps hclosed _

end Lives

/-- Where a builder is in its life, as transcripts tell it. -/
def lifeStory : Narrative Life where
  value := Prod.fst
  steps steps entries := Lives (.steps steps entries)
  action a entry := Lives (.action a entry)

/-- The bodies of a run live through what it tells. -/
theorem lives_of_threads {bodies : List Script} {blocks : List (List Entry)} {l l' : Life}
    (h : lifeStory.Threads bodies blocks l l') : Lives (.bodies bodies blocks) l l' := by
  induction h with
  | leave => exact .leave _ _
  | body h _ ih => exact .body h ih

/-! ## Programs -/

/-- A run adds the transcripts of the first of the stages of a program. If it succeeds it is
through with all of them. -/
def Completes {α : Type} (bodies : List Script) (act : Run α) : Prop :=
  ∀ s, s.1.phase = .building → ∃ blocks isComplete l,
    (act.runFrom s).2.2.blocks = s.2.blocks ++ blocks ∧
    Lives (.stages bodies blocks isComplete) ⟨.building, false⟩ l ∧
    ∀ a, (act.runFrom s).1 = .ok a →
      isComplete = true ∧ l = ⟨.building, false⟩ ∧ (act.runFrom s).2.1.phase = .building

namespace Completes

variable {α β : Type} {bodies more : List Script} {act : Run α}

/-- The bodies of one run are completed before those of the other. -/
theorem bind {f : α → Run β} (h : Completes bodies act) (hf : ∀ a, Completes more (f a)) :
    Completes (bodies ++ more) (act >>= f) := by
  intro s hs
  obtain ⟨blocks, isComplete, l, hblocks, hlives, hall⟩ := h s hs
  rw [runFrom_bind]
  rcases hrun : act.runFrom s with ⟨e | a, t⟩
  · rw [hrun] at hblocks
    exact ⟨blocks, false, l, hblocks, hlives.stages_left more, fun _ h => by cases h⟩
  · rw [hrun] at hblocks hall
    obtain ⟨rfl, rfl, ht⟩ := hall a rfl
    obtain ⟨blocks', isComplete', l', hblocks', hlives', hall'⟩ := hf a t ht
    refine ⟨blocks ++ blocks', isComplete', l', ?_, hlives.stages_append hlives', hall'⟩
    rw [hblocks', hblocks, List.append_assoc]

/-- What runs before the stages, or after them. -/
theorem lift {act : Build α} (h : Build.Follows Builder.Steady act) :
    Completes [] (act : Run α) := by
  rintro ⟨b, n⟩ hb
  refine ⟨[], true, _, (List.append_nil _).symm, .finish _, fun _ _ => ⟨rfl, rfl, ?_⟩⟩
  exact (congrArg Life.phase (h b)).trans hb

/-- A check has no bodies to complete. -/
theorem except (x : Except ShaderError α) : Completes [] (liftM x : Run α) := by
  cases x with
  | ok a => exact .lift (.pure a)
  | error e => exact .lift (.throw e)

end Completes

/-- The body of a stage leaves it open, or the program is not completed. -/
theorem Lives.stage_of_body {steps : Script} {blocks : List (List Entry)} {l : Life}
    (h : Lives (.bodies [steps] blocks) ⟨.building, true⟩ l) : ∃ isComplete l',
      Lives (.stages [steps] blocks isComplete) ⟨.building, false⟩ l' ∧
      (blocks.length = 1 → l.isOpen = true →
        isComplete = true ∧ l' = ⟨.building, false⟩ ∧ l = ⟨.building, true⟩) := by
  cases h with
  | leave => exact ⟨false, _, .abandon _ _, fun h => by cases h⟩
  | body hsteps hrest =>
      cases hrest
      rcases hsteps.eq_or_closed with rfl | hclosed
      · exact ⟨true, _, .kept hsteps (.finish _), fun _ _ => ⟨rfl, rfl, rfl⟩⟩
      · exact ⟨false, _, .lost hsteps hclosed _, fun _ h => absurd h (by simp [hclosed])⟩

/-- A stage completes its body, or fails in it. -/
theorem completes_stage {steps : Script} {body : Run Unit} (h : lifeStory.Traverses [steps] body)
    (which : Stage) (earlier : List VarId) : Completes [steps] (stage which earlier body) := by
  rintro ⟨b, n⟩ hb
  have hopen : (b.run (Build.openStage which earlier)).2.life = ⟨.building, true⟩ := by
    have hsteady : (b.opened which).Steady ((b.opened which).run (Build.inputsFrom earlier)).2 :=
      Build.indifferent_inputsFrom earlier _
    exact hsteady.trans (congrArg (Life.mk · true) hb)
  unfold Authoring.stage
  rw [runFrom_bind, runFrom_lift]
  -- the inputs may fail to be inherited, before the body is run
  rcases hrun : b.run (Build.openStage which earlier) with ⟨e | _, b₁⟩
  · exact ⟨[], false, _, (List.append_nil _).symm, .abandon _ _, fun _ h => by cases h⟩
  · rw [hrun] at hopen
    dsimp only at hopen ⊢
    obtain ⟨blocks, hblocks, hthreads, hall⟩ := h (b₁, n)
    have hlives : Lives (.bodies [steps] blocks) b₁.life (body.runFrom (b₁, n)).2.1.life :=
      lives_of_threads hthreads
    rw [hopen] at hlives
    obtain ⟨isComplete, l', hstage, hcomplete⟩ := hlives.stage_of_body
    rw [runFrom_bind]
    rcases hbody : body.runFrom (b₁, n) with ⟨e | _, b₂, n₂⟩
    · rw [hbody] at hblocks
      exact ⟨blocks, isComplete, l', hblocks, hstage, fun _ h => by cases h⟩
    · rw [hbody] at hblocks hcomplete hall
      dsimp only at hcomplete ⊢
      rw [runFrom_lift]
      refine ⟨blocks, isComplete, l', hblocks, hstage, fun a ha => ?_⟩
      rcases Build.run_closeStage_cases b₂ which with ⟨e, b₃, hclose, -⟩ |
        ⟨st, main, hst, -, hclose⟩
      · rw [hclose] at ha
        cases ha
      · rw [hclose]
        obtain ⟨hdone, hl, hlife⟩ := hcomplete (hall () rfl) (by simp [Builder.life, hst])
        exact ⟨hdone, hl, congrArg Life.phase hlife⟩

/-- A render program completes its two bodies, or fails in one of them. -/
theorem completes_compileRender (label : String) {vertex fragment : Script} {v f : Run Unit}
    (hv : lifeStory.Traverses [vertex] v) (hf : lifeStory.Traverses [fragment] f) :
    Completes [vertex, fragment] (compileRender label v f) := by
  refine .bind (completes_stage hv _ _) fun v => .bind (completes_stage hf _ _) fun f => ?_
  refine .bind (.lift (Build.follows_bindStages _)) fun plan => .bind (.lift .get) fun b => ?_
  refine .bind (.except _) fun _ => .bind (.except _) fun _ => .bind (.except _) fun _ => ?_
  exact .lift (.pure _)

/-- A compute program completes its body, or fails in it. -/
theorem completes_compileCompute (label : String) {steps : Script} {body : Run Unit}
    (h : lifeStory.Traverses [steps] body) : Completes [steps] (compileCompute label body) := by
  refine .bind (.lift (Build.follows_require .compute)) fun _ =>
    .bind (completes_stage h _ _) fun c => ?_
  refine .bind (.lift (Build.follows_bindStages _)) fun plan => .bind (.lift .get) fun b => ?_
  exact .bind (.except _) fun _ => .bind (.except _) fun _ => .lift (.pure _)

/-! ## Steps -/

/-- A builder that is not idle refuses to report a program or to build it. -/
theorem runFrom_program_of_fault {α : Type} {isReported : Bool} {label : String} (compile : Run α)
    {s : Builder × Notes} {fault : InternalFault} (h : s.1.phase.fault? = some fault) :
    (program isReported label (asProgram compile)).runFrom s = if isReported then
        (.ok none, s.1.withReport (failureReport label s.1.target (.internal fault)), s.2)
      else (.error (.internal fault), s) := by
  rw [runFrom_program, runFrom_asProgram_of_fault compile h]
  cases isReported <;> rfl

/-- A program lives through its bodies, or is refused. -/
theorem enacts_program {α : Type} (a : Action) {compile : Run α} (isReported : Bool)
    (label : String) (shown : Option α → Reply) (ha : a.isProgram = true)
    (h : Completes a.bodies compile) (hshown : (shown none).succeeds = false)
    (hrefused : ∀ fault target log,
      (isReported = true → .error (failureReport label target (.internal fault)) ∈ log) →
      Refused fault a ⟨if isReported then shown none else .failed (.internal fault), [], log⟩) :
    lifeStory.Enacts a (do return shown (← program isReported label (asProgram compile))) := by
  rintro ⟨b, names, seen, blocks⟩ hblocks
  obtain rfl : blocks = [] := hblocks
  rw [runFrom_bind]
  -- a program within another, or after one that has ended, is refused before it begins
  cases hfault : b.phase.fault? with
  | some fault =>
      rw [runFrom_program_of_fault compile hfault]
      cases isReported with
      | true =>
          refine .refused hfault (hrefused fault b.target _ fun _ => ?_)
          exact List.mem_append_right _ List.mem_cons_self
      | false => exact .refused hfault (hrefused fault b.target _ fun h => by cases h)
  | none =>
      have hphase : b.phase = .idle := by
        cases hphase : b.phase <;> first | rfl | (rw [hphase] at hfault; cases hfault)
      obtain ⟨blocks, isComplete, l, hadded, hlives, hall⟩ :=
        h ({ b with phase := .building }, ⟨names, seen, []⟩) rfl
      -- however the program ends, the builder is done with it
      have hdone : ∀ reply log, (isComplete = false → reply.succeeds = false) →
          Lives (.action a ⟨reply, blocks, log⟩) b.life ⟨.done, false⟩ := by
        intro reply log hreply
        rw [Builder.life, hphase]
        exact .accepted ha hlives hreply log _
      rw [List.nil_append] at hadded
      rw [runFrom_program, runFrom_asProgram, hphase]
      dsimp only
      rcases hrun : compile.runFrom ({ b with phase := .building }, ⟨names, seen, []⟩) with
        ⟨e | p, b', n'⟩
      · rw [hrun] at hadded
        rw [← hadded] at hdone
        cases e with
        | overflow => exact hdone _ _ fun _ => rfl
        | _ =>
            cases isReported with
            | true => exact hdone _ _ fun _ => hshown
            | false => exact hdone _ _ fun _ => rfl
      · rw [hrun] at hadded hall
        rw [← hadded] at hdone
        have hcomplete : isComplete = false → (shown (some p)).succeeds = false :=
          fun h => absurd (hall p rfl).1 (by simp [h])
        cases isReported with
        | true => exact hdone _ _ hcomplete
        | false => exact hdone _ _ hcomplete

/-! ## Scripts -/

/-- Only an action that is no program and no reset refers to names that no expression has. -/
theorem not_isProgram_of_run_eq_error {tolerant : Bool} {n : Notes} {a : Action} {name : String}
    (h : a.run tolerant n = .error name) : a.isProgram = false ∧ a.isReset = false := by
  cases a with
  | operation op given =>
      cases op with
      | reset => cases h
      | _ => exact ⟨rfl, rfl⟩
  | render | compute => cases h
  | _ => exact ⟨rfl, rfl⟩

/-- A reset makes the builder idle, and no other operation counts. -/
theorem lives_operation {n : Notes} {op : Operation} {act : Run Reply} (given : Option String)
    (h : op.action n = .ok act) :
    lifeStory.Enacts (.operation op given) (named (given.or op.ownName?) act) := by
  intro s hs
  by_cases hop : op = .reset
  · subst hop
    rw [← Except.ok.inj h]
    show Lives (.action _ ⟨.done, s.2.blocks, s.1.remarks⟩) s.1.life ⟨.idle, false⟩
    rw [hs]
    exact .reset rfl _ _
  · have hreset : (Action.operation op given).isReset = false := by
      cases op <;> first | rfl | exact absurd rfl hop
    obtain ⟨blocks, hblocks, hthreads, -⟩ :=
      Narrative.traverses_operation (N := lifeStory) hop h (given.or op.ownName?) s
    rw [hblocks, hs, List.nil_append]
    exact .within rfl hreset (lives_of_threads hthreads) _ _

/-- Lives are as transcripts tell them. -/
theorem lifeStory_isTrue : lifeStory.IsTrue where
  stop _ _ := .stop _ _
  step h hrest := Lives.step h hrest
  unbound h _ _ := .within (not_isProgram_of_run_eq_error h).1 (not_isProgram_of_run_eq_error h).2
    (.leave _ _) _ _
  operation given h := lives_operation given h
  within {a _ _ _} hprogram hbodies h reply log := by
    have hreset : a.isReset = false := by
      cases a <;> first | rfl | exact absurd rfl hbodies
    exact .within hprogram hreset (lives_of_threads h) reply log
  render isReported label vertex fragment v f queries hv hf := by
    have hrefused : ∀ fault target log,
        (isReported = true → .error (failureReport label target (.internal fault)) ∈ log) →
        Refused fault (.render isReported label vertex fragment queries)
          ⟨if isReported then .render none else .failed (.internal fault), [], log⟩ := by
      intro fault target log hlog
      cases isReported with
      | true => exact .renderReport _ _ _ target (hlog rfl)
      | false => exact .render _ _ _ _ _
    have henacts := enacts_program
      (.render isReported label vertex fragment queries) isReported label
      (fun built => .render (built.map fun p => (p, queries.map (·.answer p.layouts)))) rfl
      (completes_compileRender label hv hf) rfl hrefused
    exact henacts
  compute isReported label steps body queries h := by
    have hrefused : ∀ fault target log,
        (isReported = true → .error (failureReport label target (.internal fault)) ∈ log) →
        Refused fault (.compute isReported label steps queries)
          ⟨if isReported then .compute none else .failed (.internal fault), [], log⟩ := by
      intro fault target log hlog
      cases isReported with
      | true => exact .computeReport _ _ target (hlog rfl)
      | false => exact .compute _ _ _ _
    have henacts := enacts_program (.compute isReported label steps queries) isReported label
      (fun built => .compute (built.map fun p => (p, queries.map (·.answer p.layouts)))) rfl
      (completes_compileCompute label h) rfl hrefused
    exact henacts

/-- A step lives through its bodies, by recursion on the step. -/
theorem enacts_run (tolerant : Bool) (n : Notes) (a : Action) {act : Run Reply}
    (hact : a.run tolerant n = .ok act) (s : Builder × Notes) (hs : s.2.blocks = []) :
    Lives (.action a
      ⟨Reply.ofResult (act.runFrom s).1, (act.runFrom s).2.2.blocks, (act.runFrom s).2.1.remarks⟩)
      s.1.life (act.runFrom s).2.1.life :=
  lifeStory_isTrue.enacts_run tolerant n a hact s hs

/-- Steps take the builder through the life that their transcript tells. -/
theorem Shows.lives {tolerant : Bool} {steps : Script} {s t : Builder × Notes}
    {entries : List Entry} (h : Shows tolerant steps s entries t) :
    Lives (.steps steps entries) s.1.life t.1.life :=
  lifeStory_isTrue.steps_of_shows h

end Script

end WebShader
