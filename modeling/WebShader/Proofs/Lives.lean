import WebShader.Proofs.Scripts

/-!
# Lives of builders

A builder is idle, building or done, and has a stage open or not. A reset makes it idle and closes
its stage; a program is refused unless the builder is idle, and leaves it done; nothing else counts.
A stage that has been closed inside of a program is never open again there, so the program fails,
and a builder that is not idle stays as it is until it is reset.
-/

namespace WebShader

/-- Where a builder is in its life: its phase, and whether it has a stage open. -/
structure Life where
  phase : Phase
  isOpen : Bool
  deriving DecidableEq

/-- Where the builder is in its life. -/
def Builder.life (b : Builder) : Life := ⟨b.phase, b.stage.isSome⟩

/-- The internal error with which a program is refused, unless the builder is idle. -/
def Phase.fault? : Phase → Option InternalFault
  | .idle => none
  | .building => some .reentrant
  | .done => some .needsReset

/-- Unless the builder is idle, a program is refused: nothing of it runs, and nothing changes. -/
theorem Authoring.runFrom_asProgram_of_fault {σ α : Type} (compile : Authoring σ α)
    {s : Builder × σ} {fault : InternalFault} (h : s.1.phase.fault? = some fault) :
    (asProgram compile).runFrom s = (.error (.internal fault), s) := by
  obtain ⟨b, n⟩ := s
  rw [runFrom_asProgram]
  cases hphase : b.phase <;> rw [hphase] at h <;> cases h <;> rfl

namespace Script

/-! ## Actions -/

/-- Whether an action builds a program. -/
def Action.isProgram : Action → Bool
  | render .. | compute .. => true
  | _ => false

/-- Whether an action resets the builder. -/
def Action.isReset : Action → Bool
  | operation .reset _ => true
  | _ => false

/-- What a step shows whose program is refused: it runs none of its bodies, and fails or reports the
internal error. -/
inductive Refused (fault : InternalFault) : Action → Entry → Prop
  | render (label vertex fragment queries log) :
      Refused fault (.render false label vertex fragment queries)
        ⟨.failed (.internal fault), [], log⟩
  | compute (label steps queries log) :
      Refused fault (.compute false label steps queries) ⟨.failed (.internal fault), [], log⟩
  | renderReport {label log} (vertex fragment queries target)
      (h : .error (Authoring.failureReport label target (.internal fault)) ∈ log) :
      Refused fault (.render true label vertex fragment queries) ⟨.render none, [], log⟩
  | computeReport {label log} (steps queries target)
      (h : .error (Authoring.failureReport label target (.internal fault)) ∈ log) :
      Refused fault (.compute true label steps queries) ⟨.compute none, [], log⟩

/-- Only programs are refused. -/
theorem Refused.isProgram {fault : InternalFault} {a : Action} {entry : Entry}
    (h : Refused fault a entry) : a.isProgram = true := by
  cases h <;> rfl

/-- A program that is refused runs no body. -/
theorem Refused.blocks_eq_nil {fault : InternalFault} {a : Action} {entry : Entry}
    (h : Refused fault a entry) : entry.blocks = [] := by
  cases h <;> rfl

/-- A program is no reset. -/
theorem Action.isReset_of_isProgram {a : Action} (h : a.isProgram = true) : a.isReset = false := by
  cases a <;> first | rfl | cases h

/-! ## Courses -/

/-- What a run has gone through: steps, an action, the bodies of an action, or the stages of a
program, complete or not. -/
inductive Course where
  | steps (steps : Script) (entries : List Entry)
  | action (a : Action) (entry : Entry)
  | bodies (bodies : List Script) (blocks : List (List Entry))
  | stages (bodies : List Script) (blocks : List (List Entry)) (isComplete : Bool)

/-- Whether the course is that of all stages of a program. -/
def Course.isComplete : Course → Bool
  | stages _ _ isComplete => isComplete
  | _ => false

/-- The course goes through an action, at any depth. -/
inductive Course.Has (a : Action) (entry : Entry) : Course → Prop
  | self : Has a entry (.action a entry)
  | inside {b e} (h : Has a entry (.bodies b.bodies e.blocks)) : Has a entry (.action b e)
  | here {goesOn b e rest entries} (h : Has a entry (.action b e)) :
      Has a entry (.steps ((goesOn, b) :: rest) (e :: entries))
  | later {step e rest entries} (h : Has a entry (.steps rest entries)) :
      Has a entry (.steps (step :: rest) (e :: entries))
  | first {steps entries rest blocks} (h : Has a entry (.steps steps entries)) :
      Has a entry (.bodies (steps :: rest) (entries :: blocks))
  | next {steps entries rest blocks} (h : Has a entry (.bodies rest blocks)) :
      Has a entry (.bodies (steps :: rest) (entries :: blocks))
  | stage {bodies blocks isComplete} (h : Has a entry (.bodies bodies blocks)) :
      Has a entry (.stages bodies blocks isComplete)

/-- Nothing happens in no bodies. -/
theorem Course.not_has_nil {a : Action} {entry : Entry} (bodies : List Script) :
    ¬(Course.bodies bodies []).Has a entry := by
  intro h
  cases h

/-- The course goes through a reset. -/
def Course.Resets (c : Course) : Prop := ∃ r e, r.isReset = true ∧ c.Has r e

/-- What goes through the actions of a course goes through its resets. -/
theorem Course.Resets.mono {c c' : Course} (h : c.Resets)
    (hc : ∀ {a e}, c.Has a e → c'.Has a e) : c'.Resets := by
  obtain ⟨r, e, hr, hin⟩ := h
  exact ⟨r, e, hr, hc hin⟩

/-! ## Lives -/

/-- Where a course takes a builder from and to. The stages of a program start from a builder that is
building and has no stage open; each opens one and closes it, unless it has been lost. -/
inductive Lives : Course → Life → Life → Prop
  | stop (steps l) : Lives (.steps steps []) l l
  | step {goesOn a entry rest entries l l₁ l₂} (h : Lives (.action a entry) l l₁)
      (hrest : Lives (.steps rest entries) l₁ l₂) :
      Lives (.steps ((goesOn, a) :: rest) (entry :: entries)) l l₂
  | reset {a} (ha : a.isReset = true) (log l) : Lives (.action a ⟨.done, [], log⟩) l ⟨.idle, false⟩
  | within {a blocks l l'} (hprogram : a.isProgram = false) (hreset : a.isReset = false)
      (h : Lives (.bodies a.bodies blocks) l l') (reply log) :
      Lives (.action a ⟨reply, blocks, log⟩) l l'
  | refused {fault a entry} {l : Life} (hfault : l.phase.fault? = some fault)
      (h : Refused fault a entry) : Lives (.action a entry) l l
  | accepted {a reply blocks isComplete l'} (ha : a.isProgram = true)
      (h : Lives (.stages a.bodies blocks isComplete) ⟨.building, false⟩ l')
      (hreply : isComplete = false → reply.succeeds = false) (log isOpen) :
      Lives (.action a ⟨reply, blocks, log⟩) ⟨.idle, isOpen⟩ ⟨.done, false⟩
  | leave (bodies l) : Lives (.bodies bodies []) l l
  | body {steps entries rest blocks l l₁ l₂} (h : Lives (.steps steps entries) l l₁)
      (hrest : Lives (.bodies rest blocks) l₁ l₂) :
      Lives (.bodies (steps :: rest) (entries :: blocks)) l l₂
  | finish (l) : Lives (.stages [] [] true) l l
  | abandon (bodies l) : Lives (.stages bodies [] false) l l
  | kept {steps entries rest blocks isComplete l}
      (h : Lives (.steps steps entries) ⟨.building, true⟩ ⟨.building, true⟩)
      (hrest : Lives (.stages rest blocks isComplete) ⟨.building, false⟩ l) :
      Lives (.stages (steps :: rest) (entries :: blocks) isComplete) ⟨.building, false⟩ l
  | lost {steps entries} {l : Life} (h : Lives (.steps steps entries) ⟨.building, true⟩ l)
      (hl : l.isOpen = false) (rest) :
      Lives (.stages (steps :: rest) [entries] false) ⟨.building, false⟩ l

namespace Lives

variable {c : Course} {l l' : Life} {a : Action} {entry : Entry}

/-- Nothing opens a stage for what comes after it. -/
theorem eq_or_closed (h : Lives c l l') : l' = l ∨ l'.isOpen = false := by
  induction h with
  | stop | leave | finish | abandon | refused => exact Or.inl rfl
  | reset | accepted => exact Or.inr rfl
  | lost h hl => exact Or.inr hl
  | within _ _ _ _ _ ih => exact ih
  | kept _ _ _ ih => exact ih
  | step _ _ ih ih' | body _ _ ih ih' =>
      rcases ih' with rfl | hclosed
      · exact ih
      · exact Or.inr hclosed

/-- A stage that is closed stays closed. -/
theorem closed_of_closed (h : Lives c l l') (hl : l.isOpen = false) : l'.isOpen = false := by
  rcases h.eq_or_closed with rfl | hclosed
  · exact hl
  · exact hclosed

/-- What has gone through a reset has closed the stage, and has not completed a program. -/
theorem closed_of_resets (h : Lives c l l') (hc : c.Resets) :
    l'.isOpen = false ∧ c.isComplete = false := by
  obtain ⟨r, e, hr, hhas⟩ := hc
  -- a reset closes the stage, and nothing after it in the same body opens one again
  induction h with
  | stop | leave => cases hhas
  | finish | abandon => cases hhas with | stage h => cases h
  | reset | accepted => exact ⟨rfl, rfl⟩
  | lost h hl => exact ⟨hl, rfl⟩
  | step hfirst hrest ih ih' =>
      cases hhas with
      | here h => exact ⟨hrest.closed_of_closed (ih h).1, rfl⟩
      | later h => exact ⟨(ih' h).1, rfl⟩
  | within hprogram hreset h _ _ ih =>
      cases hhas with
      | self => exact absurd hr (by simp [hreset])
      | inside h => exact ⟨(ih h).1, rfl⟩
  | refused hfault h =>
      cases hhas with
      | self => exact absurd hr (by simp [Action.isReset_of_isProgram h.isProgram])
      | inside hin =>
          rw [h.blocks_eq_nil] at hin
          exact absurd hin (Course.not_has_nil _)
  | body hfirst hrest ih ih' =>
      cases hhas with
      | first h => exact ⟨hrest.closed_of_closed (ih h).1, rfl⟩
      | next h => exact ⟨(ih' h).1, rfl⟩
  | kept h hrest ih ih' =>
      cases hhas with
      | stage hin =>
          cases hin with
          | first h => cases (ih h).1
          | next h => exact ih' (.stage h)

/-- An action that a course goes through is part of the life. -/
theorem of_has (h : Lives c l l') (hhas : c.Has a entry) :
    ∃ l₁ l₂, Lives (.action a entry) l₁ l₂ := by
  induction h with
  | stop | leave => cases hhas
  | finish | abandon => cases hhas with | stage h => cases h
  | reset hreset log l =>
      cases hhas with
      | self => exact ⟨_, _, .reset hreset log l⟩
      | inside hin => exact absurd hin (Course.not_has_nil _)
  | within hprogram hreset h reply log ih =>
      cases hhas with
      | self => exact ⟨_, _, .within hprogram hreset h reply log⟩
      | inside hin => exact ih hin
  | refused hfault h =>
      cases hhas with
      | self => exact ⟨_, _, .refused hfault h⟩
      | inside hin =>
          rw [h.blocks_eq_nil] at hin
          exact absurd hin (Course.not_has_nil _)
  | accepted ha h hreply log isOpen ih =>
      cases hhas with
      | self => exact ⟨_, _, .accepted ha h hreply log isOpen⟩
      | inside hin => exact ih (.stage hin)
  | step _ _ ih ih' =>
      cases hhas with
      | here h => exact ih h
      | later h => exact ih' h
  | body _ _ ih ih' =>
      cases hhas with
      | first h => exact ih h
      | next h => exact ih' h
  | kept _ _ ih ih' =>
      cases hhas with
      | stage hin =>
          cases hin with
          | first h => exact ih h
          | next h => exact ih' (.stage h)
  | lost _ _ _ ih =>
      cases hhas with
      | stage hin =>
          cases hin with
          | first h => exact ih h
          | next h => exact absurd h (Course.not_has_nil _)

/-- Only an idle builder runs the stages of a program. -/
theorem idle_of_blocks (h : Lives (.action a entry) l l') (ha : a.isProgram = true)
    (hblocks : entry.blocks ≠ []) : l.phase = .idle := by
  cases h with
  | reset hreset =>
      rw [Action.isReset_of_isProgram ha] at hreset
      cases hreset
  | within hprogram =>
      rw [ha] at hprogram
      cases hprogram
  | refused _ h => exact absurd h.blocks_eq_nil hblocks
  | accepted => rfl

/-- A builder that is not idle refuses a program. -/
theorem refused_of_fault (h : Lives (.action a entry) l l') (ha : a.isProgram = true)
    {fault : InternalFault} (hfault : l.phase.fault? = some fault) : Refused fault a entry := by
  cases h with
  | reset hreset =>
      rw [Action.isReset_of_isProgram ha] at hreset
      cases hreset
  | within hprogram =>
      rw [ha] at hprogram
      cases hprogram
  | refused hfault' h =>
      rw [hfault] at hfault'
      cases hfault'
      exact h
  | accepted => cases hfault

/-- A program fails if the builder has been reset in one of its stages. -/
theorem fails_of_resets (h : Lives (.action a entry) l l') (ha : a.isProgram = true)
    (hc : (Course.bodies a.bodies entry.blocks).Resets) : entry.reply.succeeds = false := by
  obtain ⟨r, e, hr, hhas⟩ := hc
  cases h with
  | reset hreset =>
      rw [Action.isReset_of_isProgram ha] at hreset
      cases hreset
  | within hprogram =>
      rw [ha] at hprogram
      cases hprogram
  | refused _ h =>
      rw [h.blocks_eq_nil] at hhas
      exact absurd hhas (Course.not_has_nil _)
  | accepted _ h hreply => exact hreply (h.closed_of_resets ⟨r, e, hr, .stage hhas⟩).2

/-- A builder that is not idle stays as it is until it is reset, and refuses every program. -/
theorem stays (h : Lives c l l') (hl : l.phase ≠ .idle) (hc : ¬c.Resets) :
    l' = l ∧ ∀ a entry, a.isProgram = true → c.Has a entry →
      ∃ fault, l.phase.fault? = some fault ∧ Refused fault a entry := by
  induction h with
  | stop | leave => exact ⟨rfl, fun a entry _ hhas => by cases hhas⟩
  | finish | abandon =>
      refine ⟨rfl, fun a entry _ hhas => ?_⟩
      cases hhas with | stage h => cases h
  | reset ha => exact absurd ⟨_, _, ha, .self⟩ hc
  | accepted => exact absurd rfl hl
  | within hprogram _ _ _ _ ih =>
      obtain ⟨hsame, hall⟩ := ih hl fun h => hc (h.mono fun hin => .inside hin)
      refine ⟨hsame, fun a entry ha hhas => ?_⟩
      cases hhas with
      | self => exact absurd ha (by simp [hprogram])
      | inside h => exact hall a entry ha h
  | refused hfault h =>
      refine ⟨rfl, fun a entry _ hhas => ?_⟩
      cases hhas with
      | self => exact ⟨_, hfault, h⟩
      | inside hin =>
          rw [h.blocks_eq_nil] at hin
          exact absurd hin (Course.not_has_nil _)
  | step _ _ ih ih' =>
      obtain ⟨rfl, hall⟩ := ih hl fun h => hc (h.mono .here)
      obtain ⟨rfl, hall'⟩ := ih' hl fun h => hc (h.mono .later)
      refine ⟨rfl, fun a entry ha hhas => ?_⟩
      cases hhas with
      | here h => exact hall a entry ha h
      | later h => exact hall' a entry ha h
  | body _ _ ih ih' =>
      obtain ⟨rfl, hall⟩ := ih hl fun h => hc (h.mono .first)
      obtain ⟨rfl, hall'⟩ := ih' hl fun h => hc (h.mono .next)
      refine ⟨rfl, fun a entry ha hhas => ?_⟩
      cases hhas with
      | first h => exact hall a entry ha h
      | next h => exact hall' a entry ha h
  | kept _ _ ih ih' =>
      obtain ⟨-, hall⟩ := ih hl fun h => hc (h.mono fun hin => .stage (.first hin))
      obtain ⟨hsame, hall'⟩ := ih' hl fun h => hc <| h.mono fun hin => by
        cases hin with | stage hin => exact .stage (.next hin)
      refine ⟨hsame, fun a entry ha hhas => ?_⟩
      cases hhas with
      | stage hin =>
          cases hin with
          | first h => exact hall a entry ha h
          | next h => exact hall' a entry ha (.stage h)
  | lost _ hclosed _ ih =>
      -- the stage is still open if no reset has been gone through
      obtain ⟨hsame, -⟩ := ih hl fun h => hc (h.mono fun hin => .stage (.first hin))
      rw [hsame] at hclosed
      cases hclosed

end Lives

end Script

end WebShader
