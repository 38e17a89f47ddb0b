import WebShader.Proofs.ScriptLives
import WebShader.Proofs.ScriptReports

/-!
# The life cycle of a builder

One program at a time: a program is only built from an idle builder, another one inside of it is
refused and changes nothing, and once it has ended every further one is refused until the builder is
reset. A program in which the builder is reset fails. A builder that has been reset is as good as a
new one.
-/

namespace WebShader

namespace Script

open Authoring

/-! ## What steps show -/

section Shown

variable {tolerant : Bool} {steps : Script} {s s' t : Builder × Notes} {entries : List Entry}

/-- What a run shows from the start is its transcript. -/
theorem Shows.eq_transcript {config : Config}
    (h : Shows tolerant steps (Builder.new config, {}) entries t) :
    transcript config tolerant steps = entries := by
  obtain ⟨failure, hrun⟩ := h
  have hrun' : runAll tolerant steps (Builder.new config, {}) = (.ok (entries, failure), t) := hrun
  rw [transcript, hrun']

/-- Twin states show the same, but for the report that is kept, and leave twin states. -/
theorem Shows.of_twins (h : Shows tolerant steps s entries t) (hs : Twins s s') :
    ∃ entries' t', Shows tolerant steps s' entries' t' ∧
      List.Forall₂ Entry.Alike entries entries' ∧ Twins t t' := by
  obtain ⟨failure, hrun⟩ := h
  obtain ⟨hresult, ht⟩ := agrees_runAll tolerant steps s s' hs
  rcases hrun' : (runAll tolerant steps).runFrom s' with ⟨x, t'⟩
  rw [hrun, hrun'] at hresult ht
  cases hresult with
  | @ok _ o ho => exact ⟨o.1, t', ⟨o.2, hrun'⟩, ho.1, ht⟩

end Shown

/-! ## Programs that are refused -/

/-- The program that an action builds is compiled as the one program of the builder. -/
theorem exists_program_of_isProgram (tolerant : Bool) (n : Notes) {a : Action}
    (ha : a.isProgram = true) :
    ∃ (α : Type) (isReported : Bool) (label : String) (compile : Run α) (shown : Option α → Reply),
      a.run tolerant n =
        .ok (do return shown (← program isReported label (asProgram compile))) := by
  cases a with
  | render isReported label vertex fragment queries =>
      exact ⟨_, isReported, label, compileRender label _ _, fun built =>
        .render (built.map fun p => (p, queries.map (·.answer p.layouts))), rfl⟩
  | compute isReported label steps queries =>
      exact ⟨_, isReported, label, compileCompute label _, fun built =>
        .compute (built.map fun p => (p, queries.map (·.answer p.layouts))), rfl⟩
  | _ => cases ha

/-- A refused program is a step of its own that leaves a twin of the state before it. -/
theorem runFrom_record_of_fault {tolerant : Bool} {a : Action} (ha : a.isProgram = true)
    {s : Builder × Notes} {fault : InternalFault} (hfault : s.1.phase.fault? = some fault) :
    ∃ entry t, (record true (a.run tolerant s.2)).runFrom s = (.ok (entry, none), t) ∧
      Refused fault a entry ∧ Twins (ended (begun s)) t := by
  obtain ⟨α, isReported, label, compile, shown, hact⟩ :=
    exists_program_of_isProgram tolerant s.2 ha
  have hbegun : (begun s).1.phase.fault? = some fault := hfault
  have hrefused := (enacts_run tolerant s.2 a hact (begun s) rfl).refused_of_fault ha hfault
  rw [hact, runFrom_record]
  rw [runFrom_bind, runFrom_program_of_fault compile hbegun] at hrefused ⊢
  cases isReported with
  | true => exact ⟨_, _, rfl, hrefused, ⟨_, rfl⟩, rfl, rfl, .nil⟩
  | false => exact ⟨_, _, rfl, hrefused, ⟨_, rfl⟩, rfl, rfl, .nil⟩

/-! ## The cycle -/

/-- The life cycle of a builder. What is given to `asProgram` stands for any stages, and steps for
whatever runs in them. -/
structure LifeCycle : Prop where
  lives : ∀ tolerant steps s, ∃ entries t, Shows tolerant steps s entries t ∧
    Lives (.steps steps entries) s.1.life t.1.life
  callbacks : ∀ tolerant goesOn a s entry t, a.isProgram = true →
    Shows tolerant [(goesOn, a)] s [entry] t → entry.blocks ≠ [] → s.1.phase = .idle
  refused : ∀ {σ α : Type} (compile : Authoring σ α) s fault, s.1.phase.fault? = some fault →
    (asProgram compile).runFrom s = (.error (.internal fault), s)
  reported : ∀ {σ α : Type} label (compile : Authoring σ α) s fault,
    s.1.phase.fault? = some fault → (Authoring.reported label (asProgram compile)).runFrom s =
      (.ok none, s.1.withReport (failureReport label s.1.target (.internal fault)), s.2)
  nested : ∀ tolerant a rest s fault, a.isProgram = true → s.1.phase.fault? = some fault →
    ∃ entry entries entries' t t', Shows tolerant rest (ended (begun s)) entries t ∧
      Shows tolerant ((true, a) :: rest) s (entry :: entries') t' ∧
      Refused fault a entry ∧ List.Forall₂ Entry.Alike entries entries' ∧ Twins t t'
  lost : ∀ tolerant steps s entries t, Shows tolerant steps s entries t →
    ∀ a entry, a.isProgram = true → (Course.steps steps entries).Has a entry →
      (Course.bodies a.bodies entry.blocks).Resets → entry.reply.succeeds = false
  ended : ∀ {σ α : Type} (compile : Authoring σ α) s, s.1.phase = .idle →
    ((asProgram compile).runFrom s).2.1.life = ⟨.done, false⟩
  remains : ∀ tolerant steps s entries t, Shows tolerant steps s entries t →
    s.1.phase ≠ .idle → ¬(Course.steps steps entries).Resets → t.1.life = s.1.life ∧
      ∀ a entry, a.isProgram = true → (Course.steps steps entries).Has a entry →
        ∃ fault, s.1.phase.fault? = some fault ∧ Refused fault a entry
  renewed : ∀ tolerant goesOn name steps s, ∃ entries t,
    Shows tolerant ((goesOn, .operation .reset name) :: steps) s
      (⟨.done, [], s.1.remarks⟩ :: entries) t ∧
    List.Forall₂ Entry.Alike (transcript s.1.config tolerant steps) entries

/-- Builders follow the life cycle, whatever is asked of them. -/
theorem builders_follow_life_cycle : LifeCycle where
  lives tolerant steps s := by
    obtain ⟨entries, t, h⟩ := exists_shows tolerant steps s
    exact ⟨entries, t, h, h.lives⟩
  callbacks tolerant goesOn a s entry t ha h hblocks := by
    have hlives := h.lives
    cases hlives with
    | step hstep _ => exact hstep.idle_of_blocks ha hblocks
  refused compile s fault h := runFrom_asProgram_of_fault compile h
  reported label compile s fault h := by
    rw [runFrom_reported, runFrom_asProgram_of_fault compile h]
  nested tolerant a rest s fault ha hfault := by
    -- the rest of the script runs from a twin of the builder that the refused step has left
    obtain ⟨entry, t₀, hrecord, hrefused, htwins⟩ := runFrom_record_of_fault ha hfault
    obtain ⟨entries, t, h⟩ := exists_shows tolerant rest (Script.ended (begun s))
    obtain ⟨entries', t', ⟨failure, hrun⟩, halike, ht⟩ := h.of_twins htwins
    refine ⟨entry, entries, entries', t, t', h, ⟨failure, ?_⟩, hrefused, halike, ht⟩
    exact runFrom_runAll_cons (by rwa [Bool.or_true]) hrun
  lost tolerant steps s entries t h a entry ha hhas hreset := by
    obtain ⟨l, l', hlives⟩ := h.lives.of_has hhas
    exact hlives.fails_of_resets ha hreset
  ended compile s hidle := by
    obtain ⟨b, n⟩ := s
    have hphase : b.phase = .idle := hidle
    rw [runFrom_asProgram, hphase]
    rfl
  remains tolerant steps s entries t h hphase hreset := h.lives.stays hphase hreset
  renewed tolerant goesOn name steps s := by
    obtain ⟨entries, t, h⟩ := exists_shows tolerant steps (Builder.new s.1.config, {})
    -- a builder after a reset is a new one that recalls the last error
    have htwins : Twins (Builder.new s.1.config, {})
        ((Builder.new s.1.config).recalling s.1.lastError, {}) := ⟨⟨_, rfl⟩, rfl, rfl, .nil⟩
    obtain ⟨entries', t', ⟨failure, hrun⟩, halike, -⟩ := h.of_twins htwins
    rw [h.eq_transcript]
    exact ⟨entries', t', ⟨failure, runFrom_runAll_cons rfl hrun⟩, halike⟩

end Script

end WebShader
