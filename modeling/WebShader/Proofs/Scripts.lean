import WebShader.Proofs.BindingSteps
import WebShader.Proofs.ListTraversal
import WebShader.Proofs.OperationSteps

/-!
# Scripts step by step

A relation that holds along every step of the operations holds along every script, if it holds along
the operations with bodies whenever it holds along their bodies. A program that is built inside
another one is refused, and one that is not leaves no stage behind.
-/

namespace WebShader

namespace Authoring

variable {σ α β : Type}

/-! ## Runs -/

/-- Run from a builder and a state of the author's. -/
def runFrom (act : Authoring σ α) (s : Builder × σ) : Except ShaderError α × (Builder × σ) :=
  StateT.run (m := Id) (ExceptT.run act) s

section Runs

variable (s : Builder × σ)

/-- Nothing is done. -/
@[simp]
theorem runFrom_pure (a : α) : (pure a : Authoring σ α).runFrom s = (.ok a, s) := rfl

/-- An error leaves the state alone. -/
@[simp]
theorem runFrom_throw (e : ShaderError) : (throw e : Authoring σ α).runFrom s = (.error e, s) := rfl

/-- An operation of the builder leaves the state of the author alone. -/
theorem runFrom_lift (act : Build α) (b : Builder) (n : σ) :
    runFrom (act : Authoring σ α) (b, n) = ((b.run act).1, ((b.run act).2, n)) := rfl

/-- The builder is looked at. -/
theorem runFrom_current : runFrom (Build.current : Authoring σ Builder) s = (.ok s.1, s) := rfl

/-- A sequence goes on from the state its first part leaves, unless that part fails. -/
theorem runFrom_bind (act : Authoring σ α) (f : α → Authoring σ β) :
    (act >>= f).runFrom s = match act.runFrom s with
      | (.ok a, s') => (f a).runFrom s'
      | (.error e, s') => (.error e, s') := by
  show StateT.run (m := Id) (ExceptT.run (ExceptT.bind act f)) s = _
  simp only [runFrom, ExceptT.bind, ExceptT.run, ExceptT.mk, bind, StateT.bind, StateT.run]
  cases act s with
  | mk x s' => cases x <;> rfl

/-- Two operations of the builder are run one after the other. -/
theorem runFrom_lift_bind (act : Build α) (f : α → Build β) :
    runFrom ((act >>= f : Build β) : Authoring σ β) s =
      runFrom (do f (← (act : Authoring σ α)) : Authoring σ β) s := by
  obtain ⟨b, n⟩ := s
  rw [runFrom_bind, runFrom_lift, runFrom_lift, Builder.run_bind]
  rcases b.run act with ⟨e | a, b'⟩
  · rfl
  · exact (runFrom_lift (f a) b' n).symm

/-- A sequence succeeds exactly when its first part does and the second part goes on to. -/
theorem runFrom_bind_eq_ok_iff {act : Authoring σ α} {f : α → Authoring σ β} {b : β}
    {s s' : Builder × σ} : (act >>= f).runFrom s = (.ok b, s') ↔
      ∃ a s₁, act.runFrom s = (.ok a, s₁) ∧ (f a).runFrom s₁ = (.ok b, s') := by
  rw [runFrom_bind]
  rcases act.runFrom s with ⟨e | a, s₁⟩
  · simp
  · constructor
    · exact fun h => ⟨a, s₁, rfl, h⟩
    · rintro ⟨a', s₂, hact, h⟩
      obtain ⟨ha, rfl⟩ := Prod.mk.inj hact
      rwa [Except.ok.inj ha]

/-- A sequence fails exactly when its first part does or the second part goes on to. -/
theorem runFrom_bind_eq_error_iff {act : Authoring σ α} {f : α → Authoring σ β} {e : ShaderError}
    {s s' : Builder × σ} : (act >>= f).runFrom s = (.error e, s') ↔ act.runFrom s = (.error e, s') ∨
      ∃ a s₁, act.runFrom s = (.ok a, s₁) ∧ (f a).runFrom s₁ = (.error e, s') := by
  rw [runFrom_bind]
  rcases act.runFrom s with ⟨e' | a, s₁⟩
  · simp
  · constructor
    · exact fun h => Or.inr ⟨a, s₁, rfl, h⟩
    · rintro (hact | ⟨a', s₂, hact, h⟩)
      · cases hact
      · cases hact
        exact h

/-- An operation of the builder has run on it. -/
theorem run_of_runFrom {act : Build α} {s s' : Builder × σ} {x : Except ShaderError α}
    (h : runFrom (act : Authoring σ α) s = (x, s')) : s.1.run act = (x, s'.1) := by
  cases h
  rfl

/-- An attempt always succeeds, with the outcome of what it attempts. -/
theorem runFrom_attempt (act : Authoring σ α) :
    (attempt act).runFrom s = (.ok (act.runFrom s).1, (act.runFrom s).2) := rfl

end Runs

/-! ## Relations along runs -/

/-- The builder a run leaves, failed or not, is related to the one it has started from. -/
def Follows (R : Builder → Builder → Prop) (act : Authoring σ α) : Prop :=
  ∀ s : Builder × σ, R s.1 (act.runFrom s).2.1

namespace Follows

variable {R : Builder → Builder → Prop}

/-- What holds along an operation of the builder holds where a script runs it. -/
@[grind ←]
theorem lift {act : Build α} (h : Build.Follows R act) : Follows R (act : Authoring σ α) :=
  fun s => h s.1

/-- What holds along a run holds along an attempt of it. -/
@[grind ←]
theorem attempt {act : Authoring σ α} (h : Follows R act) : Follows R (attempt act) := h

variable [IsPreorder Builder R]

/-- A reflexive relation holds along nothing. -/
@[grind ←]
protected theorem pure (a : α) : Follows R (pure a : Authoring σ α) := fun s => refl_of R s.1

/-- A reflexive relation holds along an error. -/
@[grind ←]
theorem throw (e : ShaderError) : Follows R (throw e : Authoring σ α) := fun s => refl_of R s.1

/-- A transitive relation holds along one run after the other. -/
@[grind ←]
theorem bind {act : Authoring σ α} {f : α → Authoring σ β} (h : Follows R act)
    (hf : ∀ a, Follows R (f a)) : Follows R (act >>= f) := by
  intro s
  have hact := h s
  rw [runFrom_bind]
  rcases hrun : act.runFrom s with ⟨_ | a, s'⟩
  · rw [hrun] at hact
    exact hact
  · rw [hrun] at hact
    exact trans_of R hact (hf a s')

end Follows

/-! ## Operations of the global scope -/

section Globally

variable {R : Builder → Builder → Prop} {role : Role}

/-- Where a variable of a role may be declared globally, the builder a run leaves is related to the
one it has started from. -/
def FollowsGlobally (R : Builder → Builder → Prop) (role : Role) (act : Authoring σ α) : Prop :=
  ∀ s : Builder × σ, s.1.Takes role → R s.1 (act.runFrom s).2.1

/-- What holds along every run holds along those in the global scope. -/
theorem Follows.globally {act : Authoring σ α} (h : Follows R act) : FollowsGlobally R role act :=
  fun s _ => h s

/-- What holds along an operation of the global scope holds where a script runs it. -/
theorem FollowsGlobally.lift {act : Build α} (h : Build.FollowsGlobally R role act) :
    FollowsGlobally R role (act : Authoring σ α) := fun s hs => h s.1 hs

variable [IsElementary R]

/-- One after the other, in the global scope. -/
theorem FollowsGlobally.bind {act : Authoring σ α} {f : α → Authoring σ β}
    (h : FollowsGlobally R role act) (hf : ∀ a, FollowsGlobally R role (f a)) :
    FollowsGlobally R role (act >>= f) := by
  intro s hs
  have hact := h s hs
  rw [runFrom_bind]
  rcases hrun : act.runFrom s with ⟨_ | a, s'⟩
  · rw [hrun] at hact
    exact hact
  · rw [hrun] at hact
    exact trans_of R hact (hf a s' (IsDeclarative.takes hact hs))

/-- What follows a check that fails, or changes nothing where the global scope is at hand. -/
theorem follows_guard_bind (role : Role) {guard : Build Unit} {f : Unit → Authoring σ β}
    (hguard : ∀ b : Builder, (∃ e, b.run guard = (.error e, b)) ∨
      b.run guard = (.ok (), b) ∧ ∀ s, b.stage = some s → s.frames.length = 1)
    (hrole : role ≠ .workgroup) (hf : FollowsGlobally R role (f ())) :
    Follows R ((guard : Authoring σ Unit) >>= f) := by
  rintro ⟨b, n⟩
  rw [runFrom_bind, runFrom_lift]
  rcases hguard b with ⟨e, hrun⟩ | ⟨hrun, hglobal⟩
  · rw [hrun]
    exact refl_of R b
  · rw [hrun]
    exact hf (b, n) ⟨hglobal, fun h => absurd h hrole⟩

end Globally

/-! ## Scopes -/

section Leaving

variable {b : Builder} {s : OpenStage}

/-- A scope is entered in an open stage. -/
theorem run_pushScope_of_some (hs : b.stage = some s) (kind : ScopeKind) :
    b.run (Build.pushScope kind) = (.ok (), b.withFrame s { kind } s.frames) :=
  Builder.run_modifyStage_of_some hs _

/-- Leaving a scope fails and changes nothing, or gives the scope and leaves those around it. -/
theorem run_popScope_cases (b : Builder) :
    (∃ e, b.run Build.popScope = (.error e, b) ∧ ∀ s, b.stage = some s → s.frames.length ≤ 1) ∨
    ∃ s f g rest, b.stage = some s ∧ s.frames = f :: g :: rest ∧
      b.run Build.popScope = (.ok f, b.withFrame s g rest) := by
  unfold Build.popScope
  rw [Builder.run_bind]
  cases hs : b.stage with
  | none =>
      rw [Builder.run_stage_of_none hs]
      exact Or.inl ⟨_, rfl, by simp⟩
  | some s =>
      rw [Builder.run_stage_of_some hs]
      dsimp only
      split
      · rename_i f g rest hframes
        right
        refine ⟨s, f, g, rest, rfl, hframes, ?_⟩
        rw [Builder.run_bind, Builder.run_modifyStage_of_some hs]
        rfl
      · rename_i hframes
        refine Or.inl ⟨_, rfl, fun s' hs' => ?_⟩
        rw [← Option.some.inj hs']
        match h : s.frames with
        | [] | [_] => simp
        | f :: g :: rest => exact absurd h (hframes f g rest)

end Leaving

end Authoring

/-! ## Programs -/

/-- A builder has the options of another. -/
def Builder.SameConfig (b b' : Builder) : Prop := b'.config = b.config

instance : IsAdditive Builder.SameConfig where
  refl _ := rfl
  trans _ _ _ h h' := Eq.trans h' h
  of_adds _ _ h := h.config

/-- The builder that has opened a stage. -/
def Builder.opened (b : Builder) (which : Stage) : Builder :=
  { b with stage := some { decls := { stage := which } } }

/-- A stage that has just been opened takes inputs. -/
theorem Builder.takes_opened (b : Builder) (which : Stage) :
    (b.opened which).Takes (.input 0 none) := by
  refine ⟨fun s hs => ?_, fun h => by cases h⟩
  rw [← Option.some.inj hs]
  rfl

namespace Build

/-- Binding the resources of a program only adds types. -/
theorem follows_bindStages {R : Builder → Builder → Prop} [IsAdditive R]
    (stages : List BuiltStage) : Follows R (bindStages stages) :=
  .bind .get fun _ => follows_intern fun _ _ => Binding.follows_plan _ _ _

variable {R : Builder → Builder → Prop} [IsStepwise R]

/-- Every operation on an open stage keeps the options. -/
theorem sameConfig_of_follows {α : Type} {act : Build α} (h : Follows R act) :
    Follows Builder.SameConfig act := fun b => IsStepwise.config (h b)

theorem sameConfig_newVar (name : String) (t : TypeId) (role : Role) (init : Option NodeId) :
    Follows Builder.SameConfig (newVar name t role init) := by
  intro b
  rcases run_newVar_cases b name t role init with
    ⟨fault, b', hrun, rfl | ⟨d, rfl⟩⟩ | ⟨s, f, rest, e, -, -, -, hrun⟩
  all_goals
    rw [hrun]
    rfl

theorem sameConfig_modifyStage (f : OpenStage → OpenStage) :
    Follows Builder.SameConfig (modifyStage f) := by
  intro b
  cases hs : b.stage with
  | none =>
      rw [Builder.run_modifyStage_of_none hs]
      rfl
  | some s =>
      rw [Builder.run_modifyStage_of_some hs]
      rfl

theorem sameConfig_inputsFrom (vs : List VarId) :
    Follows Builder.SameConfig (inputsFrom vs) := by
  induction vs with
  | nil => exact .pure _
  | cons out rest ih =>
      unfold inputsFrom
      refine .bind .get fun b => ?_
      split
      · refine .bind (sameConfig_newVar _ _ _ _) fun x => ?_
        exact .bind (sameConfig_modifyStage _) fun _ => ih
      · exact .throw _

/-- Closing a stage fails and keeps the options and the variables, or gives what the stage at hand
has declared. -/
theorem run_closeStage_cases (b : Builder) (which : Stage) :
    (∃ e b', b.run (closeStage which) = (.error e, b') ∧ b'.config = b.config) ∨
      ∃ s main, b.stage = some s ∧ s.main = some main ∧
        b.run (closeStage which) = (.ok ⟨s.decls, main⟩, { b with stage := none }) := by
  unfold closeStage
  rw [Builder.run_bind, Builder.run_get]
  dsimp only
  cases hs : b.stage with
  | none => exact Or.inl ⟨_, b, rfl, rfl⟩
  | some s =>
      dsimp only
      rw [Builder.run_bind, Builder.run_modify]
      dsimp only
      split
      · exact Or.inl ⟨_, _, rfl, rfl⟩
      · cases hmain : s.main with
        | none => exact Or.inl ⟨_, _, rfl, rfl⟩
        | some main => exact Or.inr ⟨s, main, rfl, hmain, rfl⟩

end Build

namespace Authoring

variable {σ α : Type} {R : Builder → Builder → Prop}

/-- A value or a failure that no builder is asked for. -/
theorem runFrom_except (x : Except ShaderError α) (s : Builder × σ) :
    runFrom (x : Authoring σ α) s = (x, s) := by
  cases x <;> rfl

/-- A reflexive relation holds along a check. -/
theorem Follows.except {R : Builder → Builder → Prop} [IsPreorder Builder R]
    (x : Except ShaderError α) : Follows R (x : Authoring σ α) := by
  intro s
  rw [runFrom_except]
  exact refl_of R s.1

section Compilation

variable [IsAdditive R]

/-- What holds along the stages of a program holds along its compilation. -/
theorem follows_compileRender (label : String) {vertex fragment : Authoring σ Unit}
    (hv : Follows R (stage .vertex [] vertex))
    (hf : ∀ outputs, Follows R (stage .fragment outputs fragment)) :
    Follows R (compileRender label vertex fragment) := by
  refine .bind hv fun v => .bind (hf _) fun f => ?_
  refine .bind (.lift (Build.follows_bindStages _)) fun plan => .bind (.lift .get) fun b => ?_
  refine .bind (.except _) fun _ => .bind (.except _) fun _ => .bind (.except _) fun _ => ?_
  exact .pure _

theorem follows_compileCompute (label : String) {body : Authoring σ Unit}
    (h : Follows R (stage .compute [] body)) : Follows R (compileCompute label body) := by
  refine .bind (.lift (Build.follows_require _)) fun _ => .bind h fun c => ?_
  refine .bind (.lift (Build.follows_bindStages _)) fun plan => .bind (.lift .get) fun b => ?_
  refine .bind (.except _) fun _ => .bind (.except _) fun _ => .pure _

end Compilation

/-- A stage is authored from a builder that has just opened it, and closed at the end. -/
theorem runFrom_stage (which : Stage) (earlier : List VarId) (body : Authoring σ Unit)
    (b : Builder) (n : σ) : (stage which earlier body).runFrom (b, n) =
      runFrom (do
        Build.inputsFrom earlier
        body
        Build.closeStage which) (b.opened which, n) := rfl

/-- A stage that has been built was opened and authored, and had an entry point when it was
closed. -/
theorem runFrom_stage_eq_ok {which : Stage} {earlier : List VarId} {body : Authoring σ Unit}
    {s s' : Builder × σ} {built : BuiltStage}
    (h : (stage which earlier body).runFrom s = (.ok built, s')) :
    ∃ b s₂ st main, (s.1.opened which).run (Build.inputsFrom earlier) = (.ok (), b) ∧
      body.runFrom (b, s.2) = (.ok (), s₂) ∧ s₂.1.stage = some st ∧ st.main = some main ∧
      built = ⟨st.decls, main⟩ ∧ s' = ({ s₂.1 with stage := none }, s₂.2) := by
  obtain ⟨b, n⟩ := s
  rw [runFrom_stage] at h
  obtain ⟨_, s₁, hinputs, h⟩ := runFrom_bind_eq_ok_iff.mp h
  obtain ⟨_, s₂, hbody, hclose⟩ := runFrom_bind_eq_ok_iff.mp h
  rw [runFrom_lift] at hinputs hclose
  obtain ⟨hresult, rfl⟩ := Prod.mk.inj hinputs
  obtain ⟨hbuilt, rfl⟩ := Prod.mk.inj hclose
  rcases Build.run_closeStage_cases s₂.1 which with ⟨e, b', hrun, -⟩ | ⟨st, main, hst, hmain, hrun⟩
  · rw [hrun] at hbuilt
    cases hbuilt
  · rw [hrun] at hbuilt ⊢
    exact ⟨_, s₂, st, main, Prod.ext hresult rfl, hbody, hst, hmain, (Except.ok.inj hbuilt).symm,
      rfl⟩

/-- A relation that holds along the opening of a stage and along its body leads to where the stage
is closed. -/
theorem exists_authored_of_stage {R : Builder → Builder → Prop} [IsPreorder Builder R]
    {which : Stage} {earlier : List VarId} {body : Authoring σ Unit} {s s' : Builder × σ}
    {built : BuiltStage}
    (hinputs : R (s.1.opened which) ((s.1.opened which).run (Build.inputsFrom earlier)).2)
    (hbody : Follows R body) (h : (stage which earlier body).runFrom s = (.ok built, s')) :
    ∃ (b : Builder) (st : OpenStage) (main : Block), R (s.1.opened which) b ∧ b.stage = some st ∧
      st.main = some main ∧ built = ⟨st.decls, main⟩ ∧ s'.1 = { b with stage := none } := by
  obtain ⟨b, s₂, st, main, hopen, hrun, hst, hmain, hbuilt, rfl⟩ := runFrom_stage_eq_ok h
  have hauthored := hbody (b, s.2)
  rw [hopen] at hinputs
  rw [hrun] at hauthored
  exact ⟨s₂.1, st, main, trans_of R hinputs hauthored, hst, hmain, hbuilt, rfl⟩

variable [IsStepwise R]

theorem sameConfig_of_follows {act : Authoring σ α} (h : Follows R act) :
    Follows Builder.SameConfig act := fun s => IsStepwise.config (h s)

theorem sameConfig_stage {which : Stage} {earlier : List VarId} {body : Authoring σ Unit}
    (h : Follows R body) : Follows Builder.SameConfig (stage which earlier body) := by
  have hclose : Build.Follows Builder.SameConfig (Build.closeStage which) := by
    intro b
    rcases Build.run_closeStage_cases b which with ⟨e, b', hrun, hconfig⟩ | ⟨s, main, -, -, hrun⟩
    · rw [hrun]
      exact hconfig
    · rw [hrun]
      rfl
  rintro ⟨b, n⟩
  have hconfig := Build.sameConfig_inputsFrom earlier (b.opened which)
  rw [runFrom_stage, runFrom_bind, runFrom_lift]
  rcases hrun : (b.opened which).run (Build.inputsFrom earlier) with ⟨_ | _, b'⟩
  · rw [hrun] at hconfig
    exact hconfig
  · rw [hrun] at hconfig
    have hrest := (sameConfig_of_follows h).bind fun _ => .lift hclose
    exact trans_of Builder.SameConfig hconfig (hrest (b', n))

/-- A program is compiled from an idle builder and leaves no stage behind. -/
theorem runFrom_asProgram (compile : Authoring σ α) (b : Builder) (n : σ) :
    (asProgram compile).runFrom (b, n) = match b.phase with
      | .building => (.error (.internal .reentrant), b, n)
      | .done => (.error (.internal .needsReset), b, n)
      | .idle =>
          let (result, b', n') := compile.runFrom ({ b with phase := .building }, n)
          (result, { b' with stage := none, phase := .done }, n') := by
  unfold asProgram
  rw [runFrom_bind, runFrom_lift]
  unfold Build.start
  rw [Builder.run_bind, Builder.run_get]
  dsimp only
  cases b.phase with
  | building => rfl
  | done => rfl
  | idle =>
      rw [Builder.run_modify]
      dsimp only
      rw [runFrom_bind, runFrom_attempt]
      rcases compile.runFrom ({ b with phase := .building }, n) with ⟨_ | _, b', n'⟩
      · rfl
      · rfl

theorem follows_asProgram {compile : Authoring σ α} (h : Follows Builder.SameConfig compile) :
    Follows R (asProgram compile) := by
  rintro ⟨b, n⟩
  rw [runFrom_asProgram]
  split
  · exact refl_of R b
  · exact refl_of R b
  · exact IsStepwise.of_lost (h ({ b with phase := .building }, n)) rfl

theorem follows_render (label : String) {vertex fragment : Authoring σ Unit}
    (hv : Follows R vertex) (hf : Follows R fragment) :
    Follows R (render label vertex fragment) :=
  follows_asProgram (follows_compileRender label (sameConfig_stage hv) fun _ => sameConfig_stage hf)

theorem follows_compute (label : String) {body : Authoring σ Unit} (h : Follows R body) :
    Follows R (compute label body) :=
  follows_asProgram (follows_compileCompute label (sameConfig_stage h))

end Authoring

/-- The builder that has reported a failure. -/
def Builder.withReport (b : Builder) (report : String) : Builder :=
  { b with lastError := some report, remarks := b.remarks ++ [.error report] }

/-! ## Scripts -/

namespace Script

open Authoring

/-! ### Steps -/

/-- Whether a step has not failed, and has built the program that it should. -/
def Reply.succeeds : Reply → Bool
  | failed _ | render none | compute none => false
  | _ => true

/-- The state in which a step begins. -/
def begun (s : Builder × Notes) : Builder × Notes := (s.1, { s.2 with blocks := [] })

/-- The state a step leaves, its remarks taken. -/
def ended (s : Builder × Notes) : Builder × Notes := ({ s.1 with remarks := [] }, s.2)

/-- A step that refers to nothing is recorded as such. -/
theorem runFrom_record_unbound (goesOn : Bool) (name : String) (s : Builder × Notes) :
    (record goesOn (.error name)).runFrom s =
      (.ok (⟨.unbound name, [], s.1.remarks⟩, none), ended (begun s)) := rfl

/-- A step is recorded with its reply, or with its error. -/
theorem runFrom_record (goesOn : Bool) (act : Run Reply) (s : Builder × Notes) :
    (record goesOn (.ok act)).runFrom s = match act.runFrom (begun s) with
      | (.ok reply, t) => (.ok (⟨reply, t.2.blocks, t.1.remarks⟩, none), ended t)
      | (.error e, t) =>
        (.ok (⟨.failed e, t.2.blocks, t.1.remarks⟩, if goesOn then none else some e), ended t) := by
  show runFrom (modifyNotes _ >>= _) s = _
  rw [runFrom_bind]
  show runFrom (attempt act >>= _) (begun s) = _
  rw [runFrom_bind, runFrom_attempt]
  rcases act.runFrom (begun s) with ⟨e | reply, t⟩ <;> rfl

/-- A step is always recorded. -/
theorem exists_runFrom_record (goesOn : Bool) (act : Except String (Run Reply))
    (s : Builder × Notes) : ∃ result t, (record goesOn act).runFrom s = (.ok result, t) := by
  cases act with
  | error name => exact ⟨_, _, runFrom_record_unbound goesOn name s⟩
  | ok act =>
      rw [runFrom_record]
      rcases act.runFrom (begun s) with ⟨e | reply, t⟩
      · exact ⟨_, _, rfl⟩
      · exact ⟨_, _, rfl⟩

/-- A step that does not stop the others comes before them in the transcript. -/
theorem runFrom_runAll_cons {tolerant goesOn : Bool} {a : Action} {rest : Script}
    {s t t' : Builder × Notes} {entry : Entry} {entries : List Entry}
    {failure : Option ShaderError}
    (h : (record (tolerant || goesOn) (a.run tolerant s.2)).runFrom s = (.ok (entry, none), t))
    (hrest : (runAll tolerant rest).runFrom t = (.ok (entries, failure), t')) :
    (runAll tolerant ((goesOn, a) :: rest)).runFrom s = (.ok (entry :: entries, failure), t') := by
  show runFrom (record (tolerant || goesOn) (a.run tolerant s.2) >>= _) s = _
  rw [runFrom_bind, h]
  show runFrom (runAll tolerant rest >>= _) t = _
  rw [runFrom_bind, hrest]
  rfl

/-- A step that stops the others is the last of the transcript. -/
theorem runFrom_runAll_cons_of_some {tolerant goesOn : Bool} {a : Action} {s t : Builder × Notes}
    {entry : Entry} {e : ShaderError}
    (h : (record (tolerant || goesOn) (a.run tolerant s.2)).runFrom s = (.ok (entry, some e), t))
    (rest : Script) :
    (runAll tolerant ((goesOn, a) :: rest)).runFrom s = (.ok ([entry], some e), t) := by
  show runFrom (record (tolerant || goesOn) (a.run tolerant s.2) >>= _) s = _
  rw [runFrom_bind, h]
  rfl

/-- Steps always have a transcript. -/
theorem exists_runFrom_runAll (tolerant : Bool) (steps : Script) (s : Builder × Notes) :
    ∃ o t, (runAll tolerant steps).runFrom s = (.ok o, t) := by
  induction steps generalizing s with
  | nil => exact ⟨_, s, rfl⟩
  | cons step rest ih =>
      obtain ⟨goesOn, a⟩ := step
      obtain ⟨⟨entry, failure⟩, t, hrecord⟩ :=
        exists_runFrom_record (tolerant || goesOn) (a.run tolerant s.2) s
      cases failure with
      | some e => exact ⟨_, t, runFrom_runAll_cons_of_some hrecord rest⟩
      | none =>
          obtain ⟨o, t', hrest⟩ := ih t
          exact ⟨_, t', runFrom_runAll_cons hrecord hrest⟩

/-! ### Notes -/

section Notes

variable {n n' : Notes}

/-- Names are bound in the notes. -/
theorem exprOf_congr (h : n'.names = n.names) : exprOf n' = exprOf n :=
  funext fun name => by rw [exprOf, exprOf, Notes.find?, Notes.find?, h]

/-- Operands only depend on the names that are bound. -/
theorem value_congr (h : n'.names = n.names) : Operand.value n' = Operand.value n :=
  funext fun v => by cases v <;> simp only [Operand.value, exprOf_congr h]

/-- What an operation does depends on the names that expressions have. -/
theorem Operation.action_congr (h : n'.names = n.names) (op : Operation) :
    op.action n' = op.action n := by
  have hvalue : ∀ v : Operand, v.value n' = v.value n := congrFun (value_congr h)
  cases op <;> simp only [Operation.action, hvalue, exprOf_congr h]

/-- The conditions of branches only depend on the names that are bound. -/
theorem branchValues_congr (h : n'.names = n.names) (branches : List (Operand × Run Outcome)) :
    branchValues n' branches = branchValues n branches := by
  induction branches with
  | nil => rfl
  | cons branch rest ih => rw [branchValues, branchValues, ih, value_congr h]

/-- A step only depends on the names that are bound. -/
theorem Action.run_congr (h : n'.names = n.names) (tolerant : Bool) (a : Action) :
    a.run tolerant n' = a.run tolerant n := by
  cases a with
  | operation op name => rw [Action.run, Action.run, Operation.action_congr h]
  | conditional cond steps branches otherwise =>
      simp only [Action.run, value_congr h, branchValues_congr h]
  | forRange counter first last steps => simp only [Action.run, value_congr h]
  | whileDo cond steps => simp only [Action.run, value_congr h]
  | render | compute | func | main | scope | doWhile => rfl

/-- The number of an expression only depends on what has been shown. -/
theorem number_congr (h : n'.shown = n.shown) (e : Expr) :
    (n'.number e).1 = (n.number e).1 ∧ (n'.number e).2.shown = (n.number e).2.shown := by
  unfold Notes.number
  rw [h]
  cases n.shown.idxOf? e with
  | some i => exact ⟨rfl, h⟩
  | none => exact ⟨rfl, rfl⟩

/-- Numbering an expression binds no name. -/
theorem names_number (n : Notes) (e : Expr) : (n.number e).2.names = n.names := by
  unfold Notes.number
  cases n.shown.idxOf? e <;> rfl

/-- Numbering an expression runs no body. -/
theorem blocks_number (n : Notes) (e : Expr) : (n.number e).2.blocks = n.blocks := by
  unfold Notes.number
  cases n.shown.idxOf? e <;> rfl

/-- Names for the parameters of a function. -/
theorem bindAll_congr (h : n'.names = n.names) (params : List (String × Expr)) :
    (params.foldl (fun n p => n.bind p.1 p.2) n').names =
      (params.foldl (fun n p => n.bind p.1 p.2) n).names := by
  induction params generalizing n n' with
  | nil => exact h
  | cons p params ih => exact ih (by simp only [Notes.bind, h])

/-- Binding names shows nothing. -/
theorem shown_bindAll (n : Notes) (params : List (String × Expr)) :
    (params.foldl (fun n p => n.bind p.1 p.2) n).shown = n.shown := by
  induction params generalizing n with
  | nil => rfl
  | cons p params ih => exact ih (n.bind p.1 p.2)

/-- Binding names runs no body. -/
theorem blocks_bindAll (n : Notes) (params : List (String × Expr)) :
    (params.foldl (fun n p => n.bind p.1 p.2) n).blocks = n.blocks := by
  induction params generalizing n with
  | nil => rfl
  | cons p params ih => exact ih (n.bind p.1 p.2)

end Notes

/-! ### Replies and bodies -/

/-- An expression is shown with its number and its type. -/
theorem runFrom_showExpr (e : Expr) (b : Builder) (n : Notes) : (showExpr e).runFrom (b, n) =
    (.ok (.expr e (n.number e).1 (b.types.display e.type)), b, (n.number e).2) := rfl

/-- A body fails with the failure that has stopped its steps, and keeps their transcript. -/
theorem runFrom_body (steps : Run Outcome) (s : Builder × Notes) :
    (body steps).runFrom s = match steps.runFrom s with
      | (.ok (entries, failure), t) =>
        ((failure.elim (.ok ()) .error : Except ShaderError Unit),
          (t.1, { t.2 with blocks := s.2.blocks ++ [entries] }))
      | (.error e, t) => (.error e, t) := by
  show runFrom (notes >>= _) s = _
  rw [runFrom_bind]
  show runFrom (steps >>= _) s = _
  rw [runFrom_bind]
  rcases steps.runFrom s with ⟨e | ⟨entries, _ | e⟩, t⟩ <;> rfl

/-! ### Programs -/

/-- A failure to build a program is reported and does not count as one, unless it is an overflow. -/
theorem runFrom_reported {σ α : Type} (label : String) (build : Authoring σ α) (s : Builder × σ) :
    (reported label build).runFrom s = match build.runFrom s with
      | (.ok p, t) => (.ok (some p), { t.1 with lastError := none }, t.2)
      | (.error .overflow, t) => (.error .overflow, t)
      | (.error e, t) => (.ok none, t.1.withReport (failureReport label t.1.target e), t.2) := by
  rw [reported, runFrom_bind, runFrom_attempt]
  rcases build.runFrom s with ⟨e | p, t⟩
  · cases e <;> rfl
  · rfl

/-- A program is built, or the failure is reported or passed on. -/
theorem runFrom_program {α : Type} (isReported : Bool) (label : String) (build : Run α)
    (s : Builder × Notes) :
    (program isReported label build).runFrom s = match build.runFrom s, isReported with
      | (.ok p, t), true => (.ok (some p), { t.1 with lastError := none }, t.2)
      | (.ok p, t), false => (.ok (some p), t)
      | (.error .overflow, t), _ => (.error .overflow, t)
      | (.error e, t), true =>
        (.ok none, t.1.withReport (failureReport label t.1.target e), t.2)
      | (.error e, t), false => (.error e, t) := by
  unfold program
  cases isReported with
  | true =>
      rw [if_pos rfl, runFrom_reported]
      rcases build.runFrom s with ⟨e | p, t⟩
      · cases e <;> rfl
      · rfl
  | false =>
      show runFrom (build >>= _) s = _
      rw [runFrom_bind]
      rcases build.runFrom s with ⟨e | p, t⟩
      · cases e <;> rfl
      · rfl

/-! ### Relations along steps -/

/-- The bodies of an action, in the order they are to run in. -/
def Action.bodies : Action → List Script
  | operation _ _ => []
  | render _ _ vertex fragment _ => [vertex, fragment]
  | compute _ _ steps _ | func _ _ steps | main steps | scope steps | forRange _ _ _ steps
  | whileDo _ steps => [steps]
  | conditional _ steps branches otherwise => steps :: (branches.map (·.2) ++ otherwise.toList)
  | doWhile steps before _ => [steps, before]

/-- An operation occurs in an action, at any depth. -/
inductive Action.Has (op : Operation) : Action → Prop
  | self (name : Option String) : Has op (.operation op name)
  | inside {a : Action} {body : Script} {step : Step} :
      body ∈ a.bodies → step ∈ body → Has op step.2 → Has op a

/-- An operation occurs in a script, at any depth. -/
def Has (op : Operation) (steps : Script) : Prop := ∃ step ∈ steps, step.2.Has op

/-- What opens scopes in a script respects a relation of builders if the bodies in it do. -/
structure Respected (R : Builder → Builder → Prop) : Prop where
  func : ∀ name params {body : List Expr → Run Unit}, (∀ es, Follows R (body es)) →
    Follows R (Authoring.func name params body)
  main : ∀ {body : Run Unit}, Follows R body → Follows R (Authoring.main body)
  scope : ∀ {body : Run Unit}, Follows R body → Follows R (Authoring.scope body)
  ifThen : ∀ cond {body : Run Unit}, Follows R body → Follows R (Authoring.ifThen cond body)
  elseIf : ∀ cond {body : Run Unit}, Follows R body → Follows R (Authoring.elseIf cond body)
  otherwise : ∀ {body : Run Unit}, Follows R body → Follows R (Authoring.otherwise body)
  forRange : ∀ counter first last {body : Expr → Run Unit}, (∀ e, Follows R (body e)) →
    Follows R (Authoring.forRange counter first last body)
  whileDo : ∀ cond {body : Run Unit}, Follows R body → Follows R (Authoring.whileDo cond body)
  doWhile : ∀ {body : Run Unit} {cond : Run Value}, Follows R body → Follows R cond →
    Follows R (Authoring.doWhile body cond)

/-- A relation of builders holds along all that scripts of some operations are made of: the
operations, programs whose stages it holds along, and what opens scopes. -/
structure HoldsAlong (R : Builder → Builder → Prop) (P : Operation → Prop) : Prop
    extends Respected R where
  operation : ∀ {n : Notes} {op : Operation} {act : Run Reply}, P op → op.action n = .ok act →
    Follows R act
  render : ∀ label {vertex fragment : Run Unit}, Follows R vertex → Follows R fragment →
    Follows R (Authoring.render label vertex fragment)
  compute : ∀ label {body : Run Unit}, Follows R body → Follows R (Authoring.compute label body)

section Runs

variable {R : Builder → Builder → Prop} [IsAdditive R]

@[grind ←]
theorem follows_notes : Follows R notes := fun s => refl_of R s.1

@[grind ←]
theorem follows_modifyNotes (f : Notes → Notes) : Follows R (modifyNotes f) :=
  fun s => refl_of R s.1

@[grind ←]
theorem follows_showExpr (e : Expr) : Follows R (showExpr e) :=
  .bind follows_notes fun _ => .bind (follows_modifyNotes _) fun _ =>
    .bind (.lift .get) fun _ => .pure _

@[grind ←]
theorem follows_showResult {act : Build Expr} (h : Build.Follows R act) :
    Follows R (showResult act) := .bind (.lift h) follows_showExpr

@[grind ←]
theorem follows_showOption (find : Builder → Option Expr) : Follows R (showOption find) := by
  refine .bind (.lift .get) fun b => ?_
  split
  · exact follows_showExpr _
  · exact .pure _

@[grind ←]
theorem follows_quietly {act : Build Unit} (h : Build.Follows R act) : Follows R (quietly act) :=
  .bind (.lift h) fun _ => .pure _

@[grind ←]
theorem follows_answer (f : Builder → Reply) : Follows R (answer f) :=
  .bind (.lift .get) fun _ => .pure _

@[grind ←]
theorem follows_showType (shape : TypeShape) : Follows R (Operation.showType shape) :=
  .bind (.lift (Build.follows_type shape)) fun _ => follows_answer _

theorem follows_reset {R : Builder → Builder → Prop} [IsStepwise R] : Follows R Script.reset :=
  .bind (follows_modifyNotes _) fun _ => follows_quietly fun _ => IsStepwise.of_lost rfl rfl

/-- Whether an operation may emit statements. -/
def Operation.emits : Operation → Bool
  | .declareLocal _ _ | .declareVar _ _ | .assignNamed _ _ | .assign _ _ | .assignOp _ _ _
  | .assignBuiltin _ _ | .eval _ | .call _ _ | .returnValue _ | .returnVoid | .breakLoop
  | .continueLoop | .discard => true
  | _ => false

/-- The relation holds along every operation without statements but a reset. -/
theorem follows_operation_of_not_emits {R : Builder → Builder → Prop} [IsDeclarative R] {n : Notes}
    {op : Operation} (hop : op ≠ .reset) (hemits : op.emits = false) {act : Run Reply}
    (h : op.action n = .ok act) : Follows R act := by
  cases op with
  | reset => exact absurd rfl hop
  | declareLocal | declareVar | assignNamed | assign | assignOp | assignBuiltin | eval | call
  | returnValue | returnVoid | breakLoop | continueLoop | discard => cases hemits
  | _ =>
      simp only [Operation.action, bind_eq_ok_iff, pure, Except.pure, Except.ok.injEq] at h
      grind

/-- Whether an operation returns from a function. -/
def Operation.isReturn : Operation → Bool
  | .returnValue _ | .returnVoid => true
  | _ => false

/-- The relation holds along every operation but a reset and the returns. -/
theorem follows_operation_of_not_isReturn {R : Builder → Builder → Prop} [IsElementary R]
    {n : Notes} {op : Operation} (hop : op ≠ .reset) (hreturn : op.isReturn = false)
    {act : Run Reply} (h : op.action n = .ok act) : Follows R act := by
  cases op with
  | reset => exact absurd rfl hop
  | returnValue | returnVoid => cases hreturn
  | _ =>
      simp only [Operation.action, bind_eq_ok_iff, pure, Except.pure, Except.ok.injEq] at h
      grind

/-- The relation holds along every operation but a reset. -/
theorem follows_operation_of_ne {R : Builder → Builder → Prop} [IsOperational R] {n : Notes}
    {op : Operation} (hop : op ≠ .reset) {act : Run Reply} (h : op.action n = .ok act) :
    Follows R act := by
  cases hreturn : op.isReturn with
  | false => exact follows_operation_of_not_isReturn hop hreturn h
  | true =>
      cases op <;> cases hreturn
      all_goals
        simp only [Operation.action, bind_eq_ok_iff, pure, Except.pure, Except.ok.injEq] at h
        grind

/-- The relation holds along every operation, if it holds whenever the stage is lost. -/
theorem follows_operation {R : Builder → Builder → Prop} [IsStepwise R] {n : Notes}
    {op : Operation} {act : Run Reply} (h : op.action n = .ok act) : Follows R act := by
  by_cases hop : op = .reset
  · subst hop
    rw [← Except.ok.inj h]
    exact follows_reset
  · exact follows_operation_of_ne hop h

theorem follows_named {act : Run Reply} (h : Follows R act) (name : Option String) :
    Follows R (named name act) := by
  refine .bind h fun reply => ?_
  dsimp only
  split
  · exact .bind (follows_modifyNotes _) fun _ => .pure _
  · exact .pure _

theorem follows_silently {act : Run Unit} (h : Follows R act) : Follows R (silently act) :=
  .bind h fun _ => .pure _

theorem follows_body {steps : Run Outcome} (h : Follows R steps) : Follows R (body steps) := by
  refine .bind follows_notes fun n => .bind h fun (entries, failure) => ?_
  refine .bind (follows_modifyNotes _) fun _ => ?_
  cases failure with
  | some e => exact .throw e
  | none => exact .pure ()

theorem follows_condition {steps : Run Outcome} (h : Follows R steps) (cond : Operand) :
    Follows R (condition steps cond) := by
  refine .bind (follows_body h) fun _ => .bind follows_notes fun n => ?_
  split
  · exact .pure _
  · exact .pure _

theorem follows_reported {α : Type} (label : String) {build : Run α} (h : Follows R build) :
    Follows R (reported label build) := by
  refine .bind h.attempt fun result => ?_
  cases result with
  | ok program => exact .bind (.lift (Build.follows_setLastError _)) fun _ => .pure _
  | error e =>
      have hreport : ∀ e : ShaderError, Follows R (do
          let report := failureReport label (← (Build.current : Run Builder)).target e
          Build.setLastError (some report)
          Build.remark (.error report)
          return (none : Option α)) := fun e =>
        .bind (.lift .get) fun b => .bind (.lift (Build.follows_setLastError _)) fun _ =>
          .bind (.lift (Build.follows_remark _)) fun _ => .pure _
      cases e with
      | overflow => exact .throw _
      | _ => exact hreport _

theorem follows_program {α : Type} (isReported : Bool) (label : String) {build : Run α}
    (h : Follows R build) : Follows R (program isReported label build) := by
  unfold program
  split
  · exact follows_reported label h
  · exact .bind h fun _ => .pure _

theorem follows_record (goesOn : Bool) {act : Except String (Run Reply)}
    (h : ∀ run, act = .ok run → Follows R run) : Follows R (record goesOn act) := by
  refine .bind (follows_modifyNotes _) fun _ => ?_
  have hrest : ∀ x : Reply × Option ShaderError, Follows R (do
      let blocks := (← notes).blocks
      return (⟨x.1, blocks, ← takeRemarks⟩, x.2) : Run (Entry × Option ShaderError)) :=
    fun x => .bind follows_notes fun _ => .bind (.lift Build.follows_takeRemarks) fun _ => .pure _
  cases act with
  | error name => exact .bind (.pure _) hrest
  | ok run =>
      refine .bind (h run rfl).attempt fun result => ?_
      cases result with
      | ok reply => exact hrest (reply, none)
      | error e => exact hrest (.failed e, if goesOn then none else some e)

theorem follows_conditional (h : Respected R) (cond : Value) {steps : Run Outcome}
    {branches : List (Value × Run Outcome)} {otherwise : Option (Run Outcome)}
    (hsteps : Follows R steps) (hbranches : ∀ branch ∈ branches, Follows R branch.2)
    (hotherwise : ∀ last, otherwise = some last → Follows R last) :
    Follows R (conditional cond steps branches otherwise) := by
  refine .bind (h.ifThen cond (follows_body hsteps)) fun _ => .bind ?_ fun _ => ?_
  · induction branches with
    | nil => exact .pure _
    | cons branch branches ih =>
        obtain ⟨hbranch, hrest⟩ := List.forall_mem_cons.mp hbranches
        exact .bind (h.elseIf branch.1 (follows_body hbranch)) fun _ => ih hrest
  · cases otherwise with
    | none => exact .pure _
    | some last => exact h.otherwise (follows_body (hotherwise last rfl))

/-- The branches of a conditional are those of the script. -/
theorem mem_of_branchValues {n : Notes} {branches : List (Operand × Run Outcome)}
    {values : List (Value × Run Outcome)} (h : branchValues n branches = .ok values)
    {branch : Value × Run Outcome} (hbranch : branch ∈ values) :
    ∃ cond, (cond, branch.2) ∈ branches := by
  induction branches generalizing values with
  | nil =>
      rw [← Except.ok.inj h] at hbranch
      cases hbranch
  | cons first branches ih =>
      obtain ⟨value, -, hvalue⟩ := bind_eq_ok_iff.mp h
      obtain ⟨rest, hrest, hvalues⟩ := bind_eq_ok_iff.mp hvalue
      rw [← Except.ok.inj hvalues] at hbranch
      rcases List.mem_cons.mp hbranch with rfl | hbranch
      · exact ⟨first.1, List.mem_cons_self⟩
      · obtain ⟨cond, hcond⟩ := ih hrest hbranch
        exact ⟨cond, List.mem_cons_of_mem _ hcond⟩

end Runs

section Operations

variable {R : Builder → Builder → Prop} {P : Operation → Prop}

mutual

theorem follows_run [IsAdditive R] (h : HoldsAlong R P) (tolerant : Bool) (n : Notes) (a : Action)
    (ha : ∀ op name, a = .operation op name → P op)
    (hbodies : ∀ body ∈ a.bodies, ∀ op, Has op body → P op) {act : Run Reply}
    (hact : a.run tolerant n = .ok act) : Follows R act :=
  match a with
  | .operation op name => by
      rw [Action.run] at hact
      cases hop : op.action n with
      | error e =>
          rw [hop] at hact
          cases hact
      | ok act' =>
          rw [hop] at hact
          rw [← Except.ok.inj hact]
          exact follows_named (h.operation (ha op name rfl) hop) _
  | .render isReported label vertex fragment queries => by
      rw [← Except.ok.inj hact]
      have hv := follows_runAll_of h tolerant vertex (hbodies _ List.mem_cons_self)
      have hf := follows_runAll_of h tolerant fragment
        (hbodies _ (List.mem_cons_of_mem _ List.mem_cons_self))
      refine .bind (follows_program isReported label ?_) fun _ => .pure _
      exact h.render label (follows_body hv) (follows_body hf)
  | .compute isReported label steps queries => by
      rw [← Except.ok.inj hact]
      have hsteps := follows_runAll_of h tolerant steps (hbodies _ List.mem_cons_self)
      refine .bind (follows_program isReported label ?_) fun _ => .pure _
      exact h.compute label (follows_body hsteps)
  | .func name params steps => by
      rw [← Except.ok.inj hact]
      have hsteps := follows_runAll_of h tolerant steps (hbodies _ List.mem_cons_self)
      refine .bind (h.func name params fun es => ?_) fun _ => .pure _
      exact .bind (follows_modifyNotes _) fun _ => follows_body hsteps
  | .main steps => by
      rw [← Except.ok.inj hact]
      have hsteps := follows_runAll_of h tolerant steps (hbodies _ List.mem_cons_self)
      exact follows_silently (h.main (follows_body hsteps))
  | .scope steps => by
      rw [← Except.ok.inj hact]
      have hsteps := follows_runAll_of h tolerant steps (hbodies _ List.mem_cons_self)
      exact follows_silently (h.scope (follows_body hsteps))
  | .conditional cond steps branches otherwise => by
      obtain ⟨c, -, hact⟩ := bind_eq_ok_iff.mp hact
      obtain ⟨values, hvalues, hact⟩ := bind_eq_ok_iff.mp hact
      rw [← Except.ok.inj hact]
      have hsteps := follows_runAll_of h tolerant steps (hbodies _ List.mem_cons_self)
      have hbranches := follows_runBranches h tolerant branches
        fun branch hbranch => hbodies _
          (List.mem_cons_of_mem _ (List.mem_append_left _ (List.mem_map_of_mem hbranch)))
      refine follows_silently (follows_conditional h.toRespected c hsteps ?_
        fun last hlast => follows_runOptional h tolerant otherwise ?_ hlast)
      · intro branch hbranch
        obtain ⟨cond', hmem⟩ := mem_of_branchValues hvalues hbranch
        exact hbranches _ hmem
      · exact fun body hbody => hbodies _
          (List.mem_cons_of_mem _ (List.mem_append_right _ (Option.mem_toList.mpr hbody)))
  | .forRange counter first last steps => by
      obtain ⟨v, -, hact⟩ := bind_eq_ok_iff.mp hact
      obtain ⟨w, -, hact⟩ := bind_eq_ok_iff.mp hact
      rw [← Except.ok.inj hact]
      have hsteps := follows_runAll_of h tolerant steps (hbodies _ List.mem_cons_self)
      refine follows_silently (h.forRange counter v w fun e => ?_)
      exact .bind (follows_modifyNotes _) fun _ => follows_body hsteps
  | .whileDo cond steps => by
      obtain ⟨c, -, hact⟩ := bind_eq_ok_iff.mp hact
      rw [← Except.ok.inj hact]
      have hsteps := follows_runAll_of h tolerant steps (hbodies _ List.mem_cons_self)
      exact follows_silently (h.whileDo c (follows_body hsteps))
  | .doWhile steps before cond => by
      rw [← Except.ok.inj hact]
      have hsteps := follows_runAll_of h tolerant steps (hbodies _ List.mem_cons_self)
      have hbefore := follows_runAll_of h tolerant before
        (hbodies _ (List.mem_cons_of_mem _ List.mem_cons_self))
      exact follows_silently (h.doWhile (follows_body hsteps) (follows_condition hbefore cond))
termination_by structural a

/-- Whatever steps of some operations run, a relation that holds along them holds between the
builder before and the one after. -/
theorem follows_runAll_of [IsAdditive R] (h : HoldsAlong R P) (tolerant : Bool)
    (steps : List (Bool × Action)) (hsteps : ∀ op, Has op steps → P op) :
    Follows R (runAll tolerant steps) :=
  match steps with
  | [] => .pure _
  | (goesOn, a) :: rest => by
      have ha : ∀ op, a.Has op → P op := fun op hop => hsteps op ⟨_, List.mem_cons_self, hop⟩
      have hop : ∀ op name, a = .operation op name → P op :=
        fun op name hop => ha op (hop ▸ .self name)
      have hbodies : ∀ body ∈ a.bodies, ∀ op, Has op body → P op :=
        fun body hbody op ⟨_, hstep, hop⟩ => ha op (.inside hbody hstep hop)
      have hrest := follows_runAll_of h tolerant rest fun op ⟨step, hstep, hop⟩ =>
        hsteps op ⟨step, List.mem_cons_of_mem _ hstep, hop⟩
      refine .bind follows_notes fun n => ?_
      refine .bind (follows_record _ fun act hact => follows_run h tolerant n a hop hbodies hact)
        fun result => ?_
      obtain ⟨entry, failure⟩ := result
      cases failure with
      | some e => exact .pure _
      | none => exact .bind hrest fun _ => .pure _
termination_by structural steps

theorem follows_runBranches [IsAdditive R] (h : HoldsAlong R P) (tolerant : Bool)
    (branches : List (Operand × List (Bool × Action)))
    (hbranches : ∀ branch ∈ branches, ∀ op, Has op branch.2 → P op) :
    ∀ branch ∈ runBranches tolerant branches, Follows R branch.2 :=
  match branches with
  | [] => fun _ hbranch => by cases hbranch
  | (cond, steps) :: rest => by
      rw [List.forall_mem_cons] at hbranches
      have hsteps := follows_runAll_of h tolerant steps hbranches.1
      have hrest := follows_runBranches h tolerant rest hbranches.2
      exact List.forall_mem_cons.mpr ⟨hsteps, hrest⟩
termination_by structural branches

theorem follows_runOptional [IsAdditive R] (h : HoldsAlong R P) (tolerant : Bool)
    (otherwise : Option (List (Bool × Action)))
    (hotherwise : ∀ body ∈ otherwise, ∀ op, Has op body → P op) {last : Run Outcome}
    (hlast : runOptional tolerant otherwise = some last) : Follows R last :=
  match otherwise with
  | none => by cases hlast
  | some steps => by
      rw [← Option.some.inj hlast]
      exact follows_runAll_of h tolerant steps (hotherwise steps rfl)
termination_by structural otherwise

end

end Operations

/-- Whatever steps run, the relation holds between the builder before and the one after. -/
theorem follows_runAll {R : Builder → Builder → Prop} [IsStepwise R] (h : Respected R)
    (tolerant : Bool) (steps : List (Bool × Action)) : Follows R (runAll tolerant steps) := by
  have halong : HoldsAlong R fun _ => True := { h with
    operation := fun _ hact => follows_operation hact
    render := fun label _ _ hv hf => follows_render label hv hf
    compute := fun label _ hbody => follows_compute label hbody }
  exact follows_runAll_of halong tolerant steps fun _ _ => trivial

end Script

end WebShader
