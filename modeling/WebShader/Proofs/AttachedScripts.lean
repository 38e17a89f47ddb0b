import WebShader.Proofs.Conditionals
import WebShader.Proofs.Reports

/-!
# Attached scripts

Only what adds a branch to a conditional can fail for the lack of one, and it finds the conditional
that the first branch has made, whatever the bodies of the branches do. So no step of a script, in
whatever body, ever fails so.
-/

namespace WebShader

namespace Script

open Authoring

variable {branches : List (Value × Run Outcome)} {s : Builder × Notes}

/-! ## Attached transcripts -/

/-- Neither the step nor one in a body that it has run has failed as a detached branch does. -/
inductive Entry.IsAttached : Entry → Prop
  | mk {reply blocks log} (hreply : ∀ e, reply = .failed e → ¬e.IsDetached)
      (hblocks : ∀ block ∈ blocks, ∀ entry ∈ block, IsAttached entry) :
      IsAttached ⟨reply, blocks, log⟩

/-- The steps of the bodies that have been run are attached. -/
def Notes.IsAttached (n : Notes) : Prop := ∀ block ∈ n.blocks, ∀ entry ∈ block, entry.IsAttached

/-- A run has an attached result, and so have the steps of the bodies that it runs. -/
def Attaches {α : Type} (act : Run α) : Prop :=
  ∀ s, s.2.IsAttached → (act.runFrom s).2.2.IsAttached ∧ IsAttached (act.runFrom s).1

/-- Steps are attached, and so is the failure that has stopped them. -/
def ShowsAttached (act : Run Outcome) : Prop :=
  ∀ s, s.2.IsAttached → ∃ entries failure t, act.runFrom s = (.ok (entries, failure), t) ∧
    t.2.IsAttached ∧ (∀ entry ∈ entries, entry.IsAttached) ∧ ∀ e, failure = some e → ¬e.IsDetached

namespace Attaches

variable {α β : Type} {act : Run α}

/-- An operation of the builder with an attached result. -/
theorem lift {act : Build α} (h : ∀ b : Builder, IsAttached (b.run act).1) :
    Attaches (act : Run α) := fun s hs => ⟨hs, h s.1⟩

/-- An ordinary operation of the builder. -/
@[grind ←]
theorem ordinary {act : Build α} (h : Build.IsOrdinary act) : Attaches (act : Run α) :=
  .lift h.attached

/-- Nothing is done. -/
@[grind ←]
protected theorem pure (a : α) : Attaches (pure a : Run α) := fun _ hs => ⟨hs, .ok a⟩

/-- An error, but that of a detached branch. -/
theorem throw {e : ShaderError} (he : ¬e.IsDetached) : Attaches (throw e : Run α) :=
  fun _ hs => ⟨hs, .error he⟩

/-- A check. -/
theorem except {x : Except ShaderError α} (h : IsAttached x) : Attaches (x : Run α) := by
  intro s hs
  rw [runFrom_except]
  exact ⟨hs, h⟩

/-- One after the other. -/
theorem bind {f : α → Run β} (h : Attaches act) (hf : ∀ a, Attaches (f a)) :
    Attaches (act >>= f) := by
  intro s hs
  obtain ⟨hnotes, hresult⟩ := h s hs
  rw [runFrom_bind]
  rcases hrun : act.runFrom s with ⟨e | a, t⟩
  all_goals rw [hrun] at hnotes hresult
  · exact ⟨hnotes, .error (hresult e rfl)⟩
  · exact hf a t hnotes

/-- A note. -/
theorem modifyNotes {g : Notes → Notes} (hg : ∀ n, (g n).blocks = n.blocks) :
    Attaches (modifyNotes g) := by
  refine fun s hs => ⟨?_, .ok ()⟩
  show ∀ block ∈ (g s.2).blocks, _
  rw [hg]
  exact hs

/-- What follows a look at the notes. -/
theorem notes_bind {f : Notes → Run β} (hf : ∀ n, Attaches (f n)) : Attaches (notes >>= f) :=
  fun s hs => hf s.2 s hs

/-- What follows an attempt. -/
theorem attempt_bind {f : Except ShaderError α → Run β} (h : Attaches act)
    (hf : ∀ x, IsAttached x → Attaches (f x)) : Attaches (attempt act >>= f) := by
  intro s hs
  obtain ⟨hnotes, hresult⟩ := h s hs
  rw [runFrom_bind, runFrom_attempt]
  exact hf _ hresult _ hnotes

/-- What follows a scope of its own. -/
theorem inScope_bind (kind : ScopeKind) {f : Except ShaderError α × Frame → Run β}
    (h : Attaches act) (hf : ∀ x g, IsAttached x → Attaches (f (x, g))) :
    Attaches (inScope kind act >>= f) := by
  unfold inScope
  simp only [bind_assoc, pure_bind]
  refine .bind (.ordinary (Build.ordinary_pushScope kind)) fun _ => h.attempt_bind fun x hx => ?_
  exact .bind (.ordinary Build.ordinary_popScope) fun g => hf x g hx

/-- An expression is shown. -/
theorem showExpr (e : Expr) : Attaches (showExpr e) := by
  refine fun s hs => ⟨?_, .ok _⟩
  show ∀ block ∈ (s.2.number e).2.blocks, _
  rw [blocks_number]
  exact hs

/-- A result is shown. -/
@[grind ←]
theorem showResult {act : Build Expr} (h : Build.IsOrdinary act) : Attaches (showResult act) :=
  .bind (.ordinary h) .showExpr

/-- An answer from the builder. -/
@[grind ←]
theorem answer (f : Builder → Reply) : Attaches (answer f) := fun _ hs => ⟨hs, .ok _⟩

/-- What may be missing is shown. -/
@[grind ←]
theorem showOption (find : Builder → Option Expr) : Attaches (showOption find) := by
  have hcurrent : Attaches (Build.current : Run Builder) := fun _ hs => ⟨hs, .ok _⟩
  refine hcurrent.bind fun b => ?_
  split
  · exact .showExpr _
  · exact .pure _

/-- An operation without a result. -/
@[grind ←]
theorem quietly {act : Build Unit} (h : Build.IsOrdinary act) : Attaches (quietly act) :=
  .bind (.ordinary h) fun _ => .pure _

/-- A type is shown. -/
@[grind ←]
theorem showType (shape : TypeShape) : Attaches (Operation.showType shape) :=
  .bind (.ordinary (Build.ordinary_type shape)) fun _ => .answer _

/-- An operation without bodies. -/
theorem operation {n : Notes} {op : Operation} {act : Run Reply} (h : op.action n = .ok act) :
    Attaches act := by
  cases op <;> simp only [Operation.action, bind_eq_ok_iff, pure, Except.pure, Except.ok.injEq] at h
  case reset => exact h ▸ fun _ hs => ⟨hs, .ok _⟩
  all_goals grind

/-- What is run silently. -/
theorem silently {act : Run Unit} (h : Attaches act) : Attaches (silently act) :=
  h.bind fun _ => .pure _

/-- A result is named. -/
theorem named {act : Run Reply} (h : Attaches act) (name : Option String) :
    Attaches (named name act) := by
  refine h.bind fun reply => ?_
  dsimp only
  split
  · exact .bind (.modifyNotes (g := (·.bind _ _)) fun _ => rfl) fun _ => .pure _
  · exact .pure _

end Attaches

/-! ### Operations with bodies -/

section Constructs

variable {α : Type} {block : Run Unit}

/-- A body is run in a scope of its own. -/
theorem Attaches.collect (kind : ScopeKind) (h : Attaches block) :
    Attaches (collect kind block) := by
  refine .inScope_bind kind h fun x g hx => ?_
  cases x with
  | ok _ => exact .pure _
  | error e => exact .throw (hx e rfl)

/-- A statement is recorded. -/
theorem attaches_emit (st : Stmt NodeId) : Attaches (Build.emit st : Run Unit) :=
  .ordinary (Build.ordinary_emit st)

/-- What only functions hold is checked. -/
theorem attaches_requireFunction (what : String) :
    Attaches (Build.requireFunction what : Run Unit) :=
  .ordinary (Build.ordinary_requireFunction what)

/-- A condition is lowered. -/
theorem attaches_condition (v : Value) : Attaches (Build.condition v : Run NodeId) :=
  .ordinary (Build.ordinary_condition v)

/-- A block is attached if its body is. -/
theorem attaches_scope (h : Attaches block) : Attaches (Authoring.scope block) :=
  .bind (attaches_requireFunction _) fun _ => .bind (h.collect _) fun _ => attaches_emit _

/-- A first branch is attached if its body is. -/
theorem attaches_ifThen (v : Value) (h : Attaches block) : Attaches (ifThen v block) :=
  .bind (attaches_requireFunction _) fun _ => .bind (attaches_condition v) fun _ =>
    .bind (h.collect _) fun _ => attaches_emit _

/-- A loop is attached if its body is. -/
theorem attaches_whileDo (v : Value) (h : Attaches block) : Attaches (whileDo v block) :=
  .bind (attaches_requireFunction _) fun _ => .bind (attaches_condition v) fun _ =>
    .bind (h.collect _) fun _ => attaches_emit _

/-- A loop is attached if its body and its condition are. -/
theorem attaches_doWhile {cond : Run Value} (h : Attaches block) (hcond : Attaches cond) :
    Attaches (doWhile block cond) :=
  .bind (attaches_requireFunction _) fun _ => .bind (h.collect _) fun _ =>
    .bind hcond fun v => .bind (attaches_condition v) fun _ => attaches_emit _

/-- A loop over a range is attached if its body is. -/
theorem attaches_forRange (counter : String) (first last : Value) {block : Expr → Run Unit}
    (h : ∀ e, Attaches (block e)) : Attaches (forRange counter first last block) := by
  refine .bind (attaches_requireFunction _) fun _ => ?_
  refine .bind (.ordinary (Build.ordinary_lowerPair _ _)) fun (first, last) => ?_
  refine .bind (.ordinary (Build.ordinary_requireBounds _ _)) fun _ => ?_
  refine .inScope_bind .loop ?_ fun x g hx => ?_
  · exact .bind (.ordinary (Build.ordinary_newVar _ _ _ _)) fun x =>
      .bind (h x.2) fun _ => .pure _
  · cases x with
    | ok v => exact attaches_emit _
    | error e => exact .throw (hx e rfl)

/-- A function is attached if its body is. -/
theorem attaches_func (name : String) (params : List (String × TypeShape))
    {block : List Expr → Run Unit} (h : ∀ es, Attaches (block es)) :
    Attaches (func name params block) := by
  refine .bind (.ordinary (Build.ordinary_checkFunctionName _)) fun _ => ?_
  refine .bind (.ordinary (Build.ordinary_paramTypes _ _)) fun types => ?_
  refine .bind (.ordinary Build.ordinary_stage) fun st => ?_
  refine .bind (.ordinary (Build.ordinary_requireNewParams _ _ _)) fun _ => ?_
  refine .inScope_bind _ ?_ fun x g hx => ?_
  · exact .bind (.ordinary (Build.ordinary_declareParams _)) fun _ => .bind (h _) fun _ => .pure _
  · cases x with
    | ok vars =>
        exact .bind (.ordinary (Build.ordinary_resultType _ _)) fun t =>
          .ordinary (Build.ordinary_addFunction _)
    | error e => exact .throw (hx e rfl)

/-- An entry point is attached if its body is. -/
theorem attaches_main (h : Attaches block) : Attaches (Authoring.main block) := by
  have hrest : Attaches (do
      let body ← Authoring.collect (.function true none) block
      Build.modifyStage fun s => { s with main := some body }) :=
    .bind (h.collect _) fun _ => .ordinary (Build.ordinary_modifyStage _)
  refine .bind (.ordinary (Build.ordinary_requireGlobal _)) fun _ => ?_
  refine .bind (.ordinary Build.ordinary_stage) fun st => ?_
  dsimp only
  split
  · exact .bind (.throw (by grind)) fun _ => hrest
  · exact hrest

/-! ### Programs -/

/-- A stage is attached if its body is. -/
theorem attaches_stage (which : Stage) (earlier : List VarId) (h : Attaches block) :
    Attaches (stage which earlier block) :=
  .bind (.ordinary (Build.ordinary_openStage which earlier)) fun _ =>
    .bind h fun _ => .ordinary (Build.ordinary_closeStage which)

/-- A program is attached if its compilation is. -/
theorem attaches_asProgram {compile : Run α} (h : Attaches compile) :
    Attaches (asProgram compile) := by
  refine .bind (.ordinary Build.ordinary_start) fun _ => h.attempt_bind fun x hx => ?_
  refine .bind (.ordinary Build.ordinary_finish) fun _ => ?_
  cases x with
  | ok program => exact .pure _
  | error e => exact .throw (hx e rfl)

/-- The resources of a program are bound. -/
theorem attaches_bindStages (stages : List BuiltStage) :
    Attaches (Build.bindStages stages : Run Binding.Plan) :=
  .ordinary (Build.ordinary_bindStages stages)

/-- The builder is looked at. -/
theorem attaches_current : Attaches (Build.current : Run Builder) := fun _ hs => ⟨hs, .ok _⟩

/-- A program that draws is attached if both of its bodies are. -/
theorem attaches_render (label : String) {vertex fragment : Run Unit} (hv : Attaches vertex)
    (hf : Attaches fragment) : Attaches (render label vertex fragment) := by
  refine attaches_asProgram (.bind (attaches_stage _ _ hv) fun v => ?_)
  refine .bind (attaches_stage _ _ hf) fun f => .bind (attaches_bindStages _) fun plan => ?_
  refine .bind attaches_current fun b => .bind (.except (attached_source b plan v)) fun _ => ?_
  refine .bind (.except (attached_source b plan f)) fun _ => ?_
  exact .bind (.except (Binding.attached_layouts plan b.types label)) fun _ => .pure _

/-- A program that computes is attached if its body is. -/
theorem attaches_compute (label : String) (h : Attaches block) :
    Attaches (Authoring.compute label block) := by
  refine attaches_asProgram (.bind (.ordinary (Build.ordinary_require _)) fun _ => ?_)
  refine .bind (attaches_stage _ _ h) fun c => .bind (attaches_bindStages _) fun plan => ?_
  refine .bind attaches_current fun b => .bind (.except (attached_source b plan c)) fun _ => ?_
  exact .bind (.except (Binding.attached_layouts plan b.types label)) fun _ => .pure _

/-- A program is attached, reported or not. -/
theorem attaches_program (isReported : Bool) (label : String) {build : Run α} (h : Attaches build) :
    Attaches (program isReported label build) := by
  intro s hs
  obtain ⟨hnotes, hresult⟩ := h s hs
  rw [runFrom_program]
  rcases hrun : build.runFrom s with ⟨e | p, t⟩
  all_goals rw [hrun] at hnotes hresult
  -- an overflow is no report: it ends the program whoever asked for it
  · cases e with
    | overflow => exact ⟨hnotes, .error (hresult _ rfl)⟩
    | _ =>
        cases isReported with
        | true => exact ⟨hnotes, .ok _⟩
        | false => exact ⟨hnotes, .error (hresult _ rfl)⟩
  · cases isReported with
    | true => exact ⟨hnotes, .ok _⟩
    | false => exact ⟨hnotes, .ok _⟩

end Constructs

/-! ### Branches -/

section Branches

variable {α : Type} {block : Run Unit}

/-- Where a conditional ends the scope, a branch that is added to it is attached. -/
theorem attached_extendLast {act : Run α} {failure : InternalFault}
    {change : α → Stmt NodeId → Option (Stmt NodeId)} (h : Attaches act) (hs : s.2.IsAttached)
    (hopen : ∀ a t, act.runFrom s = (.ok a, t) → t.1.IsExtendable)
    (hchange : ∀ a branches, ∃ st, change a (.conditional branches none) = some st)
    {x : Except ShaderError Unit} {t : Builder × Notes}
    (hrun : (act >>= fun a => Build.extendLast failure (change a)).runFrom s = (x, t)) :
    t.2.IsAttached ∧ IsAttached x := by
  obtain ⟨hnotes, hresult⟩ := h s hs
  rw [runFrom_bind] at hrun
  rcases hact : act.runFrom s with ⟨e | a, s₁⟩
  all_goals rw [hact] at hnotes hresult hrun
  · cases hrun
    exact ⟨hnotes, .error (hresult e rfl)⟩
  -- the bodies are run before the conditional is looked for, so that it must outlast them
  · cases hrun
    refine ⟨hnotes, fun e he => ?_⟩
    have hstage := (hopen a s₁ hact).eq_noStage (Prod.ext he rfl) (hchange a)
    rw [hstage]
    grind

/-- A later branch is attached. -/
theorem attached_elseIf {v : Value} (h : Attaches block) (hnests : Follows Builder.Nests block)
    (hs : s.2.IsAttached) (hopen : s.1.IsExtendable) {x : Except ShaderError Unit}
    {t : Builder × Notes} (hrun : (elseIf v block).runFrom s = (x, t)) :
    t.2.IsAttached ∧ IsAttached x := by
  obtain ⟨hnotes, hresult⟩ := attaches_condition v s hs
  have hcondition := Build.follows_condition (R := Builder.Spares) v s.1
  unfold elseIf at hrun
  rw [runFrom_bind] at hrun
  rcases hcond : runFrom (Build.condition v : Run NodeId) s with ⟨e | c, s₁⟩
  all_goals rw [hcond] at hnotes hresult hrun
  · cases hrun
    exact ⟨hnotes, .error (hresult e rfl)⟩
  · rw [run_of_runFrom hcond] at hcondition
    have hopen₁ : s₁.1.IsExtendable := hopen.restored (hcondition.mono IsStageOrder.of_adds)
    refine attached_extendLast (h.collect .branch) hnotes (fun body s₂ hcollect => ?_) ?_ hrun
    · exact isExtendable_of_collect .branch hnests hopen₁ hcollect
    · exact fun body branches => ⟨_, rfl⟩

/-- The last branch is attached. -/
theorem attached_otherwise (h : Attaches block) (hnests : Follows Builder.Nests block)
    (hs : s.2.IsAttached) (hopen : s.1.IsExtendable) {x : Except ShaderError Unit}
    {t : Builder × Notes} (hrun : (otherwise block).runFrom s = (x, t)) :
    t.2.IsAttached ∧ IsAttached x := by
  refine attached_extendLast (h.collect .branch) hs (fun body s₁ hcollect => ?_) ?_ hrun
  · exact isExtendable_of_collect .branch hnests hopen hcollect
  · exact fun body branches => ⟨_, rfl⟩

/-- The later branches are attached and leave the conditional there. -/
theorem attached_branches
    (h : ∀ p ∈ branches, Attaches (body p.2) ∧ Follows Builder.Nests (body p.2))
    (hs : s.2.IsAttached) (hopen : s.1.IsExtendable) {x : Except ShaderError PUnit}
    {t : Builder × Notes}
    (hrun : (branches.forM fun p => elseIf p.1 (body p.2)).runFrom s = (x, t)) :
    t.2.IsAttached ∧ IsAttached x ∧ (x = .ok ⟨⟩ → t.1.IsExtendable) := by
  -- by induction on the branches: each leaves the conditional where the next one finds it
  induction branches generalizing s with
  | nil =>
      cases hrun
      exact ⟨hs, .ok _, fun _ => hopen⟩
  | cons p branches ih =>
      obtain ⟨⟨hp, hnests⟩, hrest⟩ := List.forall_mem_cons.mp h
      rw [List.forM, runFrom_bind] at hrun
      rcases hfirst : (elseIf p.1 (body p.2)).runFrom s with ⟨e | _, s₁⟩
      all_goals
        rw [hfirst] at hrun
        obtain ⟨hnotes, hresult⟩ := attached_elseIf hp hnests hs hopen hfirst
      · cases hrun
        exact ⟨hnotes, .error (hresult e rfl), fun hx => by cases hx⟩
      · exact ih hrest hnotes (isExtendable_of_elseIf hfirst) hrun

/-- A conditional is attached: the first branch makes it, and the others find it there. -/
theorem attaches_conditional (v : Value) {steps : Run Outcome} {otherwise : Option (Run Outcome)}
    (hsteps : Attaches (body steps))
    (hbranches : ∀ p ∈ branches, Attaches (body p.2) ∧ Follows Builder.Nests (body p.2))
    (hotherwise : ∀ last, otherwise = some last →
      Attaches (body last) ∧ Follows Builder.Nests (body last)) :
    Attaches (conditional v steps branches otherwise) := by
  intro s hs
  obtain ⟨hnotes, hresult⟩ := attaches_ifThen v hsteps s hs
  unfold conditional
  rw [runFrom_bind]
  rcases hthen : (ifThen v (body steps)).runFrom s with ⟨e | _, s₁⟩
  all_goals rw [hthen] at hnotes hresult
  · exact ⟨hnotes, .error (hresult e rfl)⟩
  · have hopen := isExtendable_of_ifThen hthen
    dsimp only
    rw [runFrom_bind]
    rcases hrest : (branches.forM fun p => elseIf p.1 (body p.2)).runFrom s₁ with ⟨e | _, s₂⟩
    all_goals
      obtain ⟨hnotes₂, hresult₂, hopen₂⟩ := attached_branches hbranches hnotes hopen hrest
    · exact ⟨hnotes₂, .error (hresult₂ e rfl)⟩
    · cases otherwise with
      | none => exact ⟨hnotes₂, .ok _⟩
      | some last =>
          obtain ⟨hlast, hnests⟩ := hotherwise last rfl
          exact attached_otherwise hlast hnests hnotes₂ (hopen₂ rfl) rfl

end Branches

/-! ### Steps -/

namespace ShowsAttached

variable {act : Run Outcome} (h : ShowsAttached act)

include h

/-- A body is attached. -/
theorem body : Attaches (body act) := by
  intro s hs
  obtain ⟨entries, failure, t, hrun, hnotes, hentries, hfailure⟩ := h s hs
  rw [runFrom_body, hrun]
  refine ⟨List.forall_mem_append.mpr ⟨hs, List.forall_mem_singleton.mpr hentries⟩, ?_⟩
  cases failure with
  | none => exact .ok ()
  | some e => exact .error (hfailure e rfl)

/-- A condition is attached. -/
theorem condition (cond : Operand) : Attaches (condition act cond) := by
  refine h.body.bind fun _ => .notes_bind fun n => ?_
  split
  · exact .pure _
  · exact .pure _

/-- The body of a loop is attached. -/
theorem loopBody (counter : String) (e : Expr) : Attaches (loopBody counter act e) :=
  .bind (.modifyNotes (g := (·.bind counter e)) fun _ => rfl) fun _ => h.body

/-- The body of a function is attached. -/
theorem functionBody (names : List String) (params : List Expr) :
    Attaches (functionBody names act params) :=
  .bind (.modifyNotes fun n => blocks_bindAll n _) fun _ => h.body

end ShowsAttached

/-- An action that succeeds does not reply with a failure. -/
def Answers (act : Run Reply) : Prop :=
  ∀ s reply t, act.runFrom s = (.ok reply, t) → ∀ e, reply ≠ .failed e

namespace Answers

variable {α : Type}

/-- The last part of an action replies. -/
@[grind ←]
theorem bind {act : Run α} {f : α → Run Reply} (hf : ∀ a, Answers (f a)) : Answers (act >>= f) := by
  intro s reply t hrun
  obtain ⟨a, s₁, -, hrun⟩ := runFrom_bind_eq_ok_iff.mp hrun
  exact hf a s₁ reply t hrun

/-- A reply that is no failure. -/
@[grind ←]
protected theorem pure {reply : Reply} (h : ∀ e, reply ≠ .failed e) :
    Answers (pure reply : Run Reply) := by
  intro s reply' t hrun
  cases hrun
  exact h

/-- An expression is shown. -/
theorem showExpr (e : Expr) : Answers (showExpr e) :=
  .bind fun _ => .bind fun _ => .bind fun _ => .pure fun _ h => by cases h

/-- A result is shown. -/
@[grind ←]
theorem showResult (act : Build Expr) : Answers (showResult act) := .bind .showExpr

/-- What may be missing is shown. -/
@[grind ←]
theorem showOption (find : Builder → Option Expr) : Answers (showOption find) := by
  refine .bind fun b => ?_
  split
  · exact .showExpr _
  · exact .pure fun _ h => by cases h

/-- Nothing is given. -/
@[grind ←]
theorem quietly (act : Build Unit) : Answers (quietly act) :=
  .bind fun _ => .pure fun _ h => by cases h

/-- An answer from the builder. -/
@[grind ←]
theorem answer {f : Builder → Reply} (h : ∀ b e, f b ≠ .failed e) : Answers (answer f) :=
  .bind fun b => .pure (h b)

/-- A type is shown. -/
@[grind ←]
theorem showType (shape : TypeShape) : Answers (Operation.showType shape) :=
  .bind fun _ => .answer fun _ _ h => by cases h

/-- An operation of its own. -/
theorem operation {n : Notes} {op : Operation} {act : Run Reply} (h : op.action n = .ok act) :
    Answers act := by
  cases op <;> simp only [Operation.action, bind_eq_ok_iff, pure, Except.pure, Except.ok.injEq] at h
  case reset => exact h ▸ .bind fun _ => .quietly _
  all_goals grind

/-- A result that is named. -/
theorem named {act : Run Reply} (h : Answers act) (name : Option String) :
    Answers (named name act) := by
  intro s reply t hrun
  obtain ⟨reply', s₁, hact, hrun⟩ := runFrom_bind_eq_ok_iff.mp hrun
  have hreply : reply = reply' := by
    dsimp only at hrun
    split at hrun
    · obtain ⟨_, s₂, -, hrun⟩ := runFrom_bind_eq_ok_iff.mp hrun
      exact (Except.ok.inj (congrArg (·.1) hrun)).symm
    · exact (Except.ok.inj (congrArg (·.1) hrun)).symm
  exact hreply ▸ h s reply' s₁ hact

/-- What is run silently. -/
theorem silently (act : Run Unit) : Answers (silently act) :=
  .bind fun _ => .pure fun _ h => by cases h

/-- No action replies with a failure. -/
theorem run {tolerant : Bool} {n : Notes} {a : Action} {act : Run Reply}
    (h : a.run tolerant n = .ok act) : Answers act := by
  cases a with
  | operation op name =>
      obtain ⟨act', hop, rfl⟩ := map_eq_ok_iff.mp h
      exact (operation hop).named _
  | render | compute | func =>
      rw [← Except.ok.inj h]
      exact .bind fun _ => .pure fun _ h => by cases h
  | main | scope | doWhile =>
      rw [← Except.ok.inj h]
      exact .silently _
  | conditional | forRange =>
      obtain ⟨_, -, h⟩ := bind_eq_ok_iff.mp h
      obtain ⟨_, -, h⟩ := bind_eq_ok_iff.mp h
      rw [← Except.ok.inj h]
      exact .silently _
  | whileDo =>
      obtain ⟨_, -, h⟩ := bind_eq_ok_iff.mp h
      rw [← Except.ok.inj h]
      exact .silently _

end Answers

/-- A step is attached, and so is the failure with which it stops the others. -/
theorem attached_record (goesOn : Bool) {act : Except String (Run Reply)}
    (hact : ∀ run, act = .ok run → Attaches run) (hanswers : ∀ run, act = .ok run → Answers run)
    (s : Builder × Notes) :
    ∃ entry failure t, (record goesOn act).runFrom s = (.ok (entry, failure), t) ∧
      t.2.IsAttached ∧ entry.IsAttached ∧ ∀ e, failure = some e → ¬e.IsDetached := by
  have hbegun : (begun s).2.IsAttached := fun block hblock => by cases hblock
  cases act with
  | error name =>
      have hentry : Entry.IsAttached ⟨.unbound name, [], s.1.remarks⟩ :=
        ⟨fun _ h => (by cases h), hbegun⟩
      exact ⟨_, _, _, runFrom_record_unbound goesOn name s, hbegun, hentry, fun _ h => by cases h⟩
  | ok act =>
      obtain ⟨hnotes, hresult⟩ := hact act rfl (begun s) hbegun
      rw [runFrom_record]
      rcases hrun : act.runFrom (begun s) with ⟨e | reply, t⟩
      all_goals rw [hrun] at hnotes hresult
      -- the same error is the reply and the failure that stops the steps
      · have he : ¬e.IsDetached := hresult e rfl
        refine ⟨_, _, _, rfl, hnotes, ⟨fun e' he' => ?_, hnotes⟩, fun e' he' => ?_⟩
        · cases he'
          exact he
        · cases goesOn with
          | true => cases he'
          | false =>
              cases he'
              exact he
      · refine ⟨_, _, _, rfl, hnotes, ⟨fun e he => ?_, hnotes⟩, fun _ h => by cases h⟩
        exact absurd he (hanswers act rfl _ _ _ hrun e)

/-- The steps of a script are attached if its first action is and the others are. -/
theorem showsAttached_cons {tolerant goesOn : Bool} {a : Action} {rest : Script}
    (h : ∀ n act, a.run tolerant n = .ok act → Attaches act)
    (hrest : ShowsAttached (runAll tolerant rest)) :
    ShowsAttached (runAll tolerant ((goesOn, a) :: rest)) := by
  intro s hs
  obtain ⟨entry, failure, t, hrecord, hnotes, hentry, hfailure⟩ :=
    attached_record (tolerant || goesOn) (fun act hact => h s.2 act hact)
      (fun act hact => .run hact) s
  cases failure with
  | some e =>
      exact ⟨_, _, t, runFrom_runAll_cons_of_some hrecord rest, hnotes,
        List.forall_mem_singleton.mpr hentry, hfailure⟩
  | none =>
      obtain ⟨entries, failure, t', hrun, hnotes', hentries, hfailure⟩ := hrest t hnotes
      exact ⟨_, failure, t', runFrom_runAll_cons hrecord hrun, hnotes',
        List.forall_mem_cons.mpr ⟨hentry, hentries⟩, hfailure⟩

mutual

/-- An action is attached, by recursion on the action. -/
theorem attaches_run (tolerant : Bool) (n : Notes) (a : Action) {act : Run Reply}
    (hact : a.run tolerant n = .ok act) : Attaches act :=
  match a with
  | .operation op name => by
      obtain ⟨act', hop, rfl⟩ := map_eq_ok_iff.mp hact
      exact (Attaches.operation hop).named _
  | .render isReported label vertex fragment queries => by
      rw [← Except.ok.inj hact]
      have hv := showsAttached_runAll tolerant vertex
      have hf := showsAttached_runAll tolerant fragment
      exact .bind (attaches_program _ _ (attaches_render label hv.body hf.body)) fun _ => .pure _
  | .compute isReported label steps queries => by
      rw [← Except.ok.inj hact]
      have hsteps := showsAttached_runAll tolerant steps
      exact .bind (attaches_program _ _ (attaches_compute label hsteps.body)) fun _ => .pure _
  | .func name params steps => by
      rw [← Except.ok.inj hact]
      have hsteps := showsAttached_runAll tolerant steps
      exact .bind (attaches_func name params fun es => hsteps.functionBody _ es) fun _ => .pure _
  | .main steps => by
      rw [← Except.ok.inj hact]
      have hsteps := showsAttached_runAll tolerant steps
      exact (attaches_main hsteps.body).silently
  | .scope steps => by
      rw [← Except.ok.inj hact]
      have hsteps := showsAttached_runAll tolerant steps
      exact (attaches_scope hsteps.body).silently
  | .conditional cond steps branches otherwise => by
      obtain ⟨c, -, hact⟩ := bind_eq_ok_iff.mp hact
      obtain ⟨values, hvalues, hact⟩ := bind_eq_ok_iff.mp hact
      rw [← Except.ok.inj hact]
      have hsteps := showsAttached_runAll tolerant steps
      have hbranches := showsAttached_branches tolerant branches
      have hlast := showsAttached_optional tolerant otherwise
      refine (attaches_conditional c hsteps.body (fun p hp => ?_) fun last h => ?_).silently
      · obtain ⟨steps', hsteps', hp⟩ := exists_of_mem_branchValues hvalues hp
        exact hp ▸ ⟨(hbranches steps' hsteps').body, nests_body tolerant steps'⟩
      · cases otherwise with
        | none => cases h
        | some steps' =>
            obtain rfl := Option.some.inj h
            exact ⟨(hlast steps' rfl).body, nests_body tolerant steps'⟩
  | .forRange counter first last steps => by
      obtain ⟨v, -, hact⟩ := bind_eq_ok_iff.mp hact
      obtain ⟨w, -, hact⟩ := bind_eq_ok_iff.mp hact
      rw [← Except.ok.inj hact]
      have hsteps := showsAttached_runAll tolerant steps
      exact (attaches_forRange counter v w fun e => hsteps.loopBody counter e).silently
  | .whileDo cond steps => by
      obtain ⟨c, -, hact⟩ := bind_eq_ok_iff.mp hact
      rw [← Except.ok.inj hact]
      have hsteps := showsAttached_runAll tolerant steps
      exact (attaches_whileDo c hsteps.body).silently
  | .doWhile steps before cond => by
      rw [← Except.ok.inj hact]
      have hsteps := showsAttached_runAll tolerant steps
      have hbefore := showsAttached_runAll tolerant before
      exact (attaches_doWhile hsteps.body (hbefore.condition cond)).silently
termination_by structural a

/-- The steps of a script are attached, by recursion on the list. -/
theorem showsAttached_runAll (tolerant : Bool) (steps : List (Bool × Action)) :
    ShowsAttached (runAll tolerant steps) :=
  match steps with
  | [] => fun s hs => ⟨[], none, s, rfl, hs, List.forall_mem_nil _, fun _ h => by cases h⟩
  | (_, a) :: rest =>
      have hrest := showsAttached_runAll tolerant rest
      showsAttached_cons (fun n _ hact => attaches_run tolerant n a hact) hrest
termination_by structural steps

/-- The bodies of branches are attached, by recursion on the list. -/
theorem showsAttached_branches (tolerant : Bool)
    (branches : List (Operand × List (Bool × Action))) :
    ∀ steps ∈ branches.map (·.2), ShowsAttached (runAll tolerant steps) :=
  match branches with
  | [] => List.forall_mem_nil _
  | (_, steps) :: rest =>
      List.forall_mem_cons.mpr
        ⟨showsAttached_runAll tolerant steps, showsAttached_branches tolerant rest⟩
termination_by structural branches

/-- The body of a last branch is attached. -/
theorem showsAttached_optional (tolerant : Bool) (otherwise : Option (List (Bool × Action))) :
    ∀ steps, otherwise = some steps → ShowsAttached (runAll tolerant steps) :=
  match otherwise with
  | none => fun _ h => by cases h
  | some steps => fun _ h => Option.some.inj h ▸ showsAttached_runAll tolerant steps
termination_by structural otherwise

end

/-- No step of a script, at any depth, fails for a branch that has no conditional to join. -/
theorem transcript_attached (config : Config) (tolerant : Bool) (steps : Script) :
    ∀ entry ∈ transcript config tolerant steps, entry.IsAttached := by
  have hnew : Notes.IsAttached {} := fun block hblock => by cases hblock
  obtain ⟨entries, failure, t, hrun, -, hentries, -⟩ :=
    showsAttached_runAll tolerant steps (Builder.new config, {}) hnew
  have hsteps : runAll tolerant steps (Builder.new config, {}) = (.ok (entries, failure), t) := hrun
  rw [transcript, hsteps]
  exact hentries

end Script

end WebShader
