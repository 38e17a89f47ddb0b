import WebShader.Proofs.Reports

/-!
# Scripts and kept reports

Two states that only differ in the report that is kept behave alike: every script shows the same
from both, but for what it is told of the report.
-/

namespace WebShader

namespace Script

open Authoring

/-! ## Transcripts and states -/

/-- The same reply, but for the report that is kept. -/
inductive Reply.Alike : Reply → Reply → Prop
  | same (r : Reply) : Reply.Alike r r
  | lastError (report report' : Option String) :
      Reply.Alike (.lastError report) (.lastError report')

/-- The same transcript of a step and of its bodies, but for the report that is kept. -/
inductive Entry.Alike : Entry → Entry → Prop
  | mk {r r' : Reply} {blocks blocks' : List (List Entry)} (log : List Remark) (hreply : r.Alike r')
      (hblocks : List.Forall₂ (List.Forall₂ Entry.Alike) blocks blocks') :
      Entry.Alike ⟨r, blocks, log⟩ ⟨r', blocks', log⟩

/-- Two states that only differ in the report that is kept, and in what has been shown of it. -/
structure Twins (s s' : Builder × Notes) : Prop where
  builder : ∃ report, s'.1 = s.1.recalling report
  names : s'.2.names = s.2.names
  shown : s'.2.shown = s.2.shown
  blocks : List.Forall₂ (List.Forall₂ Entry.Alike) s.2.blocks s'.2.blocks

/-- The same failure, or results that are related. -/
inductive SameOutcome {α : Type} (Q : α → α → Prop) :
    Except ShaderError α → Except ShaderError α → Prop
  | ok {a a' : α} (h : Q a a') : SameOutcome Q (.ok a) (.ok a')
  | error (e : ShaderError) : SameOutcome Q (.error e) (.error e)

/-- From twin states, two runs end in the same way and leave twin states. -/
def Agrees {α : Type} (Q : α → α → Prop) (act act' : Run α) : Prop :=
  ∀ s s', Twins s s' → SameOutcome Q (act.runFrom s).1 (act'.runFrom s').1 ∧
    Twins (act.runFrom s).2 (act'.runFrom s').2

/-! ## Rules -/

namespace Agrees

variable {α β : Type} {Q : α → α → Prop} {P : β → β → Prop} {act act' : Run α}

/-- Results that correspond are given. -/
protected theorem pure {a a' : α} (h : Q a a') : Agrees Q (pure a) (pure a') :=
  fun _ _ hs => ⟨.ok h, hs⟩

/-- The same error is thrown. -/
theorem throw (e : ShaderError) : Agrees Q (throw e) (throw e) := fun _ _ hs => ⟨.error e, hs⟩

/-- One after the other. -/
theorem bind {f f' : α → Run β} (h : Agrees Q act act')
    (hf : ∀ a a', Q a a' → Agrees P (f a) (f' a')) : Agrees P (act >>= f) (act' >>= f') := by
  intro s s' hs
  obtain ⟨hresult, ht⟩ := h s s' hs
  rw [runFrom_bind, runFrom_bind]
  rcases hrun : act.runFrom s with ⟨x, t⟩
  rcases hrun' : act'.runFrom s' with ⟨x', t'⟩
  rw [hrun, hrun'] at hresult ht
  cases hresult with
  | ok hQ => exact hf _ _ hQ t t' ht
  | error e => exact ⟨.error e, ht⟩

/-- One after the other, where the first gives the same result. -/
theorem bind_eq {f f' : α → Run β} (h : Agrees Eq act act') (hf : ∀ a, Agrees P (f a) (f' a)) :
    Agrees P (act >>= f) (act' >>= f') :=
  h.bind fun a _ ha => ha ▸ hf a

/-- An outcome is the same as itself. -/
theorem refl_outcome (x : Except ShaderError α) : SameOutcome Eq x x := by
  cases x with
  | ok a => exact .ok rfl
  | error e => exact .error e

/-- An operation of the builder. -/
theorem lift {act : Build α} (h : Build.Ignores act) : Agrees Eq (act : Run α) (act : Run α) := by
  rintro ⟨b, n⟩ ⟨b', n'⟩ ⟨⟨report, hb⟩, hnames, hshown, hblocks⟩
  obtain rfl : b' = b.recalling report := hb
  rw [runFrom_lift, runFrom_lift, h b report]
  exact ⟨refl_outcome _, ⟨report, rfl⟩, hnames, hshown, hblocks⟩

/-- A check has the same outcome. -/
theorem except (x : Except ShaderError α) : Agrees Eq (x : Run α) (x : Run α) := by
  cases x with
  | ok a => exact .pure rfl
  | error e => exact .throw e

/-- What follows a look at the builder. -/
theorem current_bind {f f' : Builder → Run β}
    (hf : ∀ (b : Builder) report, Agrees P (f b) (f' (b.recalling report))) :
    Agrees P ((Build.current : Run Builder) >>= f) ((Build.current : Run Builder) >>= f') := by
  intro s s' hs
  obtain ⟨report, hb⟩ := hs.builder
  have h := hf s.1 report s s' hs
  rw [← hb] at h
  exact h

/-- What follows a look at the notes. -/
theorem notes_bind {f f' : Notes → Run β} (hf : ∀ n n' : Notes, n'.names = n.names →
    Agrees P (f n) (f' n')) : Agrees P (notes >>= f) (notes >>= f') :=
  fun s s' hs => hf s.2 s'.2 hs.names s s' hs

/-- A change of the notes that leaves the transcripts alone. -/
theorem modifyNotes {g : Notes → Notes} (hblocks : ∀ n, (g n).blocks = n.blocks)
    (hnames : ∀ n n' : Notes, n'.names = n.names → (g n').names = (g n).names)
    (hshown : ∀ n n' : Notes, n'.shown = n.shown → (g n').shown = (g n).shown) :
    Agrees Eq (modifyNotes g) (modifyNotes g) := by
  refine fun s s' hs => ⟨.ok rfl, hs.builder, hnames _ _ hs.names, hshown _ _ hs.shown, ?_⟩
  show List.Forall₂ _ (g s.2).blocks (g s'.2).blocks
  rw [hblocks, hblocks]
  exact hs.blocks

/-- Attempts have the same outcome. -/
theorem attempt (h : Agrees Q act act') :
    Agrees (SameOutcome Q) (attempt act) (attempt act') := fun s s' hs =>
  ⟨.ok (h s s' hs).1, (h s s' hs).2⟩

/-- What follows a scope of its own. -/
theorem inScope_bind (kind : ScopeKind) {f f' : Except ShaderError α × Frame → Run β}
    (h : Agrees Eq act act') (hok : ∀ a g, Agrees P (f (.ok a, g)) (f' (.ok a, g)))
    (herror : ∀ e g, Agrees P (f (.error e, g)) (f' (.error e, g))) :
    Agrees P (inScope kind act >>= f) (inScope kind act' >>= f') := by
  unfold inScope
  simp only [bind_assoc, pure_bind]
  refine .bind_eq (.lift (Build.ordinary_pushScope kind).ignores) fun _ => ?_
  refine h.attempt.bind fun x x' hx => ?_
  refine .bind_eq (.lift Build.ordinary_popScope.ignores) fun g => ?_
  cases hx with
  | ok ha => exact ha ▸ hok _ g
  | error e => exact herror e g

/-- The same body is collected. -/
theorem collect {block block' : Run Unit} (kind : ScopeKind) (h : Agrees Eq block block') :
    Agrees Eq (collect kind block) (collect kind block') :=
  .inScope_bind kind h (fun _ _ => .pure rfl) fun e _ => .throw e

end Agrees

/-! ## Operations with bodies -/

section Blocks

variable {block block' : Run Unit}

theorem agrees_emit (st : Stmt NodeId) :
    Agrees Eq (Build.emit st : Run Unit) (Build.emit st : Run Unit) :=
  .lift (Build.ordinary_emit st).ignores

theorem agrees_scope (h : Agrees Eq block block') : Agrees Eq (scope block) (scope block') :=
  .bind_eq (.lift (Build.ordinary_requireFunction _).ignores) fun _ =>
    .bind_eq (h.collect _) fun _ => agrees_emit _

theorem agrees_ifThen (v : Value) (h : Agrees Eq block block') :
    Agrees Eq (ifThen v block) (ifThen v block') :=
  .bind_eq (.lift (Build.ordinary_requireFunction _).ignores) fun _ =>
    .bind_eq (.lift (Build.ordinary_condition v).ignores) fun _ =>
      .bind_eq (h.collect _) fun _ => agrees_emit _

theorem agrees_elseIf (v : Value) (h : Agrees Eq block block') :
    Agrees Eq (elseIf v block) (elseIf v block') :=
  .bind_eq (.lift (Build.ordinary_condition v).ignores) fun _ =>
    .bind_eq (h.collect _) fun _ => .lift (Build.ignores_extendLast _ _)

theorem agrees_otherwise (h : Agrees Eq block block') :
    Agrees Eq (otherwise block) (otherwise block') :=
  .bind_eq (h.collect _) fun _ => .lift (Build.ignores_extendLast _ _)

theorem agrees_whileDo (v : Value) (h : Agrees Eq block block') :
    Agrees Eq (whileDo v block) (whileDo v block') :=
  .bind_eq (.lift (Build.ordinary_requireFunction _).ignores) fun _ =>
    .bind_eq (.lift (Build.ordinary_condition v).ignores) fun _ =>
      .bind_eq (h.collect _) fun _ => agrees_emit _

theorem agrees_doWhile {cond cond' : Run Value} (h : Agrees Eq block block')
    (hcond : Agrees Eq cond cond') : Agrees Eq (doWhile block cond) (doWhile block' cond') :=
  .bind_eq (.lift (Build.ordinary_requireFunction _).ignores) fun _ =>
    .bind_eq (h.collect _) fun _ => .bind_eq hcond fun v =>
      .bind_eq (.lift (Build.ordinary_condition v).ignores) fun _ => agrees_emit _

theorem agrees_forRange (counter : String) (first last : Value) {block block' : Expr → Run Unit}
    (h : ∀ e, Agrees Eq (block e) (block' e)) :
    Agrees Eq (forRange counter first last block) (forRange counter first last block') := by
  refine .bind_eq (.lift (Build.ordinary_requireFunction _).ignores) fun _ => ?_
  refine .bind_eq (.lift (Build.ordinary_lowerPair _ _).ignores) fun (first, last) => ?_
  refine .bind_eq (.lift (Build.ordinary_requireBounds _ _).ignores) fun _ => ?_
  refine .inScope_bind .loop ?_ (fun v g => agrees_emit _) fun e g => .throw e
  refine .bind_eq (.lift (Build.ordinary_newVar _ _ _ _).ignores) fun x => ?_
  exact .bind_eq (h x.2) fun _ => .pure rfl

theorem agrees_func (name : String) (params : List (String × TypeShape))
    {block block' : List Expr → Run Unit} (h : ∀ es, Agrees Eq (block es) (block' es)) :
    Agrees Eq (func name params block) (func name params block') := by
  refine .bind_eq (.lift (Build.ordinary_checkFunctionName _).ignores) fun _ => ?_
  refine .bind_eq (.lift (Build.ordinary_paramTypes _ _).ignores) fun types => ?_
  refine .bind_eq (.lift Build.ordinary_stage.ignores) fun s => ?_
  refine .bind_eq (.lift (Build.ordinary_requireNewParams _ _ _).ignores) fun _ => ?_
  refine .inScope_bind _ ?_ (fun vars g => ?_) fun e g => .throw e
  · exact .bind_eq (.lift (Build.ordinary_declareParams _).ignores) fun declared =>
      .bind_eq (h _) fun _ => .pure rfl
  · exact .bind_eq (.lift (Build.ordinary_resultType _ _).ignores) fun t =>
      .lift (Build.ordinary_addFunction _).ignores

theorem agrees_main (h : Agrees Eq block block') : Agrees Eq (main block) (main block') := by
  have hmain : Agrees Eq
      (do
        let block ← collect (.function true none) block
        Build.modifyStage fun s => { s with main := some block })
      (do
        let block ← collect (.function true none) block'
        Build.modifyStage fun s => { s with main := some block }) :=
    .bind_eq (h.collect _) fun _ => .lift (Build.ordinary_modifyStage _).ignores
  refine .bind_eq (.lift (Build.ordinary_requireGlobal _).ignores) fun _ => ?_
  refine .bind_eq (.lift Build.ordinary_stage.ignores) fun s => ?_
  dsimp only
  split
  · exact .bind_eq (.throw _) fun _ => hmain
  · exact hmain

end Blocks

/-! ## Programs -/

section Programs

variable {block block' vertex vertex' fragment fragment' : Run Unit}

theorem agrees_stage (which : Stage) (earlier : List VarId) (h : Agrees Eq block block') :
    Agrees Eq (stage which earlier block) (stage which earlier block') :=
  .bind_eq (.lift (Build.ordinary_openStage which earlier).ignores) fun _ =>
    .bind_eq h fun _ => .lift (Build.ordinary_closeStage which).ignores

/-- The source of a stage has no part in the report. -/
theorem source_recalling (b : Builder) (report : Option String) (plan : Binding.Plan)
    (s : BuiltStage) : (b.recalling report).source plan s = b.source plan s := by
  have hterm : (b.recalling report).term = b.term :=
    funext (Builder.term_congr (b.nodes_recalling report))
  have hconstant : (b.recalling report).resolveConstant = b.resolveConstant := by
    funext v
    rw [Builder.resolveConstant, Builder.resolveConstant, hterm]
    rfl
  have hfunction : (b.recalling report).resolveFunction = b.resolveFunction := by
    funext f
    rw [Builder.resolveFunction, Builder.resolveFunction, hterm]
  rw [Builder.source, Builder.source, Builder.resolve, Builder.resolve, hterm, hconstant, hfunction]
  rfl

theorem agrees_compileRender (label : String) (hv : Agrees Eq vertex vertex')
    (hf : Agrees Eq fragment fragment') :
    Agrees Eq (compileRender label vertex fragment) (compileRender label vertex' fragment') := by
  refine .bind_eq (agrees_stage _ _ hv) fun v => .bind_eq (agrees_stage _ _ hf) fun f => ?_
  refine .bind_eq (.lift (Build.ordinary_bindStages _).ignores) fun plan => ?_
  refine .current_bind fun b report => ?_
  rw [source_recalling, source_recalling]
  refine .bind_eq (.except _) fun _ => .bind_eq (.except _) fun _ => ?_
  exact .bind_eq (.except _) fun _ => .pure rfl

theorem agrees_compileCompute (label : String) (h : Agrees Eq block block') :
    Agrees Eq (compileCompute label block) (compileCompute label block') := by
  refine .bind_eq (.lift (Build.ordinary_require _).ignores) fun _ => ?_
  refine .bind_eq (agrees_stage _ _ h) fun c => ?_
  refine .bind_eq (.lift (Build.ordinary_bindStages _).ignores) fun plan => ?_
  refine .current_bind fun b report => ?_
  rw [source_recalling]
  exact .bind_eq (.except _) fun _ => .bind_eq (.except _) fun _ => .pure rfl

theorem agrees_asProgram {α : Type} {compile compile' : Run α} (h : Agrees Eq compile compile') :
    Agrees Eq (asProgram compile) (asProgram compile') := by
  refine .bind_eq (.lift Build.ordinary_start.ignores) fun _ => h.attempt.bind fun x x' hx => ?_
  refine .bind_eq (.lift Build.ordinary_finish.ignores) fun _ => ?_
  cases hx with
  | ok ha => exact .pure ha
  | error e => exact .throw e

/-- The report of the failure of a program replaces the one that is kept. -/
theorem agrees_program {α : Type} (isReported : Bool) (label : String) {build build' : Run α}
    (h : Agrees Eq build build') :
    Agrees Eq (program isReported label build) (program isReported label build') := by
  intro s s' hs
  obtain ⟨hresult, ht⟩ := h s s' hs
  rw [runFrom_program, runFrom_program]
  rcases hrun : build.runFrom s with ⟨x, b, n⟩
  rcases hrun' : build'.runFrom s' with ⟨x', b', n'⟩
  rw [hrun, hrun'] at hresult ht
  obtain ⟨⟨report, hb⟩, hnames, hshown, hblocks⟩ := ht
  obtain rfl : b' = b.recalling report := hb
  cases hresult with
  | ok ha =>
      subst ha
      cases isReported with
      | true => exact ⟨.ok rfl, ⟨none, rfl⟩, hnames, hshown, hblocks⟩
      | false => exact ⟨.ok rfl, ⟨report, rfl⟩, hnames, hshown, hblocks⟩
  | error e =>
      cases e with
      | overflow => exact ⟨.error _, ⟨report, rfl⟩, hnames, hshown, hblocks⟩
      | _ =>
          cases isReported with
          | true => exact ⟨.ok rfl, ⟨_, rfl⟩, hnames, hshown, hblocks⟩
          | false => exact ⟨.error _, ⟨report, rfl⟩, hnames, hshown, hblocks⟩

end Programs

/-! ## Operations without bodies -/

section Operations

theorem agrees_showExpr (e : Expr) : Agrees Reply.Alike (showExpr e) (showExpr e) := by
  rintro ⟨b, n⟩ ⟨b', n'⟩ ⟨⟨report, hb⟩, hnames, hshown, hblocks⟩
  obtain rfl : b' = b.recalling report := hb
  obtain ⟨hnumber, hshown⟩ := number_congr hshown e
  rw [runFrom_showExpr, runFrom_showExpr, hnumber]
  refine ⟨.ok (.same _), ⟨report, rfl⟩, ?_, hshown, ?_⟩
  · exact (names_number n' e).trans (hnames.trans (names_number n e).symm)
  · show List.Forall₂ _ (n.number e).2.blocks (n'.number e).2.blocks
    rwa [blocks_number, blocks_number]

@[grind ←]
theorem agrees_showResult {act : Build Expr} (h : Build.Ignores act) :
    Agrees Reply.Alike (showResult act) (showResult act) :=
  .bind_eq (.lift h) agrees_showExpr

@[grind ←]
theorem agrees_quietly {act : Build Unit} (h : Build.Ignores act) :
    Agrees Reply.Alike (quietly act) (quietly act) :=
  .bind_eq (.lift h) fun _ => .pure (.same _)

theorem agrees_answer {f : Builder → Reply}
    (hf : ∀ (b : Builder) report, (f b).Alike (f (b.recalling report))) :
    Agrees Reply.Alike (answer f) (answer f) :=
  .current_bind fun b report => .pure (hf b report)

theorem agrees_showOption {find : Builder → Option Expr}
    (hfind : ∀ (b : Builder) report, find (b.recalling report) = find b) :
    Agrees Reply.Alike (showOption find) (showOption find) := by
  refine .current_bind fun b report => ?_
  rw [hfind]
  split
  · exact agrees_showExpr _
  · exact .pure (.same _)

theorem agrees_showType (shape : TypeShape) :
    Agrees Reply.Alike (Operation.showType shape) (Operation.showType shape) :=
  .bind_eq (.lift (Build.ordinary_type shape).ignores) fun _ => agrees_answer fun _ _ => .same _

theorem agrees_reset : Agrees Reply.Alike Script.reset Script.reset := by
  have hnotes : Agrees Eq (modifyNotes fun n => { n with names := [], shown := #[] })
      (modifyNotes fun n => { n with names := [], shown := #[] }) :=
    .modifyNotes (fun _ => rfl) (fun _ _ _ => rfl) fun _ _ _ => rfl
  exact .bind_eq hnotes fun _ => agrees_quietly fun _ _ => rfl

/-- Only what is told of the report differs. -/
theorem agrees_operation {n : Notes} {op : Operation} {act : Run Reply}
    (h : op.action n = .ok act) : Agrees Reply.Alike act act := by
  cases op <;> simp only [Operation.action, bind_eq_ok_iff, pure, Except.pure, Except.ok.injEq] at h
  case reset => exact h ▸ agrees_reset
  case lastError => exact h ▸ agrees_answer fun _ _ => .lastError _ _
  case currentStage => exact h ▸ agrees_answer fun _ _ => .same _
  case builder => exact h ▸ agrees_answer fun _ _ => .same _
  case type shape => exact h ▸ agrees_showType shape
  case structNamed => exact h ▸ agrees_answer fun _ _ => .same _
  case lookup name => exact h ▸ agrees_showOption fun b report => b.lookup_recalling report name
  case tagged path => exact h ▸ agrees_showOption fun _ _ => rfl
  case tagsOf =>
    obtain ⟨e, -, rfl⟩ := h
    exact agrees_answer fun _ _ => .same _
  case info =>
    obtain ⟨e, -, rfl⟩ := h
    exact agrees_answer fun _ _ => .same _
  all_goals grind

theorem agrees_bind (name : String) (e : Expr) :
    Agrees Eq (modifyNotes (·.bind name e)) (modifyNotes (·.bind name e)) :=
  .modifyNotes (fun _ => rfl) (fun _ _ hnames => by simp only [Notes.bind, hnames])
    fun _ _ hshown => hshown

theorem agrees_named (name : Option String) {act : Run Reply}
    (h : Agrees Reply.Alike act act) : Agrees Reply.Alike (named name act) (named name act) := by
  refine h.bind fun r r' hr => ?_
  cases hr with
  | same =>
      dsimp only
      split
      · exact .bind_eq (agrees_bind _ _) fun _ => .pure (.same _)
      · exact .pure (.same _)
  | lastError report report' => exact .pure (.lastError _ _)

end Operations

/-! ## Bodies -/

/-- Steps show the same from twin states, but for the report. -/
abbrev StepsAgree (steps : Run Outcome) : Prop :=
  Agrees (fun o o' => List.Forall₂ Entry.Alike o.1 o'.1 ∧ o'.2 = o.2) steps steps

section Bodies

variable {steps : Run Outcome}

theorem agrees_body (h : StepsAgree steps) : Agrees Eq (body steps) (body steps) := by
  intro s s' hs
  obtain ⟨hresult, ht⟩ := h s s' hs
  rw [runFrom_body, runFrom_body]
  rcases hrun : steps.runFrom s with ⟨x, t⟩
  rcases hrun' : steps.runFrom s' with ⟨x', t'⟩
  rw [hrun, hrun'] at hresult ht
  cases hresult with
  | error e => exact ⟨.error e, ht⟩
  | @ok o o' ho =>
      obtain ⟨entries, failure⟩ := o
      obtain ⟨entries', failure'⟩ := o'
      obtain ⟨hentries, rfl⟩ := ho
      exact ⟨Agrees.refl_outcome _, ht.builder, ht.names, ht.shown,
        List.rel_append hs.blocks (.cons hentries .nil)⟩

theorem agrees_functionBody (names : List String) (h : StepsAgree steps) (params : List Expr) :
    Agrees Eq (functionBody names steps params) (functionBody names steps params) := by
  refine .bind_eq (.modifyNotes ?_ ?_ ?_) fun _ => agrees_body h
  · exact fun n => blocks_bindAll n _
  · exact fun n n' hnames => bindAll_congr hnames _
  · exact fun n n' hshown => by rw [shown_bindAll, shown_bindAll, hshown]

theorem agrees_loopBody (counter : String) (h : StepsAgree steps) (e : Expr) :
    Agrees Eq (loopBody counter steps e) (loopBody counter steps e) :=
  .bind_eq (agrees_bind counter e) fun _ => agrees_body h

theorem agrees_condition (h : StepsAgree steps) (cond : Operand) :
    Agrees Eq (condition steps cond) (condition steps cond) := by
  refine .bind_eq (agrees_body h) fun _ => .notes_bind fun n n' hnames => ?_
  rw [value_congr hnames]
  split
  · exact .pure rfl
  · exact .pure rfl

theorem agrees_conditional (cond : Value) {branches : List (Value × Run Outcome)}
    {otherwise : Option (Run Outcome)} (hsteps : StepsAgree steps)
    (hbranches : ∀ branch ∈ branches, StepsAgree branch.2)
    (hotherwise : ∀ last, otherwise = some last → StepsAgree last) :
    Agrees Eq (conditional cond steps branches otherwise)
      (conditional cond steps branches otherwise) := by
  refine .bind_eq (agrees_ifThen cond (agrees_body hsteps)) fun _ => .bind_eq ?_ fun _ => ?_
  · induction branches with
    | nil => exact .pure rfl
    | cons branch branches ih =>
        obtain ⟨hbranch, hrest⟩ := List.forall_mem_cons.mp hbranches
        exact .bind_eq (agrees_elseIf branch.1 (agrees_body hbranch)) fun _ => ih hrest
  · cases otherwise with
    | none => exact .pure rfl
    | some last => exact agrees_otherwise (agrees_body (hotherwise last rfl))

end Bodies

/-! ## Steps -/

theorem agrees_silently {act : Run Unit} (h : Agrees Eq act act) :
    Agrees Reply.Alike (silently act) (silently act) := .bind_eq h fun _ => .pure (.same _)

/-- Twins begin a step alike. -/
theorem Twins.begun {s s' : Builder × Notes} (h : Twins s s') : Twins (begun s) (begun s') :=
  ⟨h.builder, h.names, h.shown, .nil⟩

/-- Twins end a step alike. -/
theorem Twins.ended {s s' : Builder × Notes} (h : Twins s s') : Twins (ended s) (ended s') := by
  obtain ⟨⟨report, hb⟩, hnames, hshown, hblocks⟩ := h
  exact ⟨⟨report, by rw [Script.ended, hb]; rfl⟩, hnames, hshown, hblocks⟩

theorem agrees_record (goesOn : Bool) {act : Except String (Run Reply)}
    (h : ∀ run, act = .ok run → Agrees Reply.Alike run run) :
    Agrees (fun x x' => x.1.Alike x'.1 ∧ x'.2 = x.2) (record goesOn act) (record goesOn act) := by
  intro s s' hs
  obtain ⟨report, hb⟩ := hs.builder
  cases act with
  | error name =>
      rw [runFrom_record_unbound, runFrom_record_unbound, hb]
      exact ⟨.ok ⟨.mk _ (.same _) .nil, rfl⟩, hs.begun.ended⟩
  | ok act =>
      obtain ⟨hresult, ht⟩ := h act rfl _ _ hs.begun
      obtain ⟨report', hb'⟩ := ht.builder
      rw [runFrom_record, runFrom_record]
      rcases hrun : act.runFrom (begun s) with ⟨x, t⟩
      rcases hrun' : act.runFrom (begun s') with ⟨x', t'⟩
      rw [hrun, hrun'] at hresult ht hb'
      have hremarks : t'.1.remarks = t.1.remarks := by rw [hb']; rfl
      cases hresult with
      | ok hr =>
          dsimp only
          rw [hremarks]
          exact ⟨.ok ⟨.mk _ hr ht.blocks, rfl⟩, ht.ended⟩
      | error e =>
          dsimp only
          rw [hremarks]
          exact ⟨.ok ⟨.mk _ (.same _) ht.blocks, rfl⟩, ht.ended⟩

mutual

theorem agrees_run (tolerant : Bool) (n : Notes) (a : Action) {act : Run Reply}
    (hact : a.run tolerant n = .ok act) : Agrees Reply.Alike act act :=
  match a with
  | .operation op name => by
      rw [Action.run] at hact
      cases hop : op.action n with
      | error e =>
          rw [hop] at hact
          cases hact
      | ok act' =>
          rw [hop] at hact
          rw [← Except.ok.inj hact]
          exact agrees_named _ (agrees_operation hop)
  | .render isReported label vertex fragment queries => by
      rw [← Except.ok.inj hact]
      have hv := agrees_body (agrees_runAll tolerant vertex)
      have hf := agrees_body (agrees_runAll tolerant fragment)
      have hprogram := agrees_asProgram (agrees_compileRender label hv hf)
      exact .bind_eq (agrees_program isReported label hprogram) fun _ => .pure (.same _)
  | .compute isReported label steps queries => by
      rw [← Except.ok.inj hact]
      have hsteps := agrees_body (agrees_runAll tolerant steps)
      have hprogram := agrees_asProgram (agrees_compileCompute label hsteps)
      exact .bind_eq (agrees_program isReported label hprogram) fun _ => .pure (.same _)
  | .func name params steps => by
      rw [← Except.ok.inj hact]
      have hsteps := agrees_runAll tolerant steps
      refine .bind_eq (agrees_func name params fun es => ?_) fun _ => .pure (.same _)
      exact agrees_functionBody _ hsteps es
  | .main steps => by
      rw [← Except.ok.inj hact]
      exact agrees_silently (agrees_main (agrees_body (agrees_runAll tolerant steps)))
  | .scope steps => by
      rw [← Except.ok.inj hact]
      exact agrees_silently (agrees_scope (agrees_body (agrees_runAll tolerant steps)))
  | .conditional cond steps branches otherwise => by
      obtain ⟨c, -, hact⟩ := bind_eq_ok_iff.mp hact
      obtain ⟨values, hvalues, hact⟩ := bind_eq_ok_iff.mp hact
      rw [← Except.ok.inj hact]
      have hbranches := agrees_runBranches tolerant branches
      refine agrees_silently (agrees_conditional c (agrees_runAll tolerant steps) ?_
        fun _ => agrees_runOptional tolerant otherwise)
      intro branch hbranch
      obtain ⟨cond', hmem⟩ := mem_of_branchValues hvalues hbranch
      exact hbranches _ hmem
  | .forRange counter first last steps => by
      obtain ⟨v, -, hact⟩ := bind_eq_ok_iff.mp hact
      obtain ⟨w, -, hact⟩ := bind_eq_ok_iff.mp hact
      rw [← Except.ok.inj hact]
      have hsteps := agrees_runAll tolerant steps
      exact agrees_silently (agrees_forRange counter v w fun e => agrees_loopBody counter hsteps e)
  | .whileDo cond steps => by
      obtain ⟨c, -, hact⟩ := bind_eq_ok_iff.mp hact
      rw [← Except.ok.inj hact]
      exact agrees_silently (agrees_whileDo c (agrees_body (agrees_runAll tolerant steps)))
  | .doWhile steps before cond => by
      rw [← Except.ok.inj hact]
      exact agrees_silently (agrees_doWhile (agrees_body (agrees_runAll tolerant steps))
        (agrees_condition (agrees_runAll tolerant before) cond))
termination_by structural a

/-- Steps show the same whatever report is kept, but for what they are told of it. -/
theorem agrees_runAll (tolerant : Bool) (steps : List (Bool × Action)) :
    StepsAgree (runAll tolerant steps) :=
  match steps with
  | [] => Agrees.pure ⟨.nil, rfl⟩
  | (goesOn, a) :: rest => by
      have hrest := agrees_runAll tolerant rest
      refine Agrees.notes_bind fun n n' hnames => ?_
      rw [Action.run_congr hnames]
      refine .bind (agrees_record _ fun act hact => agrees_run tolerant n a hact) ?_
      rintro ⟨entry, reason⟩ ⟨entry', failure⟩ ⟨hentry, rfl⟩
      cases failure with
      | some e => exact .pure ⟨.cons hentry .nil, rfl⟩
      | none => exact .bind hrest fun o o' ho => .pure ⟨.cons hentry ho.1, ho.2⟩
termination_by structural steps

theorem agrees_runBranches (tolerant : Bool) (branches : List (Operand × List (Bool × Action))) :
    ∀ branch ∈ runBranches tolerant branches, StepsAgree branch.2 :=
  match branches with
  | [] => fun _ hbranch => by cases hbranch
  | (cond, steps) :: rest => by
      have hsteps := agrees_runAll tolerant steps
      have hrest := agrees_runBranches tolerant rest
      exact List.forall_mem_cons.mpr ⟨hsteps, hrest⟩
termination_by structural branches

theorem agrees_runOptional (tolerant : Bool) (otherwise : Option (List (Bool × Action)))
    {last : Run Outcome} (hlast : runOptional tolerant otherwise = some last) : StepsAgree last :=
  match otherwise with
  | none => by cases hlast
  | some steps => by
      rw [← Option.some.inj hlast]
      exact agrees_runAll tolerant steps
termination_by structural otherwise

end

end Script

end WebShader
