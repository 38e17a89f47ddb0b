import WebShader.Proofs.IndifferentRelations
import WebShader.Proofs.Lives
import WebShader.Proofs.Reports

/-!
# What transcripts tell

A narrative follows a value of the builder along a script, its life or the report that it keeps: it
tells from the transcript of steps, and from the entry of an action, to which value they lead. If it
is right about operations, about programs, and about actions that only run their bodies, it is right
about every script, whichever of its steps fail.
-/

namespace WebShader

/-! ## Where a builder stands -/

/-- Where a builder is in its life, and the report it keeps. -/
abbrev Standing := Life × Option String

/-- Where the builder stands. -/
def Builder.standing (b : Builder) : Standing := (b.life, b.lastError)

/-- A builder is where another one is in its life. -/
def Builder.Steady (b b' : Builder) : Prop := b'.life = b.life

namespace Builder

variable {b b' : Builder}

/-- Related stages are both there or both missing. -/
theorem isSome_eq_of_rel {P : OpenStage → OpenStage → Prop} {s s' : Option OpenStage}
    (h : Option.Rel P s s') : s'.isSome = s.isSome := by
  cases h <;> rfl

/-- A builder with its phase and its stage is steady. -/
theorem steady_of_rel {P : OpenStage → OpenStage → Prop} (hphase : b'.phase = b.phase)
    (hstage : Option.Rel P b.stage b'.stage) : b.Steady b' := by
  rw [Steady, life, life, hphase, isSome_eq_of_rel hstage]

/-- A builder that is kept is steady. -/
theorem Kept.steady {P : OpenStage → OpenStage → Prop} (h : b.Kept P b') : b.Steady b' :=
  steady_of_rel h.phase h.stage

instance : IsAdditive Steady where
  refl _ := rfl
  trans _ _ _ h h' := Eq.trans h' h
  of_adds _ _ h := steady_of_rel h.phase h.stage

end Builder

namespace Build

variable {α : Type}

/-- A change of the stage is steady. -/
theorem steady_modifyStage (f : OpenStage → OpenStage) :
    Follows Builder.Steady (modifyStage f) := by
  intro b
  cases hs : b.stage with
  | none => rw [Builder.run_modifyStage_of_none hs]; rfl
  | some s =>
      rw [Builder.run_modifyStage_of_some hs]
      simp [Builder.Steady, Builder.life, hs]

/-- A function that is added is steady. -/
theorem steady_addFunction (fn : Function) : Follows Builder.Steady (addFunction fn) :=
  .bind follows_stage fun _ => .bind (steady_modifyStage _) fun _ => .pure _

/-- What a stage holds is nothing in the life of the builder. -/
instance : IsFullyIndifferent Builder.Steady where
  newVar name t role init b := (kept_newVar (P := OpenStage.Nests) name t role init b).steady
  modifyStage _ _ := steady_modifyStage _
  addFunction _ := steady_addFunction _

/-- The report is where it was, whatever ignores it. -/
theorem Ignores.lastError_eq {act : Build α} (h : Ignores act) (b : Builder) :
    (b.run act).2.lastError = b.lastError := by
  have hsame : b.run act = ((b.run act).1, (b.run act).2.recalling b.lastError) := h b b.lastError
  rw [hsame]
  rfl

end Build

namespace Script

open Authoring

/-! ## Narratives -/

/-- A value of builders that depends on where they stand, and what the transcripts of steps and the
entries of actions tell of where it goes. -/
structure Narrative (X : Type) where
  value : Standing → X
  steps : Script → List Entry → X → X → Prop
  action : Action → Entry → X → X → Prop

variable {X : Type} {N : Narrative X}

namespace Narrative

/-- The value of a builder. -/
def of (N : Narrative X) (b : Builder) : X := N.value b.standing

/-- An operation of the builder leaves the value alone. -/
def Rests {α : Type} (N : Narrative X) (act : Build α) : Prop :=
  ∀ b : Builder, N.of (b.run act).2 = N.of b

/-- What ignores the report and leaves the builder where it is in its life leaves the value. -/
theorem rests {α : Type} {act : Build α} (hreport : Build.Ignores act)
    (hlife : Build.Follows Builder.Steady act) : N.Rests act :=
  fun b => congrArg N.value (Prod.ext (hlife b) (hreport.lastError_eq b))

/-- The transcripts of the first of some bodies lead on, one after the other. -/
inductive Threads (N : Narrative X) : List Script → List (List Entry) → X → X → Prop
  | leave (bodies x) : Threads N bodies [] x x
  | body {steps entries rest blocks x y z} (h : N.steps steps entries x y)
      (hrest : Threads N rest blocks y z) : Threads N (steps :: rest) (entries :: blocks) x z

namespace Threads

variable {bodies more : List Script} {blocks blocks' : List (List Entry)} {x y z : X}

/-- Without bodies nothing is told. -/
theorem of_nil (h : N.Threads [] blocks x y) : blocks = [] ∧ y = x := by
  cases h with
  | leave => exact ⟨rfl, rfl⟩

/-- Two tales in a row. -/
theorem append (h : N.Threads bodies blocks x y) (hlength : blocks.length = bodies.length)
    (h' : N.Threads more blocks' y z) : N.Threads (bodies ++ more) (blocks ++ blocks') x z := by
  induction h with
  | leave bodies =>
      obtain rfl : bodies = [] := List.length_eq_zero_iff.mp hlength.symm
      exact h'
  | body h _ ih => exact .body h (ih (Nat.succ.inj hlength) h')

/-- Bodies that are not reached tell nothing. -/
theorem left (h : N.Threads bodies blocks x y) (more : List Script) :
    N.Threads (bodies ++ more) blocks x y := by
  induction h with
  | leave => exact .leave _ _
  | body h _ ih => exact .body h ih

end Threads

/-! ## Runs of bodies -/

/-- A run adds the transcripts of the first of some bodies, and of all of them if it succeeds, and
the value is where they lead. -/
def Traverses {α : Type} (N : Narrative X) (bodies : List Script) (act : Run α) : Prop :=
  ∀ s, ∃ blocks, (act.runFrom s).2.2.blocks = s.2.blocks ++ blocks ∧
    N.Threads bodies blocks (N.of s.1) (N.of (act.runFrom s).2.1) ∧
    ∀ a, (act.runFrom s).1 = .ok a → blocks.length = bodies.length

/-- A list of steps has a transcript, and the value is where it leads. -/
def Tells (N : Narrative X) (steps : Script) (act : Run Outcome) : Prop :=
  ∀ s, ∃ entries failure t, act.runFrom s = (.ok (entries, failure), t) ∧
    N.steps steps entries (N.of s.1) (N.of t.1)

namespace Traverses

variable {α β : Type} {bodies more : List Script} {act : Run α}

/-- A run that leaves the builder at rest runs no body. -/
theorem of_rests {act : Build α} (h : N.Rests act) : N.Traverses [] (act : Run α) := by
  rintro ⟨b, n⟩
  refine ⟨[], (List.append_nil _).symm, ?_, fun _ _ => rfl⟩
  rw [runFrom_lift, h b]
  exact .leave _ _

/-- An operation of the builder runs no body. -/
theorem lift {act : Build α} (hreport : Build.Ignores act)
    (hlife : Build.Follows Builder.Steady act) : N.Traverses [] (act : Run α) :=
  .of_rests (rests hreport hlife)

/-- A note runs no body. -/
theorem modifyNotes {g : Notes → Notes} (hg : ∀ n, (g n).blocks = n.blocks) :
    N.Traverses [] (modifyNotes g) := fun s =>
  ⟨[], (hg s.2).trans (List.append_nil _).symm, .leave _ _, fun _ _ => rfl⟩

/-- Nothing runs no body. -/
protected theorem pure (a : α) : N.Traverses [] (pure a : Run α) := fun _ =>
  ⟨[], (List.append_nil _).symm, .leave _ _, fun _ _ => rfl⟩

/-- An error runs no body. -/
theorem throw (e : ShaderError) : N.Traverses [] (throw e : Run α) := fun _ =>
  ⟨[], (List.append_nil _).symm, .leave _ _, fun _ _ => rfl⟩

/-- A check runs no body. -/
theorem except (x : Except ShaderError α) : N.Traverses [] (x : Run α) := by
  cases x with
  | ok a => exact .pure a
  | error e => exact .throw e

/-- The bodies of one run, and then those of the other. -/
theorem bind {f : α → Run β} (h : N.Traverses bodies act) (hf : ∀ a, N.Traverses more (f a)) :
    N.Traverses (bodies ++ more) (act >>= f) := by
  intro s
  obtain ⟨blocks, hblocks, hthreads, hall⟩ := h s
  rw [runFrom_bind]
  rcases hrun : act.runFrom s with ⟨e | a, t⟩
  · rw [hrun] at hblocks hthreads
    exact ⟨blocks, hblocks, hthreads.left more, fun _ h => by cases h⟩
  · rw [hrun] at hblocks hthreads hall
    obtain ⟨blocks', hblocks', hthreads', hall'⟩ := hf a t
    refine ⟨blocks ++ blocks', ?_, hthreads.append (hall a rfl) hthreads', fun x hx => ?_⟩
    · rw [hblocks', hblocks, List.append_assoc]
    · rw [List.length_append, List.length_append, hall a rfl, hall' x hx]

/-- What comes before the bodies. -/
theorem before {act : Build α} {f : α → Run β} (hact : Build.IsOrdinary act)
    (hlife : Build.Follows Builder.Steady act) (hf : ∀ a, N.Traverses bodies (f a)) :
    N.Traverses bodies ((act : Run α) >>= f) :=
  .bind (.lift hact.ignores hlife) hf

/-- What comes after the bodies. -/
theorem after {f : α → Run β} (h : N.Traverses bodies act) (hf : ∀ a, N.Traverses [] (f a)) :
    N.Traverses bodies (act >>= f) := by
  have hbind := h.bind hf
  rwa [List.append_nil] at hbind

/-- What comes after a look at the notes. -/
theorem notes_bind {f : Notes → Run β} (hf : ∀ n, N.Traverses bodies (f n)) :
    N.Traverses bodies (notes >>= f) := fun s => hf s.2 s

/-- What comes after an attempt, which fails if the attempt has. -/
theorem attempt_bind {f : Except ShaderError α → Run β} (h : N.Traverses bodies act)
    (hf : ∀ x, N.Traverses [] (f x)) (hfails : ∀ e s b, ((f (.error e)).runFrom s).1 ≠ .ok b) :
    N.Traverses bodies (attempt act >>= f) := by
  intro s
  obtain ⟨blocks, hblocks, hthreads, hall⟩ := h s
  rw [runFrom_bind, runFrom_attempt]
  rcases hrun : act.runFrom s with ⟨x, t⟩
  rw [hrun] at hblocks hthreads hall
  obtain ⟨blocks', hblocks', hthreads', -⟩ := hf x t
  obtain ⟨rfl, hvalue⟩ := hthreads'.of_nil
  refine ⟨blocks, hblocks'.trans (by rw [List.append_nil, hblocks]), ?_, fun b hb => ?_⟩
  · dsimp only
    rw [hvalue]
    exact hthreads
  · cases x with
    | error e => exact absurd hb (hfails e t b)
    | ok a => exact hall a rfl

/-- What is said does not change the bodies that are run. -/
theorem silently {body : Run Unit} (h : N.Traverses bodies body) :
    N.Traverses bodies (silently body) := .after h fun _ => .pure _

end Traverses

/-! ## Operations with bodies -/

section Constructs

variable {α β : Type} {bodies more : List Script} {body : Run Unit}

/-- What runs in a new scope, which fails if the body does. -/
theorem Traverses.inScope_bind (kind : ScopeKind) {act : Run α}
    {f : Except ShaderError α × Frame → Run β} (h : N.Traverses bodies act)
    (hf : ∀ x, N.Traverses [] (f x)) (hfails : ∀ e g s b, ((f (.error e, g)).runFrom s).1 ≠ .ok b) :
    N.Traverses bodies (inScope kind act >>= f) := by
  unfold inScope
  simp only [bind_assoc, pure_bind]
  refine .before (Build.ordinary_pushScope kind) (Build.indifferent_pushScope kind) fun _ => ?_
  refine .attempt_bind h (fun x => ?_) ?_
  · exact .before Build.ordinary_popScope Build.indifferent_popScope fun g => hf (x, g)
  · rintro e ⟨b, n⟩ a ha
    rw [runFrom_bind, runFrom_lift] at ha
    rcases hpop : b.run Build.popScope with ⟨e' | g, b'⟩
    · rw [hpop] at ha
      cases ha
    · rw [hpop] at ha
      exact hfails e g _ a ha

/-- A body with a scope of its own is run once. -/
theorem Traverses.collect (kind : ScopeKind) (h : N.Traverses bodies body) :
    N.Traverses bodies (collect kind body) := by
  refine .inScope_bind kind h (fun (x, g) => ?_) fun e g s b h => by cases h
  cases x with
  | ok _ => exact .pure _
  | error e => exact .throw e

/-- What only functions hold. -/
theorem Traverses.requireFunction_bind {what : String} {f : Unit → Run β}
    (h : N.Traverses bodies (f ())) :
    N.Traverses bodies ((Build.requireFunction what : Run Unit) >>= f) :=
  .before (Build.ordinary_requireFunction _) (Build.follows_requireFunction _) fun _ => h

/-- What has a condition. -/
theorem Traverses.condition_bind (cond : Value) {f : NodeId → Run β}
    (h : ∀ n, N.Traverses bodies (f n)) :
    N.Traverses bodies ((Build.condition cond : Run NodeId) >>= f) :=
  .before (Build.ordinary_condition _) (Build.follows_condition _) h

/-- A statement runs no body. -/
theorem traverses_emit (st : Stmt NodeId) : N.Traverses [] (Build.emit st : Run Unit) :=
  .lift (Build.ordinary_emit st).ignores (Build.indifferent_emit st)

/-- A branch that is added runs no body. -/
theorem traverses_extendLast (failure : InternalFault) (g : Stmt NodeId → Option (Stmt NodeId)) :
    N.Traverses [] (Build.extendLast failure g : Run Unit) :=
  .lift (Build.ignores_extendLast _ _) (Build.indifferent_extendLast _ _)

/-- A block runs its body. -/
theorem traverses_scope (h : N.Traverses bodies body) :
    N.Traverses bodies (Authoring.scope body) :=
  .requireFunction_bind (.after (h.collect _) fun _ => traverses_emit _)

/-- The first branch runs its body. -/
theorem traverses_ifThen (cond : Value) (h : N.Traverses bodies body) :
    N.Traverses bodies (ifThen cond body) :=
  .requireFunction_bind (.condition_bind cond fun _ =>
    .after (h.collect _) fun _ => traverses_emit _)

/-- A later branch runs its body. -/
theorem traverses_elseIf (cond : Value) (h : N.Traverses bodies body) :
    N.Traverses bodies (elseIf cond body) :=
  .condition_bind cond fun _ => .after (h.collect _) fun _ => traverses_extendLast _ _

/-- The last branch runs its body. -/
theorem traverses_otherwise (h : N.Traverses bodies body) : N.Traverses bodies (otherwise body) :=
  .after (h.collect _) fun _ => traverses_extendLast _ _

/-- A loop runs its body once. -/
theorem traverses_whileDo (cond : Value) (h : N.Traverses bodies body) :
    N.Traverses bodies (whileDo cond body) :=
  .requireFunction_bind (.condition_bind cond fun _ =>
    .after (h.collect _) fun _ => traverses_emit _)

/-- A loop runs its body once, and then its condition. -/
theorem traverses_doWhile {cond : Run Value} (h : N.Traverses bodies body)
    (hcond : N.Traverses more cond) : N.Traverses (bodies ++ more) (doWhile body cond) :=
  .requireFunction_bind (.bind (h.collect _) fun _ => .after hcond fun v =>
    .condition_bind v fun _ => traverses_emit _)

/-- A loop over a range runs its body once. -/
theorem traverses_forRange (counter : String) (first last : Value) {body : Expr → Run Unit}
    (h : ∀ e, N.Traverses bodies (body e)) :
    N.Traverses bodies (forRange counter first last body) := by
  refine .requireFunction_bind ?_
  refine .before (Build.ordinary_lowerPair _ _) (Build.follows_lowerPair _ _)
    fun (first, last) => ?_
  refine .before (Build.ordinary_requireBounds _ _) (Build.follows_requireBounds _ _) fun _ => ?_
  refine .inScope_bind .loop ?_ (fun (x, g) => ?_) fun e g s b h => by cases h
  · exact .before (Build.ordinary_newVar _ _ _ _) (Build.indifferent_newVar _ _ _ _) fun x =>
      .after (h x.2) fun _ => .pure _
  · cases x with
    | ok v => exact traverses_emit _
    | error e => exact .throw e

/-- A function runs its body once. -/
theorem traverses_func (name : String) (params : List (String × TypeShape))
    {body : List Expr → Run Unit} (h : ∀ es, N.Traverses bodies (body es)) :
    N.Traverses bodies (Authoring.func name params body) := by
  refine .before (Build.ordinary_checkFunctionName _) (Build.follows_checkFunctionName _)
    fun _ => ?_
  refine .before (Build.ordinary_paramTypes _ _) (Build.follows_paramTypes _ _) fun types => ?_
  refine .before Build.ordinary_stage Build.follows_stage fun st => ?_
  refine .before (Build.ordinary_requireNewParams _ _ _) (Build.follows_requireNewParams _ _ _)
    fun _ => ?_
  refine .inScope_bind _ ?_ (fun (x, g) => ?_) fun e g s b h => by cases h
  · exact .before (Build.ordinary_declareParams _) (Build.indifferent_declareParams _) fun x =>
      .after (h _) fun _ => .pure _
  · cases x with
    | ok vars =>
        exact .before (Build.ordinary_resultType _ _) (Build.follows_resultType _ _) fun t =>
          .lift (Build.ordinary_addFunction _).ignores (Build.steady_addFunction _)
    | error e => exact .throw e

/-- The main function runs its body once. -/
theorem traverses_main (h : N.Traverses bodies body) :
    N.Traverses bodies (Authoring.main body) := by
  refine .before (Build.ordinary_requireGlobal _) (Build.follows_requireGlobal _) fun _ => ?_
  refine .before Build.ordinary_stage Build.follows_stage fun st => ?_
  have hrest : N.Traverses bodies (do
      let block ← collect (.function true none) body
      Build.modifyStage fun s => { s with main := some block }) :=
    .after (h.collect _) fun block =>
      .lift (Build.ordinary_modifyStage _).ignores (Build.steady_modifyStage _)
  dsimp only
  split
  · exact .bind (.throw _) fun _ => hrest
  · exact hrest

end Constructs

/-! ## Bodies that are scripts -/

namespace Tells

variable {steps : Script} {act : Run Outcome} (h : N.Tells steps act)

include h

/-- A body is the script it is made of. -/
theorem body : N.Traverses [steps] (body act) := by
  intro s
  obtain ⟨entries, failure, t, hrun, hsteps⟩ := h s
  rw [runFrom_body, hrun]
  exact ⟨[entries], rfl, .body hsteps (.leave _ _), fun _ _ => rfl⟩

/-- A condition runs the steps before it. -/
theorem condition (cond : Operand) : N.Traverses [steps] (condition act cond) := by
  refine .after h.body fun _ => .notes_bind fun n => ?_
  split
  · exact .pure _
  · exact .pure _

/-- The body of a loop is the script it is made of. -/
theorem loopBody (counter : String) (e : Expr) : N.Traverses [steps] (loopBody counter act e) :=
  .bind (.modifyNotes (g := (·.bind counter e)) fun _ => rfl) fun _ => h.body

/-- The body of a function is the script it is made of. -/
theorem functionBody (names : List String) (params : List Expr) :
    N.Traverses [steps] (functionBody names act params) :=
  .bind (.modifyNotes fun n => blocks_bindAll n _) fun _ => h.body

end Tells

/-- The branches of a conditional run in order. -/
theorem traverses_branches {branches : List (Value × Run Outcome)} {bodies : List Script}
    (h : List.Forall₂ (fun steps branch => N.Tells steps branch.2) bodies branches) :
    N.Traverses bodies (branches.forM fun (cond, steps) => elseIf cond (Script.body steps)) := by
  induction h with
  | nil => exact .pure _
  | cons hbranch _ ih => exact .bind (traverses_elseIf _ hbranch.body) fun _ => ih

/-- A conditional runs its first body, those of its branches and the last one, in order. -/
theorem traverses_conditional (cond : Value) {steps : Script} {act : Run Outcome}
    {bodies : List Script} {branches : List (Value × Run Outcome)} {otherwise : Option Script}
    {last : Option (Run Outcome)} (hsteps : N.Tells steps act)
    (hbranches : List.Forall₂ (fun steps branch => N.Tells steps branch.2) bodies branches)
    (hlast : Option.Rel N.Tells otherwise last) :
    N.Traverses (steps :: (bodies ++ otherwise.toList)) (conditional cond act branches last) := by
  refine .bind (traverses_ifThen cond hsteps.body) fun _ => ?_
  refine .bind (traverses_branches hbranches) fun _ => ?_
  cases hlast with
  | none => exact .pure _
  | some h => exact traverses_otherwise h.body

end Narrative

/-! ## Operations without bodies -/

/-- A run leaves the transcripts of bodies alone, and the report that is kept. -/
def IsQuiet {α : Type} (act : Run α) : Prop :=
  ∀ s, (act.runFrom s).2.2.blocks = s.2.blocks ∧ (act.runFrom s).2.1.lastError = s.1.lastError

namespace IsQuiet

variable {α β : Type}

/-- An operation of the builder is quiet if it ignores the report. -/
@[grind ←]
theorem lift {act : Build α} (h : Build.Ignores act) : IsQuiet (act : Run α) :=
  fun s => ⟨rfl, h.lastError_eq s.1⟩

/-- One after the other. -/
theorem bind {act : Run α} {f : α → Run β} (h : IsQuiet act) (hf : ∀ a, IsQuiet (f a)) :
    IsQuiet (act >>= f) := by
  intro s
  have hact := h s
  rw [runFrom_bind]
  rcases hrun : act.runFrom s with ⟨e | a, t⟩
  · rw [hrun] at hact
    exact hact
  · rw [hrun] at hact
    obtain ⟨hblocks, hreport⟩ := hf a t
    exact ⟨hblocks.trans hact.1, hreport.trans hact.2⟩

/-- A note is quiet. -/
theorem modifyNotes {g : Notes → Notes} (hg : ∀ n, (g n).blocks = n.blocks) :
    IsQuiet (modifyNotes g) := fun s => ⟨hg s.2, rfl⟩

/-- Showing an expression is quiet. -/
@[grind ←]
theorem showExpr (e : Expr) : IsQuiet (showExpr e) := fun s => ⟨blocks_number s.2 e, rfl⟩

/-- Showing a result is quiet. -/
@[grind ←]
theorem showResult {act : Build Expr} (h : Build.Ignores act) : IsQuiet (showResult act) :=
  .bind (.lift h) .showExpr

/-- An answer is quiet. -/
@[grind ←]
theorem answer (f : Builder → Reply) : IsQuiet (answer f) := fun _ => ⟨rfl, rfl⟩

/-- Showing what may be missing is quiet. -/
@[grind ←]
theorem showOption (find : Builder → Option Expr) : IsQuiet (showOption find) := by
  have hcurrent : IsQuiet (Build.current : Run Builder) := fun _ => ⟨rfl, rfl⟩
  refine hcurrent.bind fun b => ?_
  split
  · exact showExpr _
  · exact fun _ => ⟨rfl, rfl⟩

/-- An operation without a result is quiet if it ignores the report. -/
@[grind ←]
theorem quietly {act : Build Unit} (h : Build.Ignores act) : IsQuiet (quietly act) :=
  .bind (.lift h) fun _ _ => ⟨rfl, rfl⟩

/-- Showing a type is quiet. -/
@[grind ←]
theorem showType (shape : TypeShape) : IsQuiet (Operation.showType shape) :=
  .bind (.lift (Build.ordinary_type shape).ignores) fun _ => .answer _

/-- A reset is quiet. -/
theorem reset : IsQuiet Script.reset := fun _ => ⟨rfl, rfl⟩

/-- An operation without bodies is quiet. -/
theorem operation {n : Notes} {op : Operation} {act : Run Reply} (h : op.action n = .ok act) :
    IsQuiet act := by
  cases op <;> simp only [Operation.action, bind_eq_ok_iff, pure, Except.pure, Except.ok.injEq] at h
  case reset => exact h ▸ .reset
  all_goals grind

/-- Naming a result is quiet. -/
theorem named {act : Run Reply} (h : IsQuiet act) (name : Option String) :
    IsQuiet (named name act) := by
  refine h.bind fun reply => ?_
  dsimp only
  split
  · exact .bind (.modifyNotes (g := (·.bind _ _)) fun _ => rfl) fun _ _ => ⟨rfl, rfl⟩
  · exact fun _ => ⟨rfl, rfl⟩

end IsQuiet

/-- An operation other than a reset leaves the value alone. -/
theorem Narrative.traverses_operation {n : Notes} {op : Operation} (hop : op ≠ .reset)
    {act : Run Reply} (h : op.action n = .ok act) (name : Option String) :
    N.Traverses [] (named name act) := by
  intro s
  have hlife : Follows (Builder.Kept OpenStage.Nests) (named name act) :=
    follows_named (follows_operation_of_ne hop h) name
  obtain ⟨hblocks, hreport⟩ := (IsQuiet.operation h).named name s
  refine ⟨[], hblocks.trans (List.append_nil _).symm, ?_, fun _ _ => rfl⟩
  rw [of, of, show Builder.standing _ = s.1.standing from Prod.ext (hlife s).steady hreport]
  exact .leave _ _

/-! ## Steps -/

/-- What a step replies whose action has ended so. -/
def Reply.ofResult : Except ShaderError Reply → Reply
  | .ok reply => reply
  | .error e => .failed e

namespace Narrative

/-- An action leads the value where its entry tells. -/
def Enacts (N : Narrative X) (a : Action) (act : Run Reply) : Prop :=
  ∀ s, s.2.blocks = [] → N.action a
    ⟨Reply.ofResult (act.runFrom s).1, (act.runFrom s).2.2.blocks, (act.runFrom s).2.1.remarks⟩
    (N.of s.1) (N.of (act.runFrom s).2.1)

/-- The narrative is right about steps if it is right about the actions they take, about operations
and programs, and about actions that only run their bodies. -/
structure IsTrue (N : Narrative X) : Prop where
  stop : ∀ steps x, N.steps steps [] x x
  step : ∀ {goesOn a entry rest entries x y z}, N.action a entry x y → N.steps rest entries y z →
    N.steps ((goesOn, a) :: rest) (entry :: entries) x z
  unbound : ∀ {tolerant n a name}, a.run tolerant n = .error name → ∀ log x,
    N.action a ⟨.unbound name, [], log⟩ x x
  operation : ∀ {n op act} name, op.action n = .ok act →
    N.Enacts (.operation op name) (named (name.or op.ownName?) act)
  within : ∀ {a blocks x y}, a.isProgram = false → a.bodies ≠ [] → N.Threads a.bodies blocks x y →
    ∀ reply log, N.action a ⟨reply, blocks, log⟩ x y
  render : ∀ isReported label {vertex fragment v f} queries, N.Traverses [vertex] v →
    N.Traverses [fragment] f → N.Enacts (.render isReported label vertex fragment queries) (do
      let built ← program isReported label (Authoring.render label v f)
      return .render (built.map fun p => (p, queries.map (·.answer p.layouts))))
  compute : ∀ isReported label {steps body} queries, N.Traverses [steps] body →
    N.Enacts (.compute isReported label steps queries) (do
      let built ← program isReported label (Authoring.compute label body)
      return .compute (built.map fun p => (p, queries.map (·.answer p.layouts))))

namespace IsTrue

variable (hN : N.IsTrue)

include hN

/-- An action that only runs its bodies. -/
theorem enacts_within {a : Action} {act : Run Reply} (hprogram : a.isProgram = false)
    (hbodies : a.bodies ≠ []) (h : N.Traverses a.bodies act) : N.Enacts a act := by
  intro s hs
  obtain ⟨blocks, hblocks, hthreads, -⟩ := h s
  rw [hblocks, hs, List.nil_append]
  exact hN.within hprogram hbodies hthreads _ _

/-- A script tells what its first step does and then what the rest does. -/
theorem tells_cons {tolerant : Bool} {goesOn : Bool} {a : Action} {rest : Script}
    (h : ∀ n act, a.run tolerant n = .ok act → N.Enacts a act)
    (hrest : N.Tells rest (runAll tolerant rest)) :
    N.Tells ((goesOn, a) :: rest) (runAll tolerant ((goesOn, a) :: rest)) := by
  intro s
  have hstep : ∃ entry failure t,
      (record (tolerant || goesOn) (a.run tolerant s.2)).runFrom s = (.ok (entry, failure), t) ∧
        N.action a entry (N.of s.1) (N.of t.1) := by
    cases hact : a.run tolerant s.2 with
    | error name =>
        exact ⟨_, _, _, runFrom_record_unbound _ name s, hN.unbound hact _ _⟩
    | ok act =>
        have hentry := h s.2 act hact (begun s) rfl
        rw [runFrom_record]
        rcases hrun : act.runFrom (begun s) with ⟨e | reply, t⟩
        all_goals
          rw [hrun] at hentry
          exact ⟨_, _, ended t, rfl, hentry⟩
  obtain ⟨entry, failure, t, hrecord, hentry⟩ := hstep
  cases failure with
  | some e =>
      exact ⟨_, _, t, runFrom_runAll_cons_of_some hrecord rest, hN.step hentry (hN.stop _ _)⟩
  | none =>
      obtain ⟨entries, failure, t', hrun, hsteps⟩ := hrest t
      exact ⟨_, failure, t', runFrom_runAll_cons hrecord hrun, hN.step hentry hsteps⟩

end IsTrue

mutual

/-- A step enacts its bodies, by recursion on the step. -/
theorem IsTrue.enacts_run (hN : N.IsTrue) (tolerant : Bool) (n : Notes) (a : Action)
    {act : Run Reply} (hact : a.run tolerant n = .ok act) : N.Enacts a act :=
  match a with
  | .operation op name => by
      rw [Action.run] at hact
      cases hop : op.action n with
      | error e =>
          rw [hop] at hact
          cases hact
      | ok act' =>
          rw [hop] at hact
          rw [← Except.ok.inj hact]
          exact hN.operation name hop
  | .render isReported label vertex fragment queries => by
      rw [← Except.ok.inj hact]
      have hv := hN.tells_runAll tolerant vertex
      have hf := hN.tells_runAll tolerant fragment
      exact hN.render isReported label queries hv.body hf.body
  | .compute isReported label steps queries => by
      rw [← Except.ok.inj hact]
      have hsteps := hN.tells_runAll tolerant steps
      exact hN.compute isReported label queries hsteps.body
  | .func name params steps => by
      rw [← Except.ok.inj hact]
      have hsteps := hN.tells_runAll tolerant steps
      refine hN.enacts_within rfl (List.cons_ne_nil _ _) (.after ?_ fun f => .pure _)
      exact traverses_func name params fun es => hsteps.functionBody _ es
  | .main steps => by
      rw [← Except.ok.inj hact]
      have hsteps := hN.tells_runAll tolerant steps
      exact hN.enacts_within rfl (List.cons_ne_nil _ _) (traverses_main hsteps.body).silently
  | .scope steps => by
      rw [← Except.ok.inj hact]
      have hsteps := hN.tells_runAll tolerant steps
      exact hN.enacts_within rfl (List.cons_ne_nil _ _) (traverses_scope hsteps.body).silently
  | .conditional cond steps branches otherwise => by
      obtain ⟨c, -, hact⟩ := bind_eq_ok_iff.mp hact
      obtain ⟨values, hvalues, hact⟩ := bind_eq_ok_iff.mp hact
      rw [← Except.ok.inj hact]
      have hsteps := hN.tells_runAll tolerant steps
      have hbranches := hN.tells_runBranches tolerant branches n hvalues
      have hlast := hN.tells_runOptional tolerant otherwise
      exact hN.enacts_within rfl (List.cons_ne_nil _ _)
        (traverses_conditional c hsteps hbranches hlast).silently
  | .forRange counter first last steps => by
      obtain ⟨v, -, hact⟩ := bind_eq_ok_iff.mp hact
      obtain ⟨w, -, hact⟩ := bind_eq_ok_iff.mp hact
      rw [← Except.ok.inj hact]
      have hsteps := hN.tells_runAll tolerant steps
      exact hN.enacts_within rfl (List.cons_ne_nil _ _)
        (traverses_forRange counter v w fun e => hsteps.loopBody counter e).silently
  | .whileDo cond steps => by
      obtain ⟨c, -, hact⟩ := bind_eq_ok_iff.mp hact
      rw [← Except.ok.inj hact]
      have hsteps := hN.tells_runAll tolerant steps
      exact hN.enacts_within rfl (List.cons_ne_nil _ _) (traverses_whileDo c hsteps.body).silently
  | .doWhile steps before cond => by
      rw [← Except.ok.inj hact]
      have hsteps := hN.tells_runAll tolerant steps
      have hbefore := hN.tells_runAll tolerant before
      exact hN.enacts_within rfl (List.cons_ne_nil _ _)
        (traverses_doWhile hsteps.body (hbefore.condition cond)).silently
termination_by structural a

/-- A narrative that is right about its parts is right about every script. -/
theorem IsTrue.tells_runAll (hN : N.IsTrue) (tolerant : Bool) (steps : List (Bool × Action)) :
    N.Tells steps (runAll tolerant steps) :=
  match steps with
  | [] => fun s => ⟨[], none, s, rfl, hN.stop _ _⟩
  | (_, a) :: rest =>
      have hrest := hN.tells_runAll tolerant rest
      hN.tells_cons (fun n _ hact => hN.enacts_run tolerant n a hact) hrest
termination_by structural steps

/-- Branches tell their bodies, by recursion on the list. -/
theorem IsTrue.tells_runBranches (hN : N.IsTrue) (tolerant : Bool)
    (branches : List (Operand × List (Bool × Action))) (n : Notes)
    {values : List (Value × Run Outcome)}
    (h : branchValues n (runBranches tolerant branches) = .ok values) :
    List.Forall₂ (fun steps branch => N.Tells steps branch.2) (branches.map (·.2)) values :=
  match branches with
  | [] => by
      rw [← Except.ok.inj h]
      exact .nil
  | (cond, steps) :: rest => by
      obtain ⟨value, -, h⟩ := bind_eq_ok_iff.mp h
      obtain ⟨values, hvalues, h⟩ := bind_eq_ok_iff.mp h
      rw [← Except.ok.inj h]
      exact .cons (hN.tells_runAll tolerant steps) (hN.tells_runBranches tolerant rest n hvalues)
termination_by structural branches

/-- A last branch tells its body. -/
theorem IsTrue.tells_runOptional (hN : N.IsTrue) (tolerant : Bool)
    (otherwise : Option (List (Bool × Action))) :
    Option.Rel N.Tells otherwise (runOptional tolerant otherwise) :=
  match otherwise with
  | none => .none
  | some steps => .some (hN.tells_runAll tolerant steps)
termination_by structural otherwise

end

end Narrative

/-! ## What steps show -/

/-- From a state, steps show a transcript and leave a state. -/
def Shows (tolerant : Bool) (steps : Script) (s : Builder × Notes) (entries : List Entry)
    (t : Builder × Notes) : Prop :=
  ∃ failure, (runAll tolerant steps).runFrom s = (.ok (entries, failure), t)

/-- Every run shows entries and leaves a state. -/
theorem exists_shows (tolerant : Bool) (steps : Script) (s : Builder × Notes) :
    ∃ entries t, Shows tolerant steps s entries t := by
  obtain ⟨⟨entries, failure⟩, t, hrun⟩ := exists_runFrom_runAll tolerant steps s
  exact ⟨entries, t, failure, hrun⟩

/-- The value is where a true narrative tells. -/
theorem Narrative.IsTrue.steps_of_shows (hN : N.IsTrue) {tolerant : Bool} {steps : Script}
    {s t : Builder × Notes} {entries : List Entry} (h : Shows tolerant steps s entries t) :
    N.steps steps entries (N.of s.1) (N.of t.1) := by
  obtain ⟨failure, hrun⟩ := h
  obtain ⟨entries', failure', t', hrun', hsteps⟩ := hN.tells_runAll tolerant steps s
  rw [hrun] at hrun'
  cases hrun'
  exact hsteps

end Script

end WebShader
