import WebShader.Proofs.Nesting

/-!
# Relations indifferent to what a stage holds

A relation of builders is indifferent if it holds along the declaration of a variable, and along
every change of the stage at hand that leaves it the stage it is with the functions it has. Scopes
come and go and statements are emitted by such changes, so that an indifferent relation holds along
all operations but a reset, and along all that opens scopes but the definition of a function. If it
holds along that too, and does not depend on which stage is at hand, it holds along programs, and so
along scripts.
-/

namespace WebShader

/-- A relation that holds along declarations, and along every change of the stage at hand that
leaves it the stage it is with the functions it has. -/
class IsIndifferent (R : Builder → Builder → Prop) : Prop extends IsAdditive R where
  newVar : ∀ name t role init, Build.Follows R (Build.newVar name t role init)
  modifyStage : ∀ {f : OpenStage → OpenStage}, (∀ s, (f s).decls.stage = s.decls.stage) →
    (∀ s, (f s).decls.functions = s.decls.functions) → Build.Follows R (Build.modifyStage f)

/-- An indifferent relation that also holds along the definition of functions, under names that are
identifiers. -/
class IsFullyIndifferent (R : Builder → Builder → Prop) : Prop extends IsIndifferent R where
  addFunction : ∀ {f : Function}, isIdentifier f.name = true → Build.Follows R (Build.addFunction f)

/-- An indifferent relation that also holds along whatever begins and ends stages and programs. -/
class IsPersistent (R : Builder → Builder → Prop) : Prop extends IsFullyIndifferent R where
  opened : ∀ (b : Builder) (which : Stage), R b (b.opened which)
  closed : ∀ b : Builder, R b { b with stage := none }
  phase : ∀ (b : Builder) (phase : Phase), R b { b with phase }

variable {R : Builder → Builder → Prop} [IsIndifferent R]

namespace Build

/-! ## Changes of the stage -/

@[grind ←]
theorem indifferent_newVar (name : String) (t : TypeId) (role : Role) (init : Option NodeId) :
    Follows R (newVar name t role init) := IsIndifferent.newVar name t role init

@[grind ←]
theorem indifferent_setFrame (f : Frame) : Follows R (setFrame f) :=
  IsIndifferent.modifyStage (fun _ => rfl) fun _ => rfl

@[grind ←]
theorem indifferent_emit (st : Stmt NodeId) : Follows R (emit st) := by
  unfold emit
  grind

@[grind ←]
theorem indifferent_extendLast (failure : InternalFault) (f : Stmt NodeId → Option (Stmt NodeId)) :
    Follows R (extendLast failure f) := by
  unfold extendLast
  grind

@[grind ←]
theorem indifferent_pushScope (kind : ScopeKind) : Follows R (pushScope kind) :=
  IsIndifferent.modifyStage (fun _ => rfl) fun _ => rfl

@[grind ←]
theorem indifferent_popScope : Follows R popScope := by
  refine .bind follows_stage fun s => ?_
  split
  · exact .bind (IsIndifferent.modifyStage (fun _ => rfl) fun _ => rfl) fun _ => .pure _
  · exact .throw _

theorem indifferent_modifyDecls {f : StageDecls → StageDecls} (hstage : ∀ d, (f d).stage = d.stage)
    (hfunctions : ∀ d, (f d).functions = d.functions) : Follows R (modifyDecls f) :=
  IsIndifferent.modifyStage (fun s => hstage s.decls) fun s => hfunctions s.decls

theorem indifferent_declareIn (list : DeclList) (name : String) (t : TypeId) (role : Role)
    (init : Option NodeId) : Follows R (declareIn list name t role init) := by
  refine .bind (indifferent_newVar _ _ _ _) fun x => ?_
  refine .bind (indifferent_modifyDecls (fun _ => ?_) fun _ => ?_) fun _ => .pure _
  all_goals cases list <;> rfl

@[grind ←]
theorem indifferent_declareParams (params : List (String × TypeId)) :
    Follows R (declareParams params) := by
  induction params with
  | nil => exact .pure []
  | cons param params ih =>
      unfold declareParams
      grind

/-- The outputs of a stage become inputs of the one at hand. -/
theorem indifferent_inputsFrom (vs : List VarId) : Follows R (inputsFrom vs) := by
  induction vs with
  | nil => exact .pure _
  | cons out rest ih =>
      unfold inputsFrom
      refine .bind .get fun b => ?_
      split
      · refine .bind (indifferent_newVar _ _ _ _) fun x => ?_
        exact .bind (indifferent_modifyDecls (fun _ => rfl) fun _ => rfl) fun _ => ih
      · exact .throw _

end Build

/-! ## Operations -/

/-- A relation that also holds of builders only if the scopes around the one at hand are the
same. -/
def Builder.NestsAlong (R : Builder → Builder → Prop) (b b' : Builder) : Prop := b.Nests b' ∧ R b b'

omit [IsIndifferent R] in
theorem Build.follows_nestsAlong {α : Type} {act : Build α} (hnests : Follows Builder.Nests act)
    (h : Follows R act) : Follows (Builder.NestsAlong R) act := fun b => ⟨hnests b, h b⟩

/-- Where the scopes are kept, an indifferent relation holds along every step of an operation. -/
instance : IsOperational (Builder.NestsAlong R) where
  refl b := ⟨refl_of Builder.Nests b, refl_of R b⟩
  trans _ _ _ h h' := ⟨trans_of Builder.Nests h.1 h'.1, trans_of R h.2 h'.2⟩
  of_adds b b' h := ⟨IsAdditive.of_adds b b' h, IsAdditive.of_adds b b' h⟩
  takes h := IsDeclarative.takes h.1
  setSize size := Build.follows_nestsAlong (IsDeclarative.setSize size)
    (Build.indifferent_modifyDecls (fun _ => rfl) fun _ => rfl)
  setTag e path := Build.follows_nestsAlong (IsDeclarative.setTag e path)
    (IsIndifferent.modifyStage (fun _ => rfl) fun _ => rfl)
  emit h b hb := ⟨IsElementary.emit h b hb, Build.indifferent_emit _ b⟩
  declare name t init b hb := ⟨IsElementary.declare name t init b hb,
    Build.Follows.bind (Build.indifferent_newVar _ _ _ _)
      (fun _ => .bind (Build.indifferent_emit _) fun _ => .pure _) b⟩
  declareIn name t _ init h b hb :=
    ⟨IsDeclarative.declareIn name t init h b hb, Build.indifferent_declareIn _ _ _ _ _ b⟩
  setResult t := Build.follows_nestsAlong (IsOperational.setResult t)
    (IsIndifferent.modifyStage (fun _ => rfl) fun _ => rfl)
  giveBack value :=
    Build.follows_nestsAlong (IsOperational.giveBack value) (Build.indifferent_emit _)

/-- An indifferent relation holds along every operation but a reset. -/
theorem Script.indifferent_operation (R : Builder → Builder → Prop) [IsIndifferent R] {n : Notes}
    {op : Operation} (hop : op ≠ .reset) {act : Run Reply} (h : op.action n = .ok act) :
    Authoring.Follows R act := fun s =>
  (follows_operation_of_ne (R := Builder.NestsAlong R) hop h s).2

/-! ## Scopes -/

namespace Authoring

variable {σ α : Type} {body : Authoring σ Unit}

@[grind ←]
theorem indifferent_inScope (kind : ScopeKind) {act : Authoring σ α} (h : Follows R act) :
    Follows R (inScope kind act) :=
  .bind (.lift (Build.indifferent_pushScope kind)) fun _ => .bind h.attempt fun _ =>
    .bind (.lift Build.indifferent_popScope) fun _ => .pure _

@[grind ←]
theorem indifferent_collect (kind : ScopeKind) (h : Follows R body) :
    Follows R (collect kind body) := by
  unfold collect
  grind

omit [IsIndifferent R] in
/-- What follows the check of a function's name may rely on the name being an identifier. -/
theorem indifferent_checkFunctionName_bind [IsAdditive R] {name : String} {f : Unit → Authoring σ α}
    (hf : isIdentifier name = true → ∀ a, Follows R (f a)) :
    Follows R ((Build.checkFunctionName name : Authoring σ Unit) >>= f) := by
  intro s
  rw [runFrom_bind, ← Prod.eta s, runFrom_lift]
  rcases Build.run_checkFunctionName_cases s.1 name with ⟨e, hrun⟩ | ⟨hrun, -⟩
  · rw [hrun]
    exact refl_of R s.1
  · rw [hrun]
    exact hf (Build.isIdentifier_of_run_checkFunctionName hrun) () s

theorem indifferent_func {R : Builder → Builder → Prop} [IsFullyIndifferent R] (name : String)
    (params : List (String × TypeShape)) {body : List Expr → Authoring σ Unit}
    (h : ∀ es, Follows R (body es)) :
    Follows R (func name params body) := by
  refine indifferent_checkFunctionName_bind fun hname _ => ?_
  refine .bind (.lift (Build.follows_paramTypes _ _)) fun types => ?_
  refine .bind (.lift Build.follows_stage) fun s => ?_
  refine .bind (.lift (Build.follows_requireNewParams _ _ _)) fun _ => ?_
  refine .bind (indifferent_inScope _ (.bind (.lift (Build.indifferent_declareParams _)) fun _ =>
    .bind (h _) fun _ => .pure _)) ?_
  rintro ⟨_ | vars, scope⟩
  · exact .throw _
  · refine .bind (.lift (Build.follows_resultType _ _)) fun t => ?_
    exact .lift (IsFullyIndifferent.addFunction hname)

theorem indifferent_main (h : Follows R body) : Follows R (main body) := by
  have hrest : Follows R (do
      let block ← collect (.function true none) body
      Build.modifyStage fun s => { s with main := some block }) :=
    .bind (indifferent_collect _ h) fun block =>
      .lift (IsIndifferent.modifyStage (fun _ => rfl) fun _ => rfl)
  refine .bind (.lift (Build.follows_requireGlobal _)) fun _ => ?_
  refine .bind (.lift Build.follows_stage) fun s => ?_
  dsimp only
  split
  · exact .bind (.throw _) fun _ => hrest
  · exact hrest

theorem indifferent_forRange (counter : String) (first last : Value)
    {body : Expr → Authoring σ Unit} (h : ∀ e, Follows R (body e)) :
    Follows R (forRange counter first last body) := by
  refine .bind (.lift (Build.follows_requireFunction _)) fun _ => ?_
  refine .bind (.lift (Build.follows_lowerPair _ _)) fun (first, last) => ?_
  refine .bind (.lift (Build.follows_requireBounds _ _)) fun _ => ?_
  refine .bind (indifferent_inScope .loop (.bind (.lift (Build.indifferent_newVar _ _ _ _)) fun x =>
    .bind (h x.2) fun _ => .pure _)) ?_
  rintro ⟨_ | v, frame⟩
  · exact .throw _
  · exact .lift (Build.indifferent_emit _)

theorem indifferent_scope (h : Follows R body) : Follows R (scope body) := by
  unfold scope
  grind

theorem indifferent_ifThen (cond : Value) (h : Follows R body) : Follows R (ifThen cond body) := by
  unfold ifThen
  grind

theorem indifferent_elseIf (cond : Value) (h : Follows R body) : Follows R (elseIf cond body) := by
  unfold elseIf
  grind

theorem indifferent_otherwise (h : Follows R body) : Follows R (otherwise body) := by
  unfold otherwise
  grind

theorem indifferent_whileDo (cond : Value) (h : Follows R body) :
    Follows R (whileDo cond body) := by
  unfold whileDo
  grind

theorem indifferent_doWhile {cond : Authoring σ Value} (h : Follows R body)
    (hcond : Follows R cond) : Follows R (doWhile body cond) := by
  unfold doWhile
  grind

end Authoring

/-- What opens scopes respects every indifferent relation that holds along the definition of
functions. -/
theorem Script.respected_of_indifferent {R : Builder → Builder → Prop} [IsFullyIndifferent R] :
    Respected R where
  func := Authoring.indifferent_func
  main := Authoring.indifferent_main
  scope := Authoring.indifferent_scope
  ifThen cond _ := Authoring.indifferent_ifThen cond
  elseIf cond _ := Authoring.indifferent_elseIf cond
  otherwise := Authoring.indifferent_otherwise
  forRange := Authoring.indifferent_forRange
  whileDo cond _ := Authoring.indifferent_whileDo cond
  doWhile := Authoring.indifferent_doWhile

/-- Where the scopes are kept, what opens scopes respects an indifferent relation that holds along
functions whose bodies keep the scopes. -/
theorem Script.respected_of_nests (hfunc : ∀ name params {body : List Expr → Run Unit},
    (∀ es, Authoring.Follows Builder.Nests (body es)) → (∀ es, Authoring.Follows R (body es)) →
      Authoring.Follows R (Authoring.func name params body)) :
    Respected (Builder.NestsAlong R) where
  func name params _ h s :=
    ⟨Authoring.nests_func name params (fun es s => (h es s).1) s,
      hfunc name params (fun es s => (h es s).1) (fun es s => (h es s).2) s⟩
  main h s := ⟨Authoring.nests_main (fun s => (h s).1) s,
    Authoring.indifferent_main (fun s => (h s).2) s⟩
  scope h s := ⟨Authoring.nests_scope (fun s => (h s).1) s,
    Authoring.indifferent_scope (fun s => (h s).2) s⟩
  ifThen cond _ h s := ⟨Authoring.nests_ifThen cond (fun s => (h s).1) s,
    Authoring.indifferent_ifThen cond (fun s => (h s).2) s⟩
  elseIf cond _ h s := ⟨Authoring.nests_elseIf cond (fun s => (h s).1) s,
    Authoring.indifferent_elseIf cond (fun s => (h s).2) s⟩
  otherwise h s := ⟨Authoring.nests_otherwise (fun s => (h s).1) s,
    Authoring.indifferent_otherwise (fun s => (h s).2) s⟩
  forRange counter first last _ h s :=
    ⟨Authoring.nests_forRange counter first last (fun e s => (h e s).1) s,
      Authoring.indifferent_forRange counter first last (fun e s => (h e s).2) s⟩
  whileDo cond _ h s := ⟨Authoring.nests_whileDo cond (fun s => (h s).1) s,
    Authoring.indifferent_whileDo cond (fun s => (h s).2) s⟩
  doWhile h hcond s :=
    ⟨Authoring.nests_doWhile (fun s => (h s).1) (fun s => (hcond s).1) s,
      Authoring.indifferent_doWhile (fun s => (h s).2) (fun s => (hcond s).2) s⟩

/-! ## Programs -/

section Programs

variable {P : Builder → Builder → Prop} [IsPersistent P]

namespace Build

/-- Opening a stage persists. -/
theorem persists_openStage (which : Stage) (earlier : List VarId) :
    Follows P (openStage which earlier) :=
  .bind (fun b => IsPersistent.opened b which) fun _ => indifferent_inputsFrom earlier

/-- Closing a stage persists. -/
theorem persists_closeStage (which : Stage) : Follows P (closeStage which) := by
  have hclosed : Follows P (modify fun b => { b with stage := none }) := IsPersistent.closed
  unfold closeStage
  grind

/-- The start of a program persists. -/
theorem persists_start : Follows P start := by
  refine .bind .get fun b => ?_
  split
  · exact .throw _
  · exact .throw _
  · exact fun b => IsPersistent.phase b .building

/-- The end of a program persists. -/
theorem persists_finish : Follows P finish := fun b =>
  trans_of P (IsPersistent.closed b) (IsPersistent.phase { b with stage := none } .done)

end Build

namespace Authoring

variable {σ α : Type} {body : Authoring σ Unit}

/-- A stage persists if its body does. -/
theorem persists_stage (which : Stage) (earlier : List VarId) (h : Follows P body) :
    Follows P (stage which earlier body) :=
  .bind (.lift (Build.persists_openStage _ _)) fun _ => .bind h fun _ =>
    .lift (Build.persists_closeStage _)

/-- A program persists if what it compiles does. -/
theorem persists_asProgram {compile : Authoring σ α} (h : Follows P compile) :
    Follows P (asProgram compile) := by
  refine .bind (.lift Build.persists_start) fun _ => .bind h.attempt fun result => ?_
  refine .bind (.lift Build.persists_finish) fun _ => ?_
  cases result with
  | ok program => exact .pure _
  | error e => exact .throw e

end Authoring

/-- A persistent relation holds along all that scripts do without a reset. -/
theorem Script.holdsAlong_of_persistent : HoldsAlong P (· ≠ .reset) where
  toRespected := respected_of_indifferent
  operation hop h := indifferent_operation P hop h
  render label _ _ hv hf :=
    Authoring.persists_asProgram (Authoring.follows_compileRender label
      (Authoring.persists_stage _ _ hv) fun _ => Authoring.persists_stage _ _ hf)
  compute label _ h := Authoring.persists_asProgram
    (Authoring.follows_compileCompute label (Authoring.persists_stage _ _ h))

end Programs

end WebShader
