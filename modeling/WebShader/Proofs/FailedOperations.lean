import WebShader.Proofs.Nesting

/-!
# Failed operations

What an operation has changed when it fails is not undone. A failed operation is confined all the
same: it may leave more types, expressions, variables without a name, built-ins in use and
extensions, but none of the scopes, statements and declarations of the stage. If the operation runs
bodies, they may also have left tags, the type that a function returns and the size of workgroups,
unless they have reset the builder.
-/

namespace WebShader

/-- What a failed operation without bodies leaves. -/
abbrev Builder.Spares : Builder → Builder → Prop := Builder.Kept OpenStage.Adds

/-- What a failed operation with bodies leaves. -/
abbrev Builder.Restores : Builder → Builder → Prop := Builder.KeptOrLost OpenStage.Restores

/-! ## Operations that fail -/

/-- A reflexive and transitive relation of builders that holds when something is added, and only of
builders that are the same around their innermost scopes. -/
class IsConfining (R : Builder → Builder → Prop) : Prop extends IsAdditive R where
  nests : ∀ {b b'}, R b b' → b.Nests b'

instance {P : OpenStage → OpenStage → Prop} [IsStageOrder P] : IsConfining (Builder.Kept P) where
  nests h := Or.inl (h.mono IsStageOrder.nests)

instance {P : OpenStage → OpenStage → Prop} [IsStageOrder P] :
    IsConfining (Builder.KeptOrLost P) where
  nests h := h.imp_left (·.mono IsStageOrder.nests)

/-- The scope at hand belongs to a function. -/
def Builder.IsInside (b : Builder) : Prop :=
  ∃ s f g rest, b.stage = some s ∧ s.frames = f :: g :: rest

/-- A builder stays inside of a function. -/
theorem Builder.Kept.isInside {b b' : Builder} (h : b.Spares b') (hb : b.IsInside) :
    b'.IsInside := by
  obtain ⟨s, f, g, rest, hs, hframes⟩ := hb
  have hstage := h.stage
  rw [hs] at hstage
  cases hs' : b'.stage with
  | none => rw [hs'] at hstage; cases hstage
  | some s' =>
      rw [hs'] at hstage
      cases hstage with
      | some hadds =>
          have hsame : s'.stem.frames = s.stem.frames := by rw [hadds.stem]
          exact ⟨s', f, g, rest, hs', hsame.trans hframes⟩

namespace Build

/-- The builder an operation leaves when it fails is related to the one it has run on. -/
def Fails {α : Type} (R : Builder → Builder → Prop) (act : Build α) : Prop :=
  ∀ (b : Builder) e b', b.IsGrounded → b.run act = (.error e, b') → R b b'

/-- The same of an operation that runs inside of a function. -/
def FailsInside {α : Type} (act : Build α) : Prop :=
  ∀ (b : Builder) e b', b.IsInside → b.run act = (.error e, b') → b.Spares b'

variable {α β : Type} {R : Builder → Builder → Prop} [IsConfining R]

omit [IsConfining R] in
/-- What is related after every run is after a failed one. -/
@[grind ←]
theorem Fails.of_follows {act : Build α} (h : Follows R act) : Fails R act := by
  intro b e b' _ hrun
  have hb := h b
  rwa [hrun] at hb

/-- One after the other. -/
@[grind ←]
theorem Fails.bind {act : Build α} {f : α → Build β} (h : Follows R act)
    (hf : ∀ a, Fails R (f a)) : Fails R (act >>= f) := by
  intro b e b' hb hrun
  have hact := h b
  rw [Builder.run_bind] at hrun
  rcases hfirst : b.run act with ⟨_ | a, b₁⟩
  · rw [hfirst] at hrun hact
    obtain ⟨-, rfl⟩ := Prod.mk.inj hrun
    exact hact
  · rw [hfirst] at hrun hact
    exact trans_of R hact (hf a b₁ e b' ((IsConfining.nests hact).isGrounded hb) hrun)

omit [IsConfining R] in
/-- What gives the result cannot fail. -/
theorem Fails.bind_pure {act : Build α} {f : α → β} (h : Fails R act) :
    Fails R (act >>= fun a => pure (f a)) := by
  intro b e b' hb hrun
  rw [Builder.run_bind] at hrun
  rcases hfirst : b.run act with ⟨e' | a, b₁⟩
  · rw [hfirst] at hrun
    obtain ⟨-, rfl⟩ := Prod.mk.inj hrun
    exact h b e' b₁ hb hfirst
  · rw [hfirst] at hrun
    cases (Prod.mk.inj hrun).1

/-- One after the other, inside of a function. -/
@[grind ←]
theorem FailsInside.bind {act : Build α} {f : α → Build β}
    (h : Follows Builder.Spares act) (hf : ∀ a, FailsInside (f a)) :
    FailsInside (act >>= f) := by
  intro b e b' hb hrun
  have hact := h b
  rw [Builder.run_bind] at hrun
  rcases hfirst : b.run act with ⟨_ | a, b₁⟩
  · rw [hfirst] at hrun hact
    obtain ⟨-, rfl⟩ := Prod.mk.inj hrun
    exact hact
  · rw [hfirst] at hrun hact
    exact hact.trans (hf a b₁ e b' (hact.isInside hb) hrun)

/-- What follows a check that a function is at hand runs inside of it. -/
@[grind ←]
theorem fails_requireFunction_bind {what : String} {f : Unit → Build β} (hf : FailsInside (f ())) :
    Fails Builder.Spares (requireFunction what >>= f) := by
  intro b e b' hb hrun
  rw [Builder.run_bind] at hrun
  unfold requireFunction inGlobalScope at hrun
  cases hs : b.stage with
  | none =>
      rw [Builder.run_bind, Builder.run_bind, Builder.run_stage_of_none hs] at hrun
      obtain ⟨-, rfl⟩ := Prod.mk.inj hrun
      exact b.kept_refl
  | some s =>
      rw [Builder.run_bind, Builder.run_bind, Builder.run_stage_of_some hs] at hrun
      dsimp only [Builder.run_pure] at hrun
      match hframes : s.frames with
      | [] => exact absurd hframes (hb.frames_ne_nil hs)
      | [_] =>
          rw [if_pos (by simp [hframes])] at hrun
          obtain ⟨-, rfl⟩ := Prod.mk.inj hrun
          exact b.kept_refl
      | g :: g' :: rest =>
          rw [if_neg (by simp [hframes])] at hrun
          exact hf b e b' ⟨s, g, g', rest, hs, hframes⟩ hrun

/-- A function is only at hand inside of one. -/
@[grind ←]
theorem fails_enclosingFunction_bind {f : Bool × Option TypeId → Build β}
    (hf : ∀ found, FailsInside (f found)) :
    Fails Builder.Spares (enclosingFunction >>= f) := by
  intro b e b' hb hrun
  rw [Builder.run_bind] at hrun
  unfold enclosingFunction at hrun
  cases hs : b.stage with
  | none =>
      rw [Builder.run_bind, Builder.run_stage_of_none hs] at hrun
      obtain ⟨-, rfl⟩ := Prod.mk.inj hrun
      exact b.kept_refl
  | some s =>
      rw [Builder.run_bind, Builder.run_stage_of_some hs] at hrun
      dsimp only at hrun
      cases hfound : enclosingFunction? s.frames with
      | none =>
          rw [hfound] at hrun
          obtain ⟨-, rfl⟩ := Prod.mk.inj hrun
          exact b.kept_refl
      | some found =>
          rw [hfound] at hrun
          match hframes : s.frames with
          | [] => exact absurd hframes (hb.frames_ne_nil hs)
          | [g] =>
              have hglobal := hb s hs
              rw [hframes] at hglobal hfound
              cases hkind : g.kind with
              | global => simp [enclosingFunction?, hkind] at hfound
              | function | branch | loop | block => simp [hkind, ScopeKind.opening] at hglobal
          | g :: g' :: rest => exact hf found b e b' ⟨s, g, g', rest, hs, hframes⟩ hrun

/-! ## Operations without bodies -/

open Follows

theorem fails_emit (st : Stmt NodeId) : Fails R (emit st) := by
  intro b e b' _ hrun
  rcases run_emit_cases b st with ⟨e', hrun'⟩ | ⟨s, f, rest, -, -, hrun'⟩
  · rw [hrun'] at hrun
    obtain ⟨-, rfl⟩ := Prod.mk.inj hrun
    exact refl_of R b
  · rw [hrun'] at hrun
    cases (Prod.mk.inj hrun).1

/-- A statement can be emitted inside of a function. -/
theorem run_emit_of_cons {b : Builder} {s : OpenStage} {f g : Frame} {rest : List Frame}
    (hs : b.stage = some s) (hframes : s.frames = f :: g :: rest) (st : Stmt NodeId) :
    ∃ b', b.run (emit st) = (.ok (), b') := by
  have hguard : b.run (requireFunction "statements") = (.ok (), b) := by
    unfold requireFunction inGlobalScope
    rw [Builder.run_bind, Builder.run_bind, Builder.run_stage_of_some hs]
    dsimp only [Builder.run_pure]
    rw [if_neg (by simp [hframes])]
    rfl
  unfold emit
  rw [Builder.run_bind, hguard]
  dsimp only
  rw [Builder.run_bind, run_frame_of_cons hs hframes]
  exact ⟨_, run_setFrame_of_cons hs hframes _⟩

/-- A variable that cannot be declared may be left without a name. -/
theorem failsInside_declare (name : String) (t : TypeId) (init : Option NodeId) :
    FailsInside (declare name t init) := by
  rintro b e b' ⟨s, f, g, rest, hs, hframes⟩ hrun
  unfold declare at hrun
  rw [Builder.run_bind] at hrun
  rcases run_newVar_cases b name t .localVar none with
    ⟨fault, b₁, hnew, hb₁⟩ | ⟨s', f', rest', e', hs', hframes', -, hnew⟩
  · rw [hnew] at hrun
    obtain ⟨-, rfl⟩ := Prod.mk.inj hrun
    rcases hb₁ with rfl | ⟨d, rfl⟩
    · exact b₁.kept_refl
    · exact b.kept_withVar d
  · rw [hnew] at hrun
    obtain rfl := Option.some.inj (hs.symm.trans hs')
    obtain ⟨rfl, rfl⟩ := List.cons.inj (hframes.symm.trans hframes')
    dsimp only at hrun
    rw [Builder.run_bind] at hrun
    have hstage : ∀ (b : Builder) f', (b.withFrame s f' (g :: rest)).stage =
        some { s with frames := f' :: g :: rest } := fun _ _ => rfl
    obtain ⟨b₂, hemit⟩ := run_emit_of_cons (hstage _ _) rfl (.declare ⟨b.vars.size⟩ init)
    rw [hemit] at hrun
    cases (Prod.mk.inj hrun).1

theorem fails_declareIn (list : DeclList) (name : String) (t : TypeId) (role : Role)
    (init : Option NodeId) :
    Fails Builder.Spares (declareIn list name t role init) := by
  intro b e b' _ hrun
  unfold declareIn at hrun
  rw [Builder.run_bind] at hrun
  rcases run_newVar_cases b name t role init with
    ⟨fault, b₁, hnew, hb₁⟩ | ⟨s, f, rest, e', -, -, -, hnew⟩
  · rw [hnew] at hrun
    obtain ⟨-, rfl⟩ := Prod.mk.inj hrun
    rcases hb₁ with rfl | ⟨d, rfl⟩
    · exact b₁.kept_refl
    · exact b.kept_withVar d
  · rw [hnew] at hrun
    dsimp only at hrun
    rw [Builder.run_bind, modifyDecls, Builder.run_modifyStage_of_some rfl] at hrun
    cases (Prod.mk.inj hrun).1

/-- Once the type that a function returns is fixed, the `return` is recorded. -/
theorem failsInside_return (t : TypeId) (st : Stmt NodeId) :
    FailsInside (do
      setResult t
      emit st) := by
  rintro b e b' ⟨s, f, g, rest, hs, hframes⟩ hrun
  rw [Builder.run_bind, setResult, Builder.run_modifyStage_of_some hs] at hrun
  dsimp only at hrun
  have hlength : ∀ fs, (fixResult t fs).length = fs.length := by
    intro fs
    rw [← List.length_map, map_outline_fixResult, List.length_map]
  match hfixed : fixResult t s.frames with
  | [] | [_] =>
      have hshort := hlength s.frames
      rw [hfixed, hframes] at hshort
      simp at hshort
  | f' :: g' :: rest' =>
      let s' : OpenStage := { s with frames := fixResult t s.frames }
      obtain ⟨b₂, hemit⟩ := run_emit_of_cons (b := { b with stage := some s' }) rfl hfixed st
      rw [hemit] at hrun
      cases (Prod.mk.inj hrun).1

@[grind ←]
theorem fails_declareLocal (name : String) (init : Value) :
    Fails Builder.Spares (declareLocal name init) := by
  refine fails_requireFunction_bind (.bind (follows_lower _ _) fun e => ?_)
  exact .bind (follows_requireSized _ _ _) fun _ => failsInside_declare _ _ _

@[grind ←]
theorem fails_declareVar (name : String) (shape : TypeShape) :
    Fails Builder.Spares (declareVar name shape) := by
  refine fails_requireFunction_bind (.bind (follows_type _) fun e => ?_)
  exact .bind (follows_requireSized _ _ _) fun _ => failsInside_declare _ _ _

@[grind ←]
theorem fails_assign (target : Expr) (value : Value) :
    Fails Builder.Spares (assign target value) := by
  refine .bind .get fun b => .bind (.liftM _) fun _ => ?_
  exact .bind (follows_coerce _ _ _) fun e => fails_emit _

@[grind ←]
theorem fails_assignOp (target : Expr) (op : BinaryOp) (value : Value) :
    Fails Builder.Spares (assignOp target op value) := by
  have hemit : ∀ e : Expr, Fails Builder.Spares
      (emit (.assign target.node (some op) e.node)) := fun e => fails_emit _
  unfold assignOp
  grind

@[grind ←]
theorem fails_assignNamed (name : String) (value : Value) :
    Fails Builder.Spares (assignNamed name value) := by
  refine .bind .get fun b => ?_
  split
  · exact .bind_pure (fails_assign _ _)
  · exact fails_declareLocal name value

@[grind ←]
theorem fails_eval (e : Expr) : Fails Builder.Spares (eval e) := fails_emit _

@[grind ←]
theorem fails_breakLoop : Fails Builder.Spares breakLoop :=
  .bind (follows_requireLoop _) fun _ => fails_emit _

@[grind ←]
theorem fails_continueLoop : Fails Builder.Spares continueLoop :=
  .bind (follows_requireLoop _) fun _ => fails_emit _

@[grind ←]
theorem fails_discard : Fails Builder.Spares discard := by
  have hemit : Fails Builder.Spares (emit .discard) := fails_emit _
  unfold discard
  grind

@[grind ←]
theorem fails_returnValue (v : Value) : Fails Builder.Spares (returnValue v) := by
  have hreturn : ∀ e : Expr, FailsInside (do
      setResult e.type
      emit (.returnWith (some e.node))) := fun e => failsInside_return _ _
  refine fails_enclosingFunction_bind fun (isMain, expected) => ?_
  grind

@[grind ←]
theorem fails_returnVoid : Fails Builder.Spares returnVoid := by
  have hreturn : ∀ t, FailsInside (do
      setResult t
      emit (.returnWith none)) := fun t => failsInside_return _ _
  refine .bind follows_void fun t => ?_
  refine fails_enclosingFunction_bind fun (isMain, expected) => ?_
  grind

/-- A call that fails after its function is known. -/
theorem confined_of_run_calling {name : String} {args : List Value} {f : FunctionId} {fn : Function}
    {b b' : Builder} {e : ShaderError} (hf : b.function? f = some fn) (hb : b.IsGrounded)
    (hrun : b.run (do
      let nodes ← coerceAll name (args.zip fn.paramTypes)
      let e ← pushNode fn.result (.call f nodes)
      if (← get).types.isVoid fn.result then emit (.eval e.node)
      return e) = (.error e, b')) :
    b.Spares b' := by
  have hemit : ∀ e : Expr, Fails Builder.Spares (do
      emit (.eval e.node)
      return e) := fun e => .bind_pure (fails_emit _)
  have hrest : ∀ e : Expr, Fails Builder.Spares (do
      if (← get).types.isVoid fn.result then emit (.eval e.node)
      return e) := fun e => by grind
  rw [Builder.run_bind] at hrun
  rcases hcoerce : b.run (coerceAll name (args.zip fn.paramTypes)) with ⟨_ | nodes, b₁⟩
  · rw [hcoerce] at hrun
    obtain ⟨-, rfl⟩ := Prod.mk.inj hrun
    exact (follows_coerceAll _ _).of_run hcoerce
  · rw [hcoerce] at hrun
    have hadds : b.Adds b₁ := (follows_coerceAll _ _).of_run hcoerce
    have hcalls : b₁.Adds (b₁.run (pushNode fn.result (.call f nodes))).2 :=
      follows_pushCall _ f nodes fn b₁ ((hadds.function?_eq f).trans hf)
    have hspares := IsAdditive.of_adds (R := Builder.Spares) _ _ (hadds.trans hcalls)
    exact trans_of Builder.Spares hspares
      (hrest _ _ _ _ ((IsConfining.nests hspares).isGrounded hb) hrun)

@[grind ←]
theorem fails_call (name : String) (args : List Value) :
    Fails Builder.Spares (call name args) := by
  unfold call
  refine .bind follows_stage fun s => ?_
  dsimp only
  -- what follows the check is the same whether the check is made or not
  split
  case' isTrue => refine .bind (.throw _) fun _ => ?_
  all_goals
    intro b e b' hb hrun
    have hfollows := follows_chooseOverload (R := Builder.Spares) args (s.decls.overloads name) b
    have hchosen := delivers_chooseOverload (C := fun _ => True) args (s.decls.overloads name) b
    rw [Builder.run_bind] at hrun
    rcases hrun₁ : b.run (chooseOverload args (s.decls.overloads name)) with ⟨_ | chosen, b₁⟩
    · rw [hrun₁] at hrun hfollows
      obtain ⟨-, rfl⟩ := Prod.mk.inj hrun
      exact hfollows
    · rw [hrun₁] at hrun hfollows
      have hb₁ := (IsConfining.nests hfollows).isGrounded hb
      refine trans_of Builder.Spares hfollows ?_
      rcases chosen with _ | ⟨f, fn⟩
      · exact Fails.of_follows (by grind) b₁ e b' hb₁ hrun
      · exact confined_of_run_calling (hchosen _ _ trivial hrun₁ f fn rfl) hb₁ hrun

@[grind ←]
theorem fails_assignBuiltin (b : Builtin) (value : Value) :
    Fails Builder.Spares (assignBuiltin b value) :=
  .bind (follows_builtin b) fun e => fails_assign e value

theorem fails_modifyStage (f : OpenStage → OpenStage) : Fails R (modifyStage f) := by
  intro b e b' _ hrun
  cases hs : b.stage with
  | none =>
      rw [Builder.run_modifyStage_of_none hs] at hrun
      obtain ⟨-, rfl⟩ := Prod.mk.inj hrun
      exact refl_of R b
  | some s =>
      rw [Builder.run_modifyStage_of_some hs] at hrun
      cases (Prod.mk.inj hrun).1

@[grind ←]
theorem fails_tag (e : Expr) (path : String) :
    Fails Builder.Spares (tag e path) := by
  have hset : Fails Builder.Spares
    (modifyStage fun s => { s with tags := putTag s.tags path e }) := fails_modifyStage _
  unfold tag
  grind

@[grind ←]
theorem fails_setWorkgroupSize (x y z : UInt32) :
    Fails Builder.Spares (setWorkgroupSize x y z) := by
  have hset : Fails Builder.Spares
    (modifyDecls fun d => { d with workgroupSize := (x, y, z) }) := fails_modifyStage _
  unfold setWorkgroupSize
  grind

@[grind ←]
theorem fails_resource (name : String) (t : TypeId) (role : Role) :
    Fails Builder.Spares (resource name t role) :=
  fails_declareIn .resources name t role none

@[grind ←]
theorem fails_uniformTexture (name : String) (texture : TextureType) (group : UInt32) :
    Fails Builder.Spares (uniformTexture name texture group) := by
  unfold uniformTexture
  grind

@[grind ←]
theorem fails_uniformSampler (name : String) (kind : SamplerKind) (group : UInt32) :
    Fails Builder.Spares (uniformSampler name kind group) := by
  unfold uniformSampler
  grind

@[grind ←]
theorem fails_uniformValue (name : String) (shape : TypeShape) (group : UInt32) :
    Fails Builder.Spares (uniformValue name shape group) := by
  unfold uniformValue
  grind

@[grind ←]
theorem fails_uniform (name : String) (shape : TypeShape) (group : UInt32) :
    Fails Builder.Spares (uniform name shape group) := by
  unfold uniform
  grind

@[grind ←]
theorem fails_storage (name : String) (shape : TypeShape) (group : UInt32) (readOnly : Bool) :
    Fails Builder.Spares (storage name shape group readOnly) := by
  unfold storage
  grind

@[grind ←]
theorem fails_workgroup (name : String) (shape : TypeShape) :
    Fails Builder.Spares (workgroup name shape) := by
  unfold workgroup
  grind

@[grind ←]
theorem fails_constant (name : String) (value : Value) :
    Fails Builder.Spares (constant name value) := by
  have hdeclare : ∀ e : Expr, Fails Builder.Spares
      (declareIn .constants name e.type .constant (some e.node)) :=
    fun e => fails_declareIn _ _ _ _ _
  refine .bind (follows_requireGlobal _) fun _ => .bind (follows_lower _ _) fun e => ?_
  refine .bind .get fun b => ?_
  dsimp only
  split
  · exact .bind (.throw _) fun _ => hdeclare e
  · exact hdeclare e

@[grind ←]
theorem fails_vertexInput (name : String) (shape : TypeShape) (semantic : Semantic) :
    Fails Builder.Spares (vertexInput name shape semantic) := by
  have hdeclare : ∀ t, Fails Builder.Spares
      (declareIn .inputs name t (.input semantic.location (some semantic)) none) :=
    fun t => fails_declareIn _ _ _ _ _
  unfold vertexInput
  refine .bind follows_stage fun s => ?_
  dsimp only
  -- what follows a check is the same whether the check is made or not
  split
  case' isTrue => refine .bind (.throw _) fun _ => ?_
  all_goals
    refine .bind (follows_requireGlobal _) fun _ => ?_
    refine .bind (follows_interfaceType _ _ _) fun x => ?_
    obtain ⟨t, p⟩ := x
    dsimp only
    split
    case' isTrue => refine .bind (follows_require _) fun _ => ?_
    all_goals
      refine .bind .get fun b => .bind follows_stage fun s' => ?_
      split
      · exact .bind (.throw _) fun _ => hdeclare t
      · exact hdeclare t

@[grind ←]
theorem fails_output (name : String) (shape : TypeShape) :
    Fails Builder.Spares (output name shape) := by
  have hdeclare : ∀ t location, Fails Builder.Spares
      (declareIn .outputs name t (.output location) none) :=
    fun t location => fails_declareIn _ _ _ _ _
  unfold output
  refine .bind follows_stage fun s => ?_
  dsimp only
  -- what follows a check is the same whether the check is made or not
  split
  case' isTrue => refine .bind (.throw _) fun _ => ?_
  all_goals
    refine .bind (follows_requireGlobal _) fun _ => ?_
    refine .bind (follows_interfaceType _ _ _) fun x => ?_
    obtain ⟨t, p⟩ := x
    dsimp only
    split
    case' isTrue => refine .bind (follows_require _) fun _ => ?_
    all_goals
      refine .bind follows_stage fun s' => .bind .get fun b => ?_
      split
      · exact .bind (follows_checkColor _ _ _) fun _ => hdeclare t _
      · exact hdeclare t _

end Build

/-! ## Operations with bodies -/

namespace Authoring

variable {σ α β : Type} {R : Builder → Builder → Prop} [IsConfining R]

/-- The builder a run leaves when it fails is related to the one it has started from. -/
def Fails (R : Builder → Builder → Prop) (act : Authoring σ α) : Prop :=
  ∀ s e s', s.1.IsGrounded → act.runFrom s = (.error e, s') → R s.1 s'.1

namespace Fails

omit [IsConfining R] in
/-- An operation of the builder fails as it does on its own. -/
theorem lift {act : Build α} (h : Build.Fails R act) : Fails R (act : Authoring σ α) := by
  intro s e s' hs hrun
  obtain ⟨hresult, rfl⟩ := Prod.mk.inj hrun
  exact h s.1 e _ hs (Prod.ext hresult rfl)

/-- One after the other. -/
theorem bind {act : Authoring σ α} {f : α → Authoring σ β}
    (h : ∀ s : Builder × σ, s.1.HasScope → R s.1 (act.runFrom s).2.1)
    (hf : ∀ a, Fails R (f a)) : Fails R (act >>= f) := by
  intro s e s' hs hrun
  have hact := h s hs.hasScope
  rw [runFrom_bind] at hrun
  rcases hfirst : act.runFrom s with ⟨_ | a, s₁⟩
  · rw [hfirst] at hrun hact
    obtain ⟨-, rfl⟩ := Prod.mk.inj hrun
    exact hact
  · rw [hfirst] at hrun hact
    exact trans_of R hact (hf a s₁ e s' ((IsConfining.nests hact).isGrounded hs) hrun)

/-- An operation of the builder with what follows it. -/
theorem lift_bind {act : Build α} {f : α → Authoring σ β} (h : Build.Follows R act)
    (hf : ∀ a, Fails R (f a)) : Fails R ((act : Authoring σ α) >>= f) :=
  bind (fun s _ => h s.1) hf

end Fails

section Bodies

variable {act : Authoring σ α} {body : Authoring σ Unit}

/-- What has run in a new scope is confined to it. -/
theorem restores_inScope (kind : ScopeKind) (h : Follows Builder.Nests act) (s : Builder × σ)
    (hs : s.1.HasScope) : s.1.Restores ((inScope kind act).runFrom s).2.1 := by
  rcases run_inScope kind h s.1 s.2 with hkept | hlost
  · refine Or.inl ⟨hkept.toGrows, ?_⟩
    have hstage := hkept.stage
    cases hb : s.1.stage with
    | none =>
        rw [hb] at hstage
        cases hb' : Builder.stage _ with
        | none => exact .none
        | some s' => rw [hb'] at hstage; cases hstage
    | some t =>
        rw [hb] at hstage
        cases hb' : Builder.stage _ with
        | none => rw [hb'] at hstage; cases hstage
        | some t' =>
            rw [hb'] at hstage
            cases hstage with
            | some hleaves => exact .some (hleaves.2 (hs t hb))
  · exact Or.inr hlost

/-- A body restores the scopes around it, or has lost the stage. -/
theorem restores_collect (kind : ScopeKind) (h : Follows Builder.Nests body) (s : Builder × σ)
    (hs : s.1.HasScope) : s.1.Restores ((collect kind body).runFrom s).2.1 := by
  have hleft := restores_inScope kind h s hs
  unfold collect
  rw [runFrom_bind]
  rcases hrun : (inScope kind body).runFrom s with ⟨_ | ⟨_ | _, frame⟩, s'⟩
  all_goals
    rw [hrun] at hleft
    exact hleft

theorem fails_emit (st : Stmt NodeId) : Fails R (Build.emit st : Authoring σ Unit) :=
  .lift (Build.fails_emit st)

theorem fails_extendLast (failure : InternalFault) (f : Stmt NodeId → Option (Stmt NodeId)) :
    Fails R (Build.extendLast failure f : Authoring σ Unit) := by
  refine .lift fun b e b' _ hrun => ?_
  unfold Build.extendLast at hrun
  rw [Builder.run_bind] at hrun
  rcases Build.run_frame_cases b with ⟨e', hframe⟩ | ⟨s, g, rest, hs, hframes, hframe⟩
  · rw [hframe] at hrun
    obtain ⟨-, rfl⟩ := Prod.mk.inj hrun
    exact refl_of R b
  · rw [hframe] at hrun
    dsimp only at hrun
    split at hrun
    · rw [Build.run_setFrame_of_cons hs hframes] at hrun
      cases (Prod.mk.inj hrun).1
    · obtain ⟨-, rfl⟩ := Prod.mk.inj hrun
      exact refl_of R b

theorem fails_ifThen (v : Value) (h : Follows Builder.Nests body) :
    Fails Builder.Restores (ifThen v body) :=
  .lift_bind (Build.follows_requireFunction _) fun _ =>
    .lift_bind (Build.follows_condition v) fun _ =>
      .bind (restores_collect _ h) fun _ => fails_emit _

theorem fails_elseIf (v : Value) (h : Follows Builder.Nests body) :
    Fails Builder.Restores (elseIf v body) :=
  .lift_bind (Build.follows_condition v) fun _ =>
    .bind (restores_collect _ h) fun _ => fails_extendLast _ _

theorem fails_otherwise (h : Follows Builder.Nests body) :
    Fails Builder.Restores (otherwise body) :=
  .bind (restores_collect _ h) fun _ => fails_extendLast _ _

theorem fails_whileDo (v : Value) (h : Follows Builder.Nests body) :
    Fails Builder.Restores (whileDo v body) :=
  .lift_bind (Build.follows_requireFunction _) fun _ =>
    .lift_bind (Build.follows_condition v) fun _ =>
      .bind (restores_collect _ h) fun _ => fails_emit _

/-- The condition of the loop has run in the scope around it. -/
theorem fails_doWhile {cond : Authoring σ Value} (h : Follows Builder.Nests body)
    (hcond : Follows Builder.Nests cond) : Fails Builder.Nests (doWhile body cond) :=
  .lift_bind (Build.follows_requireFunction _) fun _ =>
    .bind (fun s _ => follows_collect _ h s) fun _ => .bind (fun s _ => hcond s) fun v =>
      .lift_bind (Build.follows_condition v) fun _ => fails_emit _

theorem fails_scope (h : Follows Builder.Nests body) : Fails Builder.Restores (scope body) :=
  .lift_bind (Build.follows_requireFunction _) fun _ =>
    .bind (restores_collect _ h) fun _ => fails_emit _

theorem fails_throw (e : ShaderError) : Fails R (throw e : Authoring σ α) := by
  intro s e' s' _ hrun
  obtain ⟨-, rfl⟩ := Prod.mk.inj hrun
  exact refl_of R s.1

theorem fails_forRange (counter : String) (first last : Value) {body : Expr → Authoring σ Unit}
    (h : ∀ e, Follows Builder.Nests (body e)) :
    Fails Builder.Restores (forRange counter first last body) := by
  refine .lift_bind (Build.follows_requireFunction _) fun _ => ?_
  refine .lift_bind (Build.follows_lowerPair _ _) fun (first, last) => ?_
  refine .lift_bind (Build.follows_requireBounds _ _) fun _ => ?_
  refine .bind (restores_inScope .loop (nests_loop counter first.type h)) ?_
  rintro ⟨_ | v, frame⟩
  · exact fails_throw _
  · exact fails_emit _

theorem fails_func (name : String) (params : List (String × TypeShape))
    {body : List Expr → Authoring σ Unit} (h : ∀ es, Follows Builder.Nests (body es)) :
    Fails Builder.Restores (func name params body) := by
  refine .lift_bind (Build.follows_checkFunctionName _) fun _ => ?_
  refine .lift_bind (Build.follows_paramTypes _ _) fun types => ?_
  refine .lift_bind Build.follows_stage fun st => ?_
  refine .lift_bind (Build.follows_requireNewParams _ _ _) fun _ => ?_
  refine .bind (restores_inScope _ (nests_params _ h)) ?_
  rintro ⟨_ | vars, scope⟩
  · exact fails_throw _
  · refine .lift_bind (Build.follows_resultType _ _) fun t => ?_
    exact .lift (.bind Build.follows_stage fun s => .bind_pure (Build.fails_modifyStage _))

theorem fails_main (h : Follows Builder.Nests body) : Fails Builder.Restores (main body) := by
  refine .lift_bind (Build.follows_requireGlobal _) fun _ => ?_
  refine .lift_bind Build.follows_stage fun st => ?_
  have hrest : Fails Builder.Restores (do
      let block ← collect (.function true none) body
      Build.modifyStage fun s => { s with main := some block }) :=
    .bind (restores_collect _ h) fun block => .lift (Build.fails_modifyStage _)
  dsimp only
  split
  · exact .lift_bind (.throw _) fun _ => hrest
  · exact hrest

/-- A program inside of another one is refused, and nothing changes. -/
theorem runFrom_asProgram_of_building (compile : Authoring σ α) {s : Builder × σ}
    (h : s.1.phase = .building) :
    (asProgram compile).runFrom s = (.error (.internal .reentrant), s) := by
  rw [show s = (s.1, s.2) from rfl, runFrom_asProgram, h]

end Bodies

end Authoring

/-- A new scope leaves the outermost one where it is. -/
theorem Builder.IsGrounded.pushScope {b : Builder} (hb : b.IsGrounded) (kind : ScopeKind) :
    (b.run (Build.pushScope kind)).2.IsGrounded := by
  cases hs : b.stage with
  | none =>
      rw [Build.pushScope, Builder.run_modifyStage_of_none hs]
      exact hb
  | some s =>
      rw [Authoring.run_pushScope_of_some hs]
      intro s' hs'
      rw [← Option.some.inj hs', List.getLast?_cons_of_ne_nil (hb.frames_ne_nil hs)]
      exact hb s hs

/-! ## Scripts -/

namespace Script

open Authoring

section Replies

variable {R : Builder → Builder → Prop}

/-- Showing what an operation has made cannot fail. -/
@[grind ←]
theorem fails_showResult {act : Build Expr} (h : Build.Fails R act) : Fails R (showResult act) := by
  intro s e s' hs hrun
  unfold showResult at hrun
  rw [runFrom_bind] at hrun
  rcases hfirst : runFrom (act : Run Expr) s with ⟨e' | a, s₁⟩
  · rw [hfirst] at hrun
    obtain ⟨-, rfl⟩ := Prod.mk.inj hrun
    exact Fails.lift h s e' s₁ hs hfirst
  · rw [hfirst] at hrun
    cases (Prod.mk.inj hrun).1

@[grind ←]
theorem fails_quietly {act : Build Unit} (h : Build.Fails R act) : Fails R (quietly act) := by
  intro s e s' hs hrun
  unfold quietly at hrun
  rw [runFrom_bind] at hrun
  rcases hfirst : runFrom (act : Run Unit) s with ⟨e' | a, s₁⟩
  · rw [hfirst] at hrun
    obtain ⟨-, rfl⟩ := Prod.mk.inj hrun
    exact Fails.lift h s e' s₁ hs hfirst
  · rw [hfirst] at hrun
    cases (Prod.mk.inj hrun).1

@[grind ←]
theorem fails_of_follows {α : Type} {act : Run α} (h : Follows R act) : Fails R act := by
  intro s e s' _ hrun
  have hs := h s
  rwa [hrun] at hs

end Replies

/-- An operation without bodies that fails only adds to the builder. -/
theorem spares_operation {n : Notes} {op : Operation} {act : Run Reply}
    (h : op.action n = .ok act) : Fails Builder.Spares act := by
  have hreset : Fails Builder.Spares Script.reset := fun s e s' _ hrun => by
    cases (Prod.mk.inj hrun).1
  cases op <;> simp only [Operation.action, bind_eq_ok_iff, pure, Except.pure, Except.ok.injEq] at h
  all_goals grind

/-! ## Failures in scripts -/

/-- How the failure of an operation is confined, whatever steps its bodies are. The outermost scope
of a stage is the global one when it is opened, and scripts keep it so. -/
structure FailuresConfined : Prop where
  opened : ∀ (b : Builder) which earlier,
    ((b.opened which).run (Build.inputsFrom earlier)).2.IsGrounded
  entered : ∀ (b : Builder) kind, b.IsGrounded → (b.run (Build.pushScope kind)).2.IsGrounded
  declared : ∀ (b : Builder) name t role init, b.IsGrounded →
    (b.run (Build.newVar name t role init)).2.IsGrounded
  continued : ∀ tolerant steps s, s.1.IsGrounded →
    ((runAll tolerant steps).runFrom s).2.1.IsGrounded
  operation : ∀ n op act, Operation.action n op = .ok act → Fails Builder.Spares act
  func : ∀ name params names tolerant steps,
    Fails Builder.Restores (Authoring.func name params (functionBody names (runAll tolerant steps)))
  main : ∀ tolerant steps, Fails Builder.Restores (Authoring.main (body (runAll tolerant steps)))
  scope : ∀ tolerant steps, Fails Builder.Restores (Authoring.scope (body (runAll tolerant steps)))
  ifThen : ∀ cond tolerant steps,
    Fails Builder.Restores (Authoring.ifThen cond (body (runAll tolerant steps)))
  elseIf : ∀ cond tolerant steps,
    Fails Builder.Restores (Authoring.elseIf cond (body (runAll tolerant steps)))
  otherwise : ∀ tolerant steps,
    Fails Builder.Restores (Authoring.otherwise (body (runAll tolerant steps)))
  forRange : ∀ counter first last tolerant steps, Fails Builder.Restores
    (Authoring.forRange counter first last (loopBody counter (runAll tolerant steps)))
  whileDo : ∀ cond tolerant steps,
    Fails Builder.Restores (Authoring.whileDo cond (body (runAll tolerant steps)))
  doWhile : ∀ tolerant steps before cond, Fails Builder.Nests
    (Authoring.doWhile (body (runAll tolerant steps)) (condition (runAll tolerant before) cond))
  render : ∀ label vertex fragment (s : Builder × Notes), s.1.phase = .building →
    (Authoring.render label vertex fragment).runFrom s = (.error (.internal .reentrant), s)
  compute : ∀ label body (s : Builder × Notes), s.1.phase = .building →
    (Authoring.compute label body).runFrom s = (.error (.internal .reentrant), s)

/-- A failed operation without bodies only adds to the builder; one with bodies restores the stage,
but for what its bodies have left in tags, result types and the size of workgroups; a `do while`
loop restores the stage around the innermost scope, in which its condition runs. -/
theorem failures_confined : FailuresConfined where
  opened b which earlier := by
    have h := Build.followsGlobally_inputsFrom (R := Builder.Nests) earlier _
      (b.takes_opened which)
    refine h.isGrounded fun s hs => ?_
    rw [← Option.some.inj hs]
    rfl
  entered _ kind hb := hb.pushScope kind
  declared b name t role init hb := (nests_newVar name t role init b).isGrounded hb
  continued tolerant steps s hs := (nests_runAll tolerant steps s).isGrounded hs
  operation _ _ _ h := spares_operation h
  func _ _ _ _ _ := fails_func _ _ (nests_functionBody _ _ _)
  main _ _ := fails_main (nests_body _ _)
  scope _ _ := fails_scope (nests_body _ _)
  ifThen _ _ _ := fails_ifThen _ (nests_body _ _)
  elseIf _ _ _ := fails_elseIf _ (nests_body _ _)
  otherwise _ _ := fails_otherwise (nests_body _ _)
  forRange _ _ _ _ _ := fails_forRange _ _ _ (nests_loopBody _ _ _)
  whileDo _ _ _ := fails_whileDo _ (nests_body _ _)
  doWhile _ _ _ _ := fails_doWhile (nests_body _ _) (follows_condition (nests_runAll _ _) _)
  render _ _ _ _ h := runFrom_asProgram_of_building _ h
  compute _ _ _ h := runFrom_asProgram_of_building _ h

/-- A program whose fragment stage runs some steps in its entry point. -/
def fragmentProgram (steps : Script) : Script :=
  [(false, .render false "p" [(false, .main [])] [(false, .main steps)] [])]

/-- The source of the fragment stage of a program. -/
def fragmentText (config : Config) (steps : Script) : Option String :=
  match transcript config false (fragmentProgram steps) with
  | [⟨.render (some (program, _)), _, _⟩] => some program.fragment.text
  | _ => none

/-- A depth is refused that is not a number, but the built-in it was meant for is declared. -/
theorem failed_depth_is_declared :
    fragmentText { target := .webGPU }
        [(true, .operation (.assignBuiltin .fragDepth (.host (.bool true))) none)] ≠
      fragmentText { target := .webGPU } [] := by
  decide +kernel

end Script

end WebShader
