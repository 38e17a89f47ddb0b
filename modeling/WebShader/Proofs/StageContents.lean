import WebShader.Proofs.Nesting
import WebShader.Proofs.ScopeDiscipline
import WebShader.Proofs.SpelledTypes

/-!
# What stages contain

A stage under construction only involves variables that have been declared while it is open. Its
uniforms follow `std140` rules, and its statements assign to places. Every operation keeps it so,
and whatever runs in a scope collects statements that are so.
-/

namespace WebShader

/-! ## Variables and statements of a stage -/

namespace Builder

/-- A variable that has been declared in a stage and, if it is a uniform, is laid out. -/
def Declares (which : Stage) (b : Builder) (v : VarId) : Prop :=
  ∃ d, b.var? v = some d ∧ d.stage = which ∧ b.LaysOut d.role d.type

/-- A statement that only declares variables of a stage, and only assigns to places. -/
def Meets (which : Stage) (b : Builder) (st : Stmt NodeId) : Prop :=
  st.Meets (b.Declares which) (b.checkPlace · = .ok ())

/-- Statements that only declare variables of a stage, and only assign to places. -/
def Admits (which : Stage) (b : Builder) (body : Block) : Prop :=
  Stmt.BlockMeets (b.Declares which) (b.checkPlace · = .ok ()) body

variable {which : Stage} {b b' : Builder}

/-- A place stays one. -/
theorem Grows.checkPlace (h : b.Grows b') {n : NodeId} (hn : b.checkPlace n = .ok ()) :
    b'.checkPlace n = .ok () := checkPlace_of_starts h.config h.nodes h.vars hn

/-- A variable stays declared. -/
theorem Grows.declares (h : b.Grows b') {v : VarId} (hv : b.Declares which v) :
    b'.Declares which v := by
  obtain ⟨d, hd, hstage, hlaid⟩ := hv
  exact ⟨d, getElem?_of_starts h.vars hd, hstage, hlaid.of_le h.types⟩

/-- A body stays admitted. -/
theorem Grows.admits (h : b.Grows b') {body : Block} (hbody : b.Admits which body) :
    b'.Admits which body :=
  Stmt.BlockMeets.imp (fun _ => h.declares) (fun _ => h.checkPlace) body hbody

/-- An empty body is admitted. -/
theorem admits_nil : b.Admits which [] := trivial

/-- A new variable has been declared in its stage. -/
theorem declares_withVar {d : Variable} (hstage : d.stage = which)
    (hlaid : b.LaysOut d.role d.type) : (b.withVar d).Declares which ⟨b.vars.size⟩ :=
  ⟨d, by simp [var?, withVar], hstage, hlaid.of_le le_rfl⟩

end Builder

/-! ## Stages that only involve what is their own -/

/-- A stage under construction that only involves its own variables: in its declarations, in its
functions, in its entry point and in the scopes that are open. -/
structure OpenStage.IsOwn (which : Stage) (b : Builder) (s : OpenStage) : Prop where
  stage : s.decls.stage = which
  globals : ∀ v ∈ s.decls.globals, b.Declares which v
  functions : ∀ f ∈ s.decls.functions,
    (∀ v ∈ f.params, b.Declares which v) ∧ b.Admits which f.body
  main : ∀ body, s.main = some body → b.Admits which body
  frames : ∀ f ∈ s.frames, b.Admits which f.body

/-- The stage at hand, if there is one, only involves its own variables. -/
def Builder.IsOwn (which : Stage) (b : Builder) : Prop := ∀ s, b.stage = some s → s.IsOwn which b

/-- What holds of a builder as long as its stage is open. -/
def Builder.WhileOpen (C : Builder → Prop) (b : Builder) : Prop := b.stage = none ∨ C b

/-- Parameters may be of these types. -/
def Builder.Passes (b : Builder) (types : List TypeId) : Prop :=
  ∀ t ∈ types, Role.param.admits (b.types.kind t) = true

/-- A condition that stays true while a builder grows. -/
def Builder.Persists (C : Builder → Prop) : Prop := ∀ b b' : Builder, b.Grows b' → C b → C b'

section Stages

variable {which : Stage} {b b' : Builder} {s s' : OpenStage} {C : Builder → Prop}

/-- A stage with the declarations of another, and the statements of its scopes. -/
theorem OpenStage.IsOwn.of_same (h : s.IsOwn which b) (hgrows : b.Grows b')
    (hdecls : s'.decls.outline = s.decls.outline) (hmain : s'.main = s.main)
    (hframes : ∀ f' ∈ s'.frames, f'.body = [] ∨ ∃ f ∈ s.frames, f'.body = f.body) :
    s'.IsOwn which b' where
  stage := (congrArg StageDecls.stage hdecls).trans h.stage
  globals v hv := by
    have hglobals : s'.decls.globals = s.decls.globals :=
      (congrArg StageDecls.globals hdecls : s'.decls.outline.globals = s.decls.outline.globals)
    exact hgrows.declares (h.globals v (hglobals ▸ hv))
  functions f hf := by
    have hfunctions : s'.decls.functions = s.decls.functions :=
      (congrArg StageDecls.functions hdecls :)
    obtain ⟨hparams, hbody⟩ := h.functions f (hfunctions ▸ hf)
    exact ⟨fun v hv => hgrows.declares (hparams v hv), hgrows.admits hbody⟩
  main body hbody := hgrows.admits (h.main body (hmain ▸ hbody))
  frames f hf := by
    rcases hframes f hf with hnil | ⟨g, hg, heq⟩
    · rw [hnil]
      exact Builder.admits_nil
    · rw [heq]
      exact hgrows.admits (h.frames g hg)

/-- A stage with its outline stays within its own. -/
theorem OpenStage.IsOwn.of_outline (h : s.IsOwn which b) (hgrows : b.Grows b')
    (houtline : s'.outline = s.outline) : s'.IsOwn which b' := by
  refine h.of_same hgrows (congrArg OpenStage.decls houtline)
    (congrArg OpenStage.main houtline :) ?_
  intro f' hf'
  have hmem : f'.outline ∈ s.frames.map Frame.outline := by
    rw [show s.frames.map Frame.outline = s'.frames.map Frame.outline from
      (congrArg OpenStage.frames houtline).symm]
    exact List.mem_map_of_mem hf'
  obtain ⟨f, hf, heq⟩ := List.mem_map.mp hmem
  exact Or.inr ⟨f, hf, (congrArg Frame.body heq).symm⟩

/-- The innermost scope may change its statements for others that are admitted. -/
theorem OpenStage.IsOwn.of_frame {f f' : Frame} {rest : List Frame} (h : s.IsOwn which b)
    (hgrows : b.Grows b') (hframes : s.frames = f :: rest) (hbody : b'.Admits which f'.body) :
    OpenStage.IsOwn which b' { s with frames := f' :: rest } := by
  have hsame : s.IsOwn which b' := h.of_same hgrows rfl rfl fun g hg => Or.inr ⟨g, hg, rfl⟩
  refine { hsame with frames := List.forall_mem_cons.mpr ⟨hbody, fun g hg => ?_⟩ }
  exact hsame.frames g (hframes ▸ List.mem_cons_of_mem _ hg)

/-- An open stage stays within its own. -/
theorem Builder.IsOwn.of_some (hb : b.IsOwn which) (hs : b.stage = some s)
    (hs' : b'.stage = some s') (h : s.IsOwn which b → s'.IsOwn which b') : b'.IsOwn which := by
  intro t ht
  rw [← Option.some.inj (hs'.symm.trans ht)]
  exact h (hb s hs)

/-- Without a stage there is nothing to own. -/
theorem Builder.isOwn_of_none (hs : b.stage = none) : b.IsOwn which :=
  fun s hs' => absurd (hs.symm.trans hs') (by simp)

/-- A larger builder with the same stage. -/
theorem Builder.IsOwn.of_grows (hb : b.IsOwn which) (hgrows : b.Grows b')
    (hstage : b'.stage = b.stage) : b'.IsOwn which :=
  fun s hs => (hb s (hstage.symm.trans hs)).of_same hgrows rfl rfl fun g hg => Or.inr ⟨g, hg, rfl⟩

/-- A stage whose innermost scope has other statements, all of them admitted. -/
theorem Builder.IsOwn.withFrame {f f' : Frame} {rest : List Frame} (hb : b.IsOwn which)
    (hs : b.stage = some s) (hframes : s.frames = f :: rest)
    (hbody : b.Admits which f.body → b.Admits which f'.body) :
    (b.withFrame s f' rest).IsOwn which := by
  have hgrows : b.Grows (b.withFrame s f' rest) := { b.grows_refl with }
  refine hb.of_some hs rfl fun h => h.of_frame hgrows hframes ?_
  exact hgrows.admits (hbody (h.frames f (hframes ▸ List.mem_cons_self)))

/-- What persists is true while the stage is open. -/
theorem Builder.WhileOpen.of_nests (h : b.WhileOpen C) (hC : Builder.Persists C)
    (hnests : b.Nests b') : b'.WhileOpen C := by
  rcases h with hb | h
  · exact Or.inl (hnests.stage_eq_none hb)
  · rcases hnests with hkept | hlost
    · exact Or.inr (hC b b' hkept.toGrows h)
    · exact Or.inl hlost.stage

end Stages

/-! ## Steps -/

namespace Build

variable {which : Stage} {b b' : Builder}

/-- One operation after the other: the second starts from what the first one gives. -/
theorem isOwn_bind {α β : Type} {act : Build α} {f : α → Build β} (hact : (b.run act).2.IsOwn which)
    (hf : ∀ a (b' : Builder), b.run act = (.ok a, b') → b'.IsOwn which →
      (b'.run (f a)).2.IsOwn which) : (b.run (act >>= f)).2.IsOwn which := by
  rw [Builder.run_bind]
  rcases hrun : b.run act with ⟨_ | a, b'⟩
  · rw [hrun] at hact
    exact hact
  · rw [hrun] at hact
    exact hf a b' hrun hact

/-- A change that keeps the stage within its own. -/
theorem isOwn_modifyStage {f : OpenStage → OpenStage} (hb : b.IsOwn which)
    (hf : ∀ s, b.stage = some s → s.IsOwn which b → (f s).IsOwn which b) :
    (b.run (modifyStage f)).2.IsOwn which := by
  cases hs : b.stage with
  | none =>
      rw [Builder.run_modifyStage_of_none hs]
      exact hb
  | some s =>
      rw [Builder.run_modifyStage_of_some hs]
      refine hb.of_some hs rfl fun h => ?_
      exact (hf s hs h).of_same { b.grows_refl with } rfl rfl fun g hg => Or.inr ⟨g, hg, rfl⟩

/-- A change that leaves the outline alone. -/
theorem isOwn_modifyStage_of_outline {f : OpenStage → OpenStage} (hb : b.IsOwn which)
    (hf : ∀ s, (f s).outline = s.outline) : (b.run (modifyStage f)).2.IsOwn which :=
  isOwn_modifyStage hb fun s _ h => h.of_outline b.grows_refl (hf s)

/-- A new variable is the stage's own. -/
theorem isOwn_newVar (hb : b.IsOwn which) (name : String) (t : TypeId) (role : Role)
    (init : Option NodeId) : (b.run (newVar name t role init)).2.IsOwn which := by
  rcases run_newVar_cases b name t role init with
    ⟨fault, b', hrun, rfl | ⟨d, rfl⟩⟩ | ⟨s, f, rest, e, hs, hframes, -, hrun⟩
  · rw [hrun]
    exact hb
  · rw [hrun]
    exact hb.of_grows (b.grows_withVar d) rfl
  · rw [hrun]
    have hgrown := hb.of_grows (b.grows_withVar ⟨name, t, role, s.decls.stage, init⟩) rfl
    exact hgrown.withFrame hs hframes id

/-- A variable that has been declared is one of the stage at hand. -/
theorem declares_of_run_newVar {name : String} {t : TypeId} {role : Role} {init : Option NodeId}
    {x : VarId × Expr} (hb : b.IsOwn which) (hlaid : b.WhileOpen (·.LaysOut role t))
    (hrun : b.run (newVar name t role init) = (.ok x, b')) : b'.Declares which x.1 := by
  rcases run_newVar_cases b name t role init with
    ⟨fault, b₁, hfail, -⟩ | ⟨s, f, rest, e, hs, -, -, hrun'⟩
  · rw [hfail] at hrun
    cases (Prod.mk.inj hrun).1
  · obtain ⟨hx, rfl⟩ := Prod.mk.inj (hrun'.symm.trans hrun)
    rw [← Except.ok.inj hx]
    let d : Variable := ⟨name, t, role, s.decls.stage, init⟩
    have hlaid : b.LaysOut d.role d.type := hlaid.resolve_left (by simp [hs])
    have hgrows : (b.withVar d).Grows ((b.withVar d).withFrame s
        { f with symbols := (name, e) :: f.symbols } rest) := { (b.withVar d).grows_refl with }
    exact hgrows.declares (Builder.declares_withVar (hb s hs).stage hlaid)

/-- A statement that is admitted goes to the innermost scope. -/
theorem isOwn_emit {st : Stmt NodeId} (hb : b.IsOwn which) (hst : b.WhileOpen (·.Meets which st)) :
    (b.run (emit st)).2.IsOwn which := by
  rcases run_emit_cases b st with ⟨e, hrun⟩ | ⟨s, f, rest, hs, hframes, hrun⟩
  · rw [hrun]
    exact hb
  · rw [hrun]
    have hmeets : b.Meets which st := hst.resolve_left (by simp [hs])
    refine hb.withFrame hs hframes fun hbody => ?_
    exact Stmt.blockMeets_append.mpr ⟨hbody, Stmt.blockMeets_singleton.mpr hmeets⟩

/-- A branch is added that involves what is the stage's own. -/
theorem isOwn_extendLast {failure : InternalFault} {g : Stmt NodeId → Option (Stmt NodeId)}
    (hb : b.IsOwn which)
    (hg : b.WhileOpen fun b => ∀ st st', g st = some st' → b.Meets which st → b.Meets which st') :
    (b.run (extendLast failure g)).2.IsOwn which := by
  unfold extendLast
  rw [Builder.run_bind]
  rcases run_frame_cases b with ⟨e, hrun⟩ | ⟨s, f, rest, hs, hframes, hrun⟩
  · rw [hrun]
    exact hb
  · rw [hrun]
    dsimp only
    cases hbody : replaceLast? g f.body with
    | none => exact hb
    | some body =>
        dsimp only
        rw [run_setFrame_of_cons hs hframes]
        have hg := hg.resolve_left (by simp [hs])
        exact hb.withFrame hs hframes fun hadmits => Stmt.BlockMeets.replaceLast hg hbody hadmits

/-- A local variable is declared together with its statement. -/
theorem isOwn_declare (hb : b.IsOwn which) (name : String) {t : TypeId} (init : Option NodeId)
    (hlaid : b.LaysOut .localVar t) : (b.run (declare name t init)).2.IsOwn which := by
  refine isOwn_bind (isOwn_newVar hb name t .localVar none) fun x b₁ hrun hb₁ => ?_
  have hmeets : b₁.Meets which (.declare x.1 init) :=
    declares_of_run_newVar hb (Or.inr hlaid) hrun
  exact isOwn_bind (isOwn_emit hb₁ (Or.inr hmeets)) fun _ _ _ hb₂ => hb₂

/-- A variable is declared and added to the declarations of its stage. -/
theorem isOwn_declareIn {list : DeclList} (hb : b.IsOwn which) (name : String) (t : TypeId)
    (role : Role) (init : Option NodeId) (hlaid : b.LaysOut role t) :
    (b.run (declareIn list name t role init)).2.IsOwn which := by
  refine isOwn_bind (isOwn_newVar hb name t role init) fun x b₁ hrun hb₁ => ?_
  have hdeclares := declares_of_run_newVar hb (Or.inr hlaid) hrun
  refine isOwn_bind (isOwn_modifyStage hb₁ fun s _ h => ?_) fun _ _ _ hb₂ => hb₂
  have hglobals := globals_declare s.decls x.1 list
  refine { h with stage := ?_, globals := fun v hv => ?_, functions := fun f hf => ?_ }
  · rw [← h.stage]
    cases list <;> rfl
  · rcases List.mem_cons.mp (hglobals.mem_iff.mp hv) with rfl | hv
    · exact hdeclares
    · exact h.globals v hv
  · refine h.functions f ?_
    cases list <;> exact hf

/-- A function that only involves variables of the stage joins the others. -/
theorem isOwn_addFunction {fn : Function} (hb : b.IsOwn which)
    (hfn : b.WhileOpen fun b => (∀ v ∈ fn.params, b.Declares which v) ∧ b.Admits which fn.body) :
    (b.run (addFunction fn)).2.IsOwn which := by
  unfold addFunction
  rw [Builder.run_bind]
  cases hs : b.stage with
  | none =>
      rw [Builder.run_stage_of_none hs]
      exact hb
  | some s =>
      rw [Builder.run_stage_of_some hs]
      dsimp only
      refine isOwn_bind (isOwn_modifyStage hb fun s _ h => { h with functions := ?_ })
        fun _ _ _ hb₁ => hb₁
      exact List.forall_mem_append.mpr
        ⟨h.functions, List.forall_mem_singleton.mpr (hfn.resolve_left (by simp [hs]))⟩

/-- A body that is admitted becomes the entry point of the stage. -/
theorem isOwn_setMain {body : Block} (hb : b.IsOwn which)
    (hbody : b.WhileOpen (·.Admits which body)) :
    (b.run (modifyStage fun s => { s with main := some body })).2.IsOwn which := by
  refine isOwn_modifyStage hb fun s hs h => { h with main := fun body' hbody' => ?_ }
  rw [← Option.some.inj hbody']
  exact hbody.resolve_left (by simp [hs])

end Build

/-! ## Whatever runs -/

/-- What anything that runs in a stage leaves: it nests, and the stage only involves what is its own
if it did before. -/
def Builder.Retains (which : Stage) (b b' : Builder) : Prop :=
  b.Nests b' ∧ (b.IsOwn which → b'.IsOwn which)

section Retains

variable {which : Stage}

instance : IsAdditive (Builder.Retains which) where
  refl b := ⟨refl_of Builder.Nests b, id⟩
  trans _ _ _ h h' := ⟨trans_of Builder.Nests h.1 h'.1, fun hb => h'.2 (h.2 hb)⟩
  of_adds b b' h := by
    refine ⟨IsAdditive.of_adds b b' h, fun hb s' hs' => ?_⟩
    have hstage := h.stage
    rw [hs'] at hstage
    cases hs : b.stage with
    | none => rw [hs] at hstage; cases hstage
    | some s =>
        rw [hs] at hstage
        cases hstage with
        | some hadds => exact (hb s hs).of_outline h.grows hadds.outline_eq

theorem Build.follows_retains {α : Type} {act : Build α} (hnests : Follows Builder.Nests act)
    (hown : ∀ b : Builder, b.IsOwn which → (b.run act).2.IsOwn which) :
    Follows (Builder.Retains which) act := fun b => ⟨hnests b, hown b⟩

instance : IsStepwise (Builder.Retains which) where
  config h := IsStepwise.config h.1
  of_lost hconfig hstage :=
    ⟨IsStepwise.of_lost hconfig hstage, fun _ => Builder.isOwn_of_none hstage⟩
  takes h hb := IsDeclarative.takes h.1 hb
  setResult t := Build.follows_retains (IsOperational.setResult t) fun _ hb =>
    Build.isOwn_modifyStage_of_outline hb fun s => by
      simp only [OpenStage.outline, map_outline_fixResult]
  setSize size := Build.follows_retains (IsDeclarative.setSize size) fun _ hb =>
    Build.isOwn_modifyStage_of_outline hb fun _ => rfl
  setTag e path := Build.follows_retains (IsDeclarative.setTag e path) fun _ hb =>
    Build.isOwn_modifyStage_of_outline hb fun _ => rfl
  emit {st} h b haccepts := by
    refine ⟨IsElementary.emit h b haccepts, fun hb => Build.isOwn_emit hb (Or.inr ?_)⟩
    cases st with
    | declare | conditional | forRange | whileDo | doWhile | block | returnWith => cases h
    | assign => exact haccepts
    | eval | breakLoop | continueLoop | discard => trivial
  giveBack value := Build.follows_retains (IsOperational.giveBack value) fun _ hb =>
    Build.isOwn_emit hb (Or.inr trivial)
  declare name t init b hb := ⟨IsElementary.declare name t init b hb, fun hown =>
    Build.isOwn_declare hown name init hb⟩
  declareIn name t role init h b hb := ⟨IsDeclarative.declareIn name t init h b hb, fun hown =>
    Build.isOwn_declareIn hown name t role init hb.2⟩

instance : IsInheriting (Builder.Retains which) where
  inherit name t location b hb := ⟨IsInheriting.inherit name t location b hb, fun hown =>
    Build.isOwn_declareIn hown name t _ none (b.laysOut_of_admits (fun _ => rfl) t)⟩

end Retains

/-! ## What runs give -/

namespace Authoring

variable {σ α β : Type} {which : Stage} {C : Builder → Prop} {s : Builder × σ}

/-- A run keeps the stage to its own, and what it gives is as told while the stage is open. -/
structure Yields (which : Stage) (act : Authoring σ α) (s : Builder × σ)
    (post : α → Builder → Prop) : Prop where
  isOwn : (act.runFrom s).2.1.IsOwn which
  gives : ∀ a s', act.runFrom s = (.ok a, s') → s'.1.WhileOpen (post a)

namespace Yields

variable {act : Authoring σ α} {post : α → Builder → Prop}

/-- A run that stays within its own yields nothing in particular. -/
theorem of_isOwn (h : (act.runFrom s).2.1.IsOwn which) : Yields which act s fun _ _ => True :=
  ⟨h, fun _ _ _ => Or.inr trivial⟩

/-- What is given is yielded. -/
protected theorem pure {a : α} (hs : s.1.IsOwn which) (h : s.1.WhileOpen (post a)) :
    Yields which (pure a) s post := by
  refine ⟨hs, fun a' s' hrun => ?_⟩
  obtain ⟨ha, rfl⟩ := Prod.mk.inj hrun
  rwa [← Except.ok.inj ha]

/-- An error yields nothing. -/
protected theorem throw (hs : s.1.IsOwn which) (e : ShaderError) :
    Yields which (throw e : Authoring σ α) s post :=
  ⟨hs, fun _ _ hrun => by cases (Prod.mk.inj hrun).1⟩

/-- What follows a run starts from what it gives. -/
theorem bind {f : α → Authoring σ β} {last : β → Builder → Prop} (h : Yields which act s post)
    (hf : ∀ a (s' : Builder × σ), s'.1.IsOwn which → s'.1.WhileOpen (post a) →
      Yields which (f a) s' last) : Yields which (act >>= f) s last := by
  have hown := h.isOwn
  rcases hrun : act.runFrom s with ⟨e | a, s'⟩
  · rw [hrun] at hown
    have hfail : (act >>= f).runFrom s = (.error e, s') := by rw [runFrom_bind, hrun]
    constructor
    · rwa [hfail]
    · intro b s'' hb
      rw [hfail] at hb
      cases (Prod.mk.inj hb).1
  · rw [hrun] at hown
    have hnext : (act >>= f).runFrom s = (f a).runFrom s' := by rw [runFrom_bind, hrun]
    obtain ⟨hlast, hgives⟩ := hf a s' hown (h.gives a s' hrun)
    constructor
    · rwa [hnext]
    · rwa [hnext]

/-- Two operations of the builder, one after the other. -/
theorem lift_bind {act : Build α} {f : α → Build β} {last : β → Builder → Prop}
    (h : Yields which (do f (← (act : Authoring σ α))) s last) :
    Yields which (act >>= f : Build β) s last := by
  constructor
  · rw [runFrom_lift_bind]
    exact h.isOwn
  · rw [runFrom_lift_bind]
    exact h.gives

/-- Two facts about what a run gives. -/
theorem and {post' : α → Builder → Prop} (h : Yields which act s post)
    (h' : Yields which act s post') : Yields which act s fun a b => post a b ∧ post' a b := by
  refine ⟨h.isOwn, fun a s' hrun => ?_⟩
  rcases h.gives a s' hrun with hnone | hpost
  · exact Or.inl hnone
  · exact (h'.gives a s' hrun).imp_right fun hpost' => ⟨hpost, hpost'⟩

/-- Nothing is known of what has failed. -/
theorem attempt (h : Yields which act s post) :
    Yields which (attempt act) s fun result b => ∀ a, result = .ok a → post a b := by
  refine ⟨h.isOwn, fun result s' hrun => ?_⟩
  rw [runFrom_attempt] at hrun
  obtain ⟨hresult, rfl⟩ := Prod.mk.inj hrun
  rcases hact : act.runFrom s with ⟨e | a, s'⟩
  · refine Or.inr fun a ha => ?_
    rw [← Except.ok.inj hresult, hact] at ha
    cases ha
  · refine (h.gives a s' hact).imp_right fun hpost a' ha' => ?_
    rw [← Except.ok.inj hresult, hact] at ha'
    rwa [← Except.ok.inj ha']

end Yields

/-- A run that retains what it should keeps what holds while the stage is open. -/
theorem yields_of_follows {act : Authoring σ α} (h : Follows (Builder.Retains which) act)
    (hC : Builder.Persists C) (hs : s.1.IsOwn which) (hopen : s.1.WhileOpen C) :
    Yields which act s fun _ => C where
  isOwn := (h s).2 hs
  gives a s' hrun := by
    have hnests := (h s).1
    rw [hrun] at hnests
    exact hopen.of_nests hC hnests

/-- A body stays within its own. -/
theorem yields_body {act : Authoring σ α} (h : Follows (Builder.Retains which) act)
    (hs : s.1.IsOwn which) : Yields which act s fun _ _ => True := .of_isOwn ((h s).2 hs)

/-- What an operation of the builder gives. -/
theorem yields_lift {act : Build α} {post : α → Builder → Prop}
    (hown : (s.1.run act).2.IsOwn which)
    (hgives : ∀ a b', s.1.run act = (.ok a, b') → b'.WhileOpen (post a)) :
    Yields which (act : Authoring σ α) s post :=
  ⟨hown, fun a s' hrun => hgives a s'.1 (run_of_runFrom hrun)⟩

/-- An operation of the builder stays within its own. -/
theorem yields_retains {act : Build α} (h : Build.Follows (Builder.Retains which) act)
    (hs : s.1.IsOwn which) : Yields which (act : Authoring σ α) s fun _ _ => True :=
  yields_body (.lift h) hs

/-- A statement may be recorded that involves what is the stage's own. -/
theorem yields_emit {st : Stmt NodeId} (hs : s.1.IsOwn which)
    (hst : s.1.WhileOpen (·.Meets which st)) :
    Yields which (Build.emit st : Authoring σ Unit) s fun _ _ => True :=
  .of_isOwn (Build.isOwn_emit hs hst)

/-- What is admitted persists. -/
theorem persists_admits (body : Block) : Builder.Persists (·.Admits which body) :=
  fun _ _ h => h.admits

/-! ## What scopes collect -/

/-- A new scope has no statements, and what has been known stays so. -/
theorem yields_pushScope (kind : ScopeKind) (hC : Builder.Persists C) (hs : s.1.IsOwn which)
    (hopen : s.1.WhileOpen C) :
    Yields which (Build.pushScope kind : Authoring σ Unit) s fun _ => C := by
  refine yields_lift (Build.isOwn_modifyStage hs fun t _ h => ?_) fun _ b hrun => ?_
  · refine h.of_same s.1.grows_refl rfl rfl fun f hf => ?_
    rcases List.mem_cons.mp hf with rfl | hf
    · exact Or.inl rfl
    · exact Or.inr ⟨f, hf, rfl⟩
  · cases ht : s.1.stage with
    | none =>
        rw [Build.pushScope, Builder.run_modifyStage_of_none ht] at hrun
        cases (Prod.mk.inj hrun).1
    | some t =>
        rw [run_pushScope_of_some ht] at hrun
        rw [← (Prod.mk.inj hrun).2]
        have hgrows : s.1.Grows (s.1.withFrame t { kind } t.frames) := { s.1.grows_refl with }
        exact Or.inr (hC _ _ hgrows (hopen.resolve_left (by simp [ht])))

/-- The statements of a scope that is left are admitted. -/
theorem yields_popScope (hC : Builder.Persists C) (hs : s.1.IsOwn which) (hopen : s.1.WhileOpen C) :
    Yields which (Build.popScope : Authoring σ Frame) s fun f b => b.Admits which f.body ∧ C b := by
  obtain ⟨b, n⟩ := s
  rcases run_popScope_cases b with ⟨e, hrun, -⟩ | ⟨t, f, g, rest, ht, hframes, hrun⟩
  · refine yields_lift (by rwa [hrun]) fun a b' h => ?_
    rw [hrun] at h
    cases (Prod.mk.inj h).1
  · have hgrows : b.Grows (b.withFrame t g rest) := { b.grows_refl with }
    refine yields_lift ?_ fun f' b' h => ?_
    · rw [hrun]
      refine hs.of_some ht rfl fun hown => hown.of_same hgrows rfl rfl fun f' hf' => ?_
      exact Or.inr ⟨f', hframes ▸ List.mem_cons_of_mem _ hf', rfl⟩
    · obtain ⟨hf, rfl⟩ := Prod.mk.inj (hrun.symm.trans h)
      rw [← Except.ok.inj hf]
      refine Or.inr ⟨?_, hC _ _ hgrows (hopen.resolve_left (by simp [ht]))⟩
      exact hgrows.admits ((hs t ht).frames f (hframes ▸ List.mem_cons_self))

/-- The statements that a scope has collected are admitted, and what its body has given still holds
after the scope. -/
theorem yields_inScope (kind : ScopeKind) {act : Authoring σ α} {post : α → Builder → Prop}
    (hpost : ∀ a, Builder.Persists (post a)) (hC : Builder.Persists C)
    (h : ∀ s' : Builder × σ, s'.1.IsOwn which → s'.1.WhileOpen C → Yields which act s' post)
    (hs : s.1.IsOwn which) (hopen : s.1.WhileOpen C) :
    Yields which (inScope kind act) s fun x b =>
      b.Admits which x.2.body ∧ ∀ a, x.1 = .ok a → post a b := by
  refine (yields_pushScope kind hC hs hopen).bind fun _ s₁ hs₁ hopen₁ => ?_
  -- the body may fail: the scope is left all the same, and its statements are given
  refine (h s₁ hs₁ hopen₁).attempt.bind fun result s₂ hs₂ hresult => ?_
  have hpersists : Builder.Persists fun b => ∀ a, result = .ok a → post a b :=
    fun b b' hgrows hb a ha => hpost a b b' hgrows (hb a ha)
  exact (yields_popScope hpersists hs₂ hresult).bind fun frame s₃ hs₃ hframe => .pure hs₃ hframe

/-- The statements that a body has collected are admitted. -/
theorem yields_collect {kind : ScopeKind} {body : Authoring σ Unit}
    (h : Follows (Builder.Retains which) body) (hs : s.1.IsOwn which) :
    Yields which (collect kind body) s fun block b => b.Admits which block := by
  have hbody : ∀ s' : Builder × σ, s'.1.IsOwn which → s'.1.WhileOpen (fun _ => True) →
      Yields which body s' fun _ _ => True := fun s' hs' _ => yields_body h hs'
  refine (yields_inScope kind (fun _ _ _ _ => id) (fun _ _ _ => id) hbody hs (Or.inr trivial)).bind
    ?_
  rintro ⟨_ | _, frame⟩ s₁ hs₁ hframe
  · exact .throw hs₁ _
  · exact .pure hs₁ (hframe.imp_right (·.1))

/-! ## Control flow -/

section ControlFlow

variable {body : Authoring σ Unit} {cond : Authoring σ Value}

/-- The first branch involves what its body does. -/
theorem yields_ifThen (v : Value) (h : Follows (Builder.Retains which) body)
    (hs : s.1.IsOwn which) : Yields which (ifThen v body) s fun _ _ => True := by
  refine (yields_retains (Build.follows_requireFunction _) hs).bind fun _ s₁ hs₁ _ => ?_
  refine (yields_retains (Build.follows_condition _) hs₁).bind fun c s₂ hs₂ _ => ?_
  refine (yields_collect h hs₂).bind fun block s₃ hs₃ hblock => ?_
  exact yields_emit hs₃ (hblock.imp_right fun hadmits => ⟨List.cons_ne_nil _ _, hadmits, trivial⟩)

/-- A later branch involves what its body does. -/
theorem yields_elseIf (v : Value) (h : Follows (Builder.Retains which) body)
    (hs : s.1.IsOwn which) : Yields which (elseIf v body) s fun _ _ => True := by
  refine (yields_retains (Build.follows_condition _) hs).bind fun c s₁ hs₁ _ => ?_
  refine (yields_collect h hs₁).bind fun block s₂ hs₂ hblock => .of_isOwn ?_
  refine Build.isOwn_extendLast hs₂ (hblock.imp_right fun hadmits st st' hst hmeets => ?_)
  exact Stmt.Meets.addBranch hst hmeets hadmits

/-- The last branch involves what its body does. -/
theorem yields_otherwise (h : Follows (Builder.Retains which) body) (hs : s.1.IsOwn which) :
    Yields which (otherwise body) s fun _ _ => True := by
  refine (yields_collect h hs).bind fun block s₁ hs₁ hblock => .of_isOwn ?_
  refine Build.isOwn_extendLast hs₁ (hblock.imp_right fun hadmits st st' hst hmeets => ?_)
  exact Stmt.Meets.addElse hst hmeets hadmits

/-- A loop involves what its body and its condition do. -/
theorem yields_whileDo (v : Value) (h : Follows (Builder.Retains which) body)
    (hs : s.1.IsOwn which) : Yields which (whileDo v body) s fun _ _ => True := by
  refine (yields_retains (Build.follows_requireFunction _) hs).bind fun _ s₁ hs₁ _ => ?_
  refine (yields_retains (Build.follows_condition _) hs₁).bind fun c s₂ hs₂ _ => ?_
  exact (yields_collect h hs₂).bind fun block s₃ hs₃ hblock => yields_emit hs₃ hblock

/-- A loop with its condition at the end involves what its body and the condition do. -/
theorem yields_doWhile (h : Follows (Builder.Retains which) body)
    (hcond : Follows (Builder.Retains which) cond) (hs : s.1.IsOwn which) :
    Yields which (doWhile body cond) s fun _ _ => True := by
  refine (yields_retains (Build.follows_requireFunction _) hs).bind fun _ s₁ hs₁ _ => ?_
  refine (yields_collect h hs₁).bind fun block s₂ hs₂ hblock => ?_
  have hpersists : Builder.Persists (·.Admits which block) := persists_admits block
  -- the condition is built after the body, whose statements stay admitted meanwhile
  refine (yields_of_follows hcond hpersists hs₂ hblock).bind fun v s₃ hs₃ hblock => ?_
  refine (yields_of_follows (.lift (Build.follows_condition _)) hpersists hs₃ hblock).bind ?_
  exact fun c s₄ hs₄ hblock => yields_emit hs₄ hblock

/-- A block involves what its body does. -/
theorem yields_scope (h : Follows (Builder.Retains which) body) (hs : s.1.IsOwn which) :
    Yields which (scope body) s fun _ _ => True := by
  refine (yields_retains (Build.follows_requireFunction _) hs).bind fun _ s₁ hs₁ _ => ?_
  exact (yields_collect h hs₁).bind fun block s₂ hs₂ hblock => yields_emit hs₂ hblock

/-- The main function involves what its body does. -/
theorem yields_main (h : Follows (Builder.Retains which) body) (hs : s.1.IsOwn which) :
    Yields which (main body) s fun _ _ => True := by
  refine (yields_retains (Build.follows_requireGlobal _) hs).bind fun _ s₁ hs₁ _ => ?_
  refine (yields_retains Build.follows_stage hs₁).bind fun st s₂ hs₂ _ => ?_
  have hdefine : Yields which (do
      let block ← collect (.function true none) body
      Build.modifyStage fun s => { s with main := some block }) s₂ fun _ _ => True :=
    (yields_collect h hs₂).bind fun block s₃ hs₃ hblock =>
      .of_isOwn (Build.isOwn_setMain hs₃ hblock)
  dsimp only
  split
  · exact .of_isOwn hs₂
  · exact hdefine

/-! ## Counters and parameters -/

/-- A new variable is the stage's own. -/
theorem retains_newVar (name : String) (t : TypeId) (role : Role) (init : Option NodeId) :
    Build.Follows (Builder.Retains which) (Build.newVar name t role init) :=
  Build.follows_retains (nests_newVar name t role init) fun _ hb =>
    Build.isOwn_newVar hb name t role init

/-- The parameters are the stage's own. -/
theorem retains_declareParams (params : List (String × TypeId)) :
    Build.Follows (Builder.Retains which) (Build.declareParams params) := by
  induction params with
  | nil => exact .pure _
  | cons p params ih =>
      unfold Build.declareParams
      exact .bind (retains_newVar _ _ _ _) fun _ => .bind ih fun _ => .pure _

/-- What is declared persists. -/
theorem persists_declares (vs : List VarId) :
    Builder.Persists fun b => ∀ v ∈ vs, b.Declares which v :=
  fun _ _ h hvs v hv => h.declares (hvs v hv)

/-- A new variable is one of the stage at hand. -/
theorem yields_newVar (name : String) {t : TypeId} {role : Role} (init : Option NodeId)
    (hlaid : s.1.WhileOpen (·.LaysOut role t)) (hs : s.1.IsOwn which) :
    Yields which (Build.newVar name t role init : Authoring σ (VarId × Expr)) s
      fun x b => b.Declares which x.1 :=
  yields_lift (Build.isOwn_newVar hs name t role init)
    fun _ _ hrun => Or.inr (Build.declares_of_run_newVar hs hlaid hrun)

/-- The types that may be passed persist. -/
theorem persists_passes (types : List TypeId) : Builder.Persists (·.Passes types) :=
  fun _ _ h hpasses t ht => Role.admits_of_le (hpasses t ht) h.types

/-- The types of parameters can be passed. -/
theorem passes_of_run_paramTypes {function : String} {params : List (String × TypeShape)}
    {types : List TypeId} {b b' : Builder}
    (h : b.run (Build.paramTypes function params) = (.ok types, b')) : b'.Passes types := by
  induction params generalizing b types with
  | nil =>
      rw [← Except.ok.inj (Prod.mk.inj h).1, Builder.Passes]
      simp
  | cons p params ih =>
      obtain ⟨t, b₁, -, h⟩ := Builder.run_bind_eq_ok_iff.mp h
      rw [Builder.run_bind, Builder.run_get] at h
      dsimp only at h
      split at h
      · cases (Prod.mk.inj h).1
      · rename_i hparam
        obtain ⟨rest, b₂, hrest, h⟩ := Builder.run_bind_eq_ok_iff.mp h
        obtain ⟨htypes, rfl⟩ := Prod.mk.inj h
        have hadds : b₁.Adds b₂ := (Build.follows_paramTypes _ _).of_run hrest
        have ht : Role.param.admits (b₁.types.kind t) = true := by
          simpa [Role.admits] using hparam
        rw [← Except.ok.inj htypes]
        exact List.forall_mem_cons.mpr ⟨Role.admits_of_le ht hadds.types, ih hrest⟩

/-- The types of parameters may be passed. -/
theorem yields_paramTypes (function : String) (params : List (String × TypeShape))
    (hs : s.1.IsOwn which) :
    Yields which (Build.paramTypes function params : Authoring σ (List TypeId)) s
      fun types b => b.Passes types :=
  yields_lift ((Build.follows_paramTypes (R := Builder.Retains which) _ _ s.1).2 hs)
    fun _ _ hrun => Or.inr (passes_of_run_paramTypes hrun)

/-- The parameters of a function are variables of the stage at hand. -/
theorem yields_declareParams (params : List (String × TypeId))
    (htypes : s.1.WhileOpen (·.Passes (params.map (·.2)))) (hs : s.1.IsOwn which) :
    Yields which (Build.declareParams params : Authoring σ (List (VarId × Expr))) s
      fun declared b => ∀ v ∈ declared.map (·.1), b.Declares which v := by
  induction params generalizing s with
  | nil =>
      refine yields_lift hs fun declared b hrun => Or.inr ?_
      rw [← Except.ok.inj (Prod.mk.inj hrun).1]
      simp
  | cons p params ih =>
      unfold Build.declareParams
      have hfirst : s.1.WhileOpen (·.LaysOut .param p.2) :=
        htypes.imp_right fun h => Builder.laysOut_of_ne (by simp) (h p.2 List.mem_cons_self)
      have hrest := yields_of_follows (.lift (retains_newVar p.1 p.2 .param none))
        (persists_passes _) hs htypes
      refine .lift_bind (((yields_newVar p.1 none hfirst hs).and hrest).bind ?_)
      intro x s₁ hs₁ hx
      -- the first parameter stays declared while the others are
      have hkept := yields_of_follows (.lift (retains_declareParams params))
        (fun b b' hgrows => hgrows.declares) hs₁ (hx.imp_right (·.1))
      have htypes₁ : s₁.1.WhileOpen (·.Passes (params.map (·.2))) :=
        hx.imp_right fun h t ht => h.2 t (List.mem_cons_of_mem _ ht)
      refine .lift_bind ((hkept.and (ih htypes₁ hs₁)).bind fun xs s₂ hs₂ hvars => ?_)
      exact .pure hs₂ (hvars.imp_right List.forall_mem_cons.mpr)

/-- The bounds of a loop are of a type that its counter can have. -/
theorem yields_requireBounds {first last : Expr} (hs : s.1.IsOwn which) :
    Yields which (Build.requireBounds first last : Authoring σ Unit) s
      fun _ b => b.LaysOut .localVar first.type := by
  have hretains := Build.follows_requireBounds (R := Builder.Retains which) first last s.1
  refine yields_lift (hretains.2 hs) fun _ b hrun => Or.inr ?_
  have hadds : s.1.Adds b := (Build.follows_requireBounds _ _).of_run hrun
  have hsized : s.1.LaysOut .localVar first.type :=
    Builder.laysOut_of_ne (by simp) (Build.isSized_of_run_requireBounds hrun)
  exact hsized.of_le hadds.types

/-- A loop over a range involves its counter and what its body does. -/
theorem yields_forRange (counter : String) (first last : Value) {body : Expr → Authoring σ Unit}
    (h : ∀ e, Follows (Builder.Retains which) (body e)) (hs : s.1.IsOwn which) :
    Yields which (forRange counter first last body) s fun _ _ => True := by
  refine (yields_retains (Build.follows_requireFunction _) hs).bind fun _ s₁ hs₁ _ => ?_
  refine (yields_retains (Build.follows_lowerPair _ _) hs₁).bind ?_
  rintro ⟨first, last⟩ s₂ hs₂ -
  refine (yields_requireBounds hs₂).bind fun _ s₃ hs₃ hbounds => ?_
  have hpersists : ∀ v, Builder.Persists (·.Declares which v) := fun v _ _ hgrows => hgrows.declares
  -- the counter is declared in the scope of the body, and still is where the loop is emitted
  have hbody : ∀ s : Builder × σ, s.1.IsOwn which →
      s.1.WhileOpen (·.LaysOut .localVar first.type) → Yields which (do
        let x ← Build.newVar counter first.type .localVar
        body x.2
        return x.1 : Authoring σ VarId) s fun v b => b.Declares which v := by
    intro s hs hlaid
    refine (yields_newVar counter none hlaid hs).bind ?_
    rintro ⟨v, e⟩ s₁ hs₁ hv
    exact (yields_of_follows (h e) (hpersists v) hs₁ hv).bind fun _ s₂ hs₂ hv => .pure hs₂ hv
  have hlaid : Builder.Persists (·.LaysOut .localVar first.type) := fun _ _ h ht => ht.of_le h.types
  refine (yields_inScope .loop hpersists hlaid hbody hs₃ hbounds).bind ?_
  rintro ⟨_ | v, frame⟩ s₄ hs₄ hgives
  · exact .throw hs₄ _
  · exact yields_emit hs₄ (hgives.imp_right fun hframe => ⟨hframe.2 v rfl, hframe.1⟩)

/-- A function involves its parameters and what its body does. -/
theorem yields_func (name : String) (params : List (String × TypeShape))
    {body : List Expr → Authoring σ Unit} (h : ∀ es, Follows (Builder.Retains which) (body es))
    (hs : s.1.IsOwn which) : Yields which (func name params body) s fun _ _ => True := by
  refine (yields_retains (Build.follows_checkFunctionName _) hs).bind fun _ s₁ hs₁ _ => ?_
  refine (yields_paramTypes name params hs₁).bind fun types s₂ hs₂ htypes₂ => ?_
  have hpasses := persists_passes types
  refine (yields_of_follows (.lift Build.follows_stage) hpasses hs₂ htypes₂).bind ?_
  intro st s₃ hs₃ htypes₃
  refine (yields_of_follows (.lift (Build.follows_requireNewParams _ _ _)) hpasses hs₃
    htypes₃).bind fun _ s₄ hs₄ htypes₄ => ?_
  -- the parameters are declared in the scope of the body
  have hbody : ∀ s : Builder × σ, s.1.IsOwn which → s.1.WhileOpen (·.Passes types) →
      Yields which (do
        let declared ← Build.declareParams ((params.map (·.1)).zip types)
        body (declared.map (·.2))
        return declared.map (·.1) : Authoring σ (List VarId)) s
          fun vars b => ∀ v ∈ vars, b.Declares which v := by
    intro s hs htypes
    have hparams : s.1.WhileOpen (·.Passes (((params.map (·.1)).zip types).map (·.2))) :=
      htypes.imp_right fun h t ht => by
        obtain ⟨p, hp, rfl⟩ := List.mem_map.mp ht
        exact h p.2 (List.of_mem_zip hp).2
    refine (yields_declareParams _ hparams hs).bind fun declared s₁ hs₁ hvars => ?_
    exact (yields_of_follows (h _) (persists_declares _) hs₁ hvars).bind fun _ s₂ hs₂ hvars =>
      .pure hs₂ hvars
  refine (yields_inScope (.function false none) persists_declares hpasses hbody hs₄ htypes₄).bind ?_
  rintro ⟨_ | vars, scope⟩ s₅ hs₅ hgives
  · exact .throw hs₅ _
  · have hpersists : Builder.Persists fun b =>
        (∀ v ∈ vars, b.Declares which v) ∧ b.Admits which scope.body :=
      fun b b' hgrows hb => ⟨persists_declares vars b b' hgrows hb.1, hgrows.admits hb.2⟩
    have hfn : s₅.1.WhileOpen fun b =>
        (∀ v ∈ vars, b.Declares which v) ∧ b.Admits which scope.body :=
      hgives.imp_right fun hframe => ⟨hframe.2 vars rfl, hframe.1⟩
    refine (yields_of_follows (.lift (Build.follows_resultType _ _)) hpersists hs₅ hfn).bind ?_
    exact fun t s₆ hs₆ hfn => .of_isOwn (Build.isOwn_addFunction hs₆ hfn)

end ControlFlow

end Authoring

/-! ## Scripts -/

namespace Script

open Authoring

variable {which : Stage}

/-- Whatever a script does in a stage, the stage only involves what is its own. -/
theorem respected_retains : Respected (Builder.Retains which) where
  func name params _ h s :=
    ⟨nests_func name params (fun es s => (h es s).1) s,
      fun hs => (yields_func name params h hs).isOwn⟩
  main h s := ⟨nests_main (fun s => (h s).1) s, fun hs => (yields_main h hs).isOwn⟩
  scope h s := ⟨nests_scope (fun s => (h s).1) s, fun hs => (yields_scope h hs).isOwn⟩
  ifThen v _ h s := ⟨nests_ifThen v (fun s => (h s).1) s, fun hs => (yields_ifThen v h hs).isOwn⟩
  elseIf v _ h s := ⟨nests_elseIf v (fun s => (h s).1) s, fun hs => (yields_elseIf v h hs).isOwn⟩
  otherwise h s := ⟨nests_otherwise (fun s => (h s).1) s, fun hs => (yields_otherwise h hs).isOwn⟩
  forRange counter first last _ h s :=
    ⟨nests_forRange counter first last (fun e s => (h e s).1) s,
      fun hs => (yields_forRange counter first last h hs).isOwn⟩
  whileDo v _ h s := ⟨nests_whileDo v (fun s => (h s).1) s, fun hs => (yields_whileDo v h hs).isOwn⟩
  doWhile h hcond s :=
    ⟨nests_doWhile (fun s => (h s).1) (fun s => (hcond s).1) s,
      fun hs => (yields_doWhile h hcond hs).isOwn⟩

/-- A body stays within its own. -/
theorem retains_body (tolerant : Bool) (steps : Script) :
    Follows (Builder.Retains which) (body (runAll tolerant steps)) :=
  follows_body (follows_runAll respected_retains tolerant steps)

end Script

end WebShader
