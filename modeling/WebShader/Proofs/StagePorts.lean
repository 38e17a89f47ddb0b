import WebShader.Proofs.ScriptScopes

/-!
# Ports of stages

What one stage hands to the next. Outputs are numbered from zero in the order in which they are
declared, whatever fails in between, and nothing that runs in a later stage changes what enters it.
-/

namespace WebShader

/-! ## Ports -/

/-- What passes from a stage to the next. -/
structure Port where
  name : String
  type : TypeId
  location : Nat

/-- A variable that leaves a stage through a port. -/
structure Variable.Leaves (d : Variable) (p : Port) : Prop where
  name : d.name = p.name
  type : d.type = p.type
  role : d.role = .output p.location

/-- A variable that enters a stage through a port. -/
structure Variable.Enters (d : Variable) (p : Port) : Prop where
  name : d.name = p.name
  type : d.type = p.type
  role : d.role = .input p.location none

/-- Variables pass through ports in order, one through each. -/
def PassThrough (P : Variable → Port → Prop) (vars : Array Variable) (vs : List VarId)
    (ports : List Port) : Prop :=
  List.Forall₂ (fun v p => ∃ d, vars[v.index]? = some d ∧ P d p) vs ports

/-- Ports are numbered from zero, in order. -/
def Numbered (ports : List Port) : Prop := ports.map (·.location) = List.range ports.length

/-- The outputs of a stage are numbered from zero, in order. -/
def StageDecls.NumbersOutputs (d : StageDecls) (vars : Array Variable) : Prop :=
  ∃ ports, PassThrough Variable.Leaves vars d.outputs ports ∧ Numbered ports

section Ports

variable {P : Variable → Port → Prop} {vars vars' : Array Variable} {vs : List VarId}
  {ports : List Port}

/-- Variables pass through the same ports as others are added. -/
theorem PassThrough.extends (h : PassThrough P vars vs ports) (hvars : Extends vars vars') :
    PassThrough P vars' vs ports :=
  h.imp fun _ _ ⟨d, hd, hp⟩ => ⟨d, hvars _ d hd, hp⟩

/-- One more variable passes through one more port. -/
theorem PassThrough.concat {v : VarId} {d : Variable} {p : Port} (h : PassThrough P vars vs ports)
    (hd : vars[v.index]? = some d) (hp : P d p) : PassThrough P vars (vs ++ [v]) (ports ++ [p]) :=
  List.rel_append h (.cons ⟨d, hd, hp⟩ .nil)

/-- No ports are numbered. -/
theorem numbered_nil : Numbered [] := rfl

/-- The next port is numbered by those before it. -/
theorem Numbered.concat {p : Port} (h : Numbered ports) (hp : p.location = ports.length) :
    Numbered (ports ++ [p]) := by
  unfold Numbered
  rw [List.map_append, h, List.map_singleton, hp, List.length_append, List.length_singleton,
    List.range_succ]

/-- Outputs stay numbered as variables are added. -/
theorem StageDecls.NumbersOutputs.extends {d : StageDecls} (h : d.NumbersOutputs vars)
    (hvars : Extends vars vars') : d.NumbersOutputs vars' := by
  obtain ⟨ports, hpass, hnumbered⟩ := h
  exact ⟨ports, hpass.extends hvars, hnumbered⟩

end Ports

/-! ## Stages that keep their ports -/

/-- A stage keeps the numbers of its outputs and, but for the attributes of a vertex, what enters
it. -/
structure OpenStage.KeepsPorts (vars vars' : Array Variable) (s s' : OpenStage) : Prop where
  stage : s'.decls.stage = s.decls.stage
  inputs : s.decls.stage ≠ .vertex → s'.decls.inputs = s.decls.inputs
  outputs : s.decls.NumbersOutputs vars → s'.decls.NumbersOutputs vars'

/-- A builder keeps the ports of its stage, unless it loses the stage. -/
def Builder.KeepsPorts (b b' : Builder) : Prop :=
  ∀ s', b'.stage = some s' → ∃ s, b.stage = some s ∧ s.KeepsPorts b.vars b'.vars s'

/-- A stage in which neither the kind nor the ports have changed. -/
structure OpenStage.SamePorts (s s' : OpenStage) : Prop where
  stage : s'.decls.stage = s.decls.stage
  inputs : s'.decls.inputs = s.decls.inputs
  outputs : s'.decls.outputs = s.decls.outputs

section Stages

variable {b b' b'' : Builder} {s s' : OpenStage}

/-- A stage with its ports keeps them. -/
theorem OpenStage.SamePorts.keepsPorts {vars vars' : Array Variable} (h : s.SamePorts s')
    (hvars : Extends vars vars') : s.KeepsPorts vars vars' s' := by
  refine ⟨h.stage, fun _ => h.inputs, fun hs => ?_⟩
  unfold StageDecls.NumbersOutputs
  rw [h.outputs]
  exact hs.extends hvars

/-- A builder with the ports of its stage keeps them. -/
theorem Builder.KeepsPorts.of_same (hs : b.stage = some s) (hs' : b'.stage = some s')
    (hvars : Extends b.vars b'.vars) (h : s.SamePorts s') : b.KeepsPorts b' := by
  intro t ht
  obtain rfl := Option.some.inj (hs'.symm.trans ht)
  exact ⟨s, hs, h.keepsPorts hvars⟩

theorem Builder.keepsPorts_of_vars (hstage : b'.stage = b.stage)
    (hvars : Extends b.vars b'.vars) : b.KeepsPorts b' :=
  fun s' hs' => ⟨s', hstage.symm.trans hs', OpenStage.SamePorts.keepsPorts ⟨rfl, rfl, rfl⟩ hvars⟩

theorem Builder.keepsPorts_refl (b : Builder) : b.KeepsPorts b :=
  keepsPorts_of_vars rfl (Extends.refl b.vars)

/-- Ports are kept in steps. -/
theorem Builder.KeepsPorts.trans (h : b.KeepsPorts b') (h' : b'.KeepsPorts b'') :
    b.KeepsPorts b'' := by
  intro s'' hs''
  obtain ⟨s', hs', hlater⟩ := h' s'' hs''
  obtain ⟨s, hs, hearlier⟩ := h s' hs'
  refine ⟨s, hs, hlater.stage.trans hearlier.stage, fun hstage => ?_, fun hnumbered => ?_⟩
  · exact (hlater.inputs (hearlier.stage ▸ hstage)).trans (hearlier.inputs hstage)
  · exact hlater.outputs (hearlier.outputs hnumbered)

instance : IsAdditive Builder.KeepsPorts where
  refl := Builder.keepsPorts_refl
  trans _ _ _ := Builder.KeepsPorts.trans
  of_adds b b' h s' hs' := by
    have hstage := h.stage
    rw [hs'] at hstage
    cases hs : b.stage with
    | none => rw [hs] at hstage; cases hstage
    | some s =>
        rw [hs] at hstage
        cases hstage with
        | some hadds =>
            have hdecls : s'.stem.decls = s.stem.decls := by rw [hadds.stem]
            have hsame : s.SamePorts s' := by
              constructor
              · exact (congrArg StageDecls.stage hdecls :)
              · exact (congrArg StageDecls.inputs hdecls :)
              · exact (congrArg StageDecls.outputs hdecls :)
            exact ⟨s, rfl, hsame.keepsPorts (h.vars ▸ Extends.refl b.vars)⟩

end Stages

/-! ## Steps -/

namespace Build

theorem keepsPorts_modifyStage {f : OpenStage → OpenStage}
    (hf : ∀ s : OpenStage, s.SamePorts (f s)) :
    Follows Builder.KeepsPorts (modifyStage f) := by
  intro b
  cases hs : b.stage with
  | none =>
      rw [Builder.run_modifyStage_of_none hs]
      exact b.keepsPorts_refl
  | some s =>
      rw [Builder.run_modifyStage_of_some hs]
      exact .of_same hs rfl (Extends.refl b.vars) (hf s)

/-- A new variable is not a port yet. -/
theorem keepsPorts_newVar (name : String) (t : TypeId) (role : Role) (init : Option NodeId) :
    Follows Builder.KeepsPorts (newVar name t role init) := by
  intro b
  rcases run_newVar_cases b name t role init with
    ⟨fault, b', hrun, rfl | ⟨d, rfl⟩⟩ | ⟨s, f, rest, e, hs, -, -, hrun⟩
  · rw [hrun]
    exact b'.keepsPorts_refl
  · rw [hrun]
    exact Builder.keepsPorts_of_vars rfl (extends_push b.vars d)
  · rw [hrun]
    exact .of_same hs rfl (extends_push b.vars _) ⟨rfl, rfl, rfl⟩

theorem keepsPorts_emit (st : Stmt NodeId) : Follows Builder.KeepsPorts (emit st) :=
  .bind (follows_requireFunction _) fun _ => .bind follows_frame fun _ =>
    keepsPorts_modifyStage fun _ => ⟨rfl, rfl, rfl⟩

theorem keepsPorts_extendLast (failure : InternalFault) (f : Stmt NodeId → Option (Stmt NodeId)) :
    Follows Builder.KeepsPorts (extendLast failure f) := by
  refine .bind follows_frame fun _ => ?_
  split
  · exact keepsPorts_modifyStage fun _ => ⟨rfl, rfl, rfl⟩
  · exact .throw _

theorem keepsPorts_popScope : Follows Builder.KeepsPorts popScope := by
  refine .bind follows_stage fun s => ?_
  split
  · exact .bind (keepsPorts_modifyStage fun _ => ⟨rfl, rfl, rfl⟩) fun _ => .pure _
  · exact .throw _

theorem keepsPorts_declareParams (params : List (String × TypeId)) :
    Follows Builder.KeepsPorts (declareParams params) := by
  induction params with
  | nil => exact .pure _
  | cons p params ih =>
      unfold declareParams
      exact .bind (keepsPorts_newVar _ _ _ _) fun _ => .bind ih fun _ => .pure _

/-- A variable that the stage expects becomes an attribute of a vertex, the next output, or no port
at all. -/
theorem keepsPorts_declareIn {list : DeclList} (name : String) (t : TypeId) {role : Role}
    (init : Option NodeId) (hrole : list.Admits role) :
    FollowsWhere Builder.KeepsPorts (Builder.Awaits role) (declareIn list name t role init) := by
  intro b hb
  unfold declareIn
  rw [Builder.run_bind]
  have hkeeps := keepsPorts_newVar name t role init b
  rcases run_newVar_cases b name t role init with
    ⟨fault, b', hrun, -⟩ | ⟨s, f, rest, e, hs, -, -, hrun⟩
  · rw [hrun] at hkeeps ⊢
    exact hkeeps
  · rw [hrun]
    dsimp only
    rw [Builder.run_bind, modifyDecls, Builder.run_modifyStage_of_some rfl]
    dsimp only [Builder.run_pure]
    intro s' hs'
    obtain rfl := Option.some.inj hs'
    have hexpected := hb.expected s hs
    have hvars := extends_push b.vars ⟨name, t, role, s.decls.stage, init⟩
    refine ⟨s, hs, ?_⟩
    -- only an output of the vertex stage makes a new port
    cases list with
    | constants => exact OpenStage.SamePorts.keepsPorts ⟨rfl, rfl, rfl⟩ hvars
    | resources => exact OpenStage.SamePorts.keepsPorts ⟨rfl, rfl, rfl⟩ hvars
    | inputs =>
        refine ⟨rfl, fun hstage => ?_, fun hs => hs.extends hvars⟩
        cases role with
        | input => exact absurd hexpected.2 hstage
        | _ => cases hrole
    | outputs =>
        refine ⟨rfl, fun _ => rfl, ?_⟩
        rintro ⟨ports, hpass, hnumbered⟩
        cases role with
        | output location =>
            have hlocation : location = ports.length := hexpected.trans hpass.length_eq
            have hnew : (b.vars.push ⟨name, t, .output location, s.decls.stage,
                init⟩)[b.vars.size]? =
                some ⟨name, t, .output location, s.decls.stage, init⟩ := by simp
            exact ⟨ports ++ [⟨name, t, location⟩],
              (hpass.extends hvars).concat (v := ⟨b.vars.size⟩) hnew ⟨rfl, rfl, rfl⟩,
              hnumbered.concat hlocation⟩
        | _ => cases hrole

end Build

/-! ## What opens scopes -/

namespace Authoring

variable {σ α : Type} {act : Authoring σ α} {body : Authoring σ Unit} {cond : Authoring σ Value}

open Build

theorem keepsPorts_inScope (kind : ScopeKind) (h : Follows Builder.KeepsPorts act) :
    Follows Builder.KeepsPorts (inScope kind act) := by
  refine .bind (.lift (keepsPorts_modifyStage fun _ => ⟨rfl, rfl, rfl⟩)) fun _ => ?_
  exact .bind h.attempt fun _ => .bind (.lift keepsPorts_popScope) fun _ => .pure _

theorem keepsPorts_collect (kind : ScopeKind) (h : Follows Builder.KeepsPorts body) :
    Follows Builder.KeepsPorts (collect kind body) := by
  refine .bind (keepsPorts_inScope kind h) ?_
  rintro ⟨result, frame⟩
  cases result with
  | ok _ => exact .pure _
  | error e => exact .throw e

theorem keepsPorts_func (name : String) (params : List (String × TypeShape))
    {body : List Expr → Authoring σ Unit} (h : ∀ es, Follows Builder.KeepsPorts (body es)) :
    Follows Builder.KeepsPorts (func name params body) := by
  have hparams : ∀ ps, Follows Builder.KeepsPorts (do
      let declared ← declareParams ps
      body (declared.map (·.2))
      return declared.map (·.1)) :=
    fun ps => .bind (.lift (keepsPorts_declareParams _)) fun _ => .bind (h _) fun _ => .pure _
  refine .bind (.lift (follows_checkFunctionName _)) fun _ => ?_
  refine .bind (.lift (follows_paramTypes _ _)) fun _ => .bind (.lift follows_stage) fun _ => ?_
  refine .bind (.lift (follows_requireNewParams _ _ _)) fun _ => ?_
  refine .bind (keepsPorts_inScope _ (hparams _)) ?_
  rintro ⟨_ | vars, scope⟩
  · exact .throw _
  · refine .bind (.lift (follows_resultType _ _)) fun _ => .lift (.bind follows_stage fun _ => ?_)
    exact .bind (keepsPorts_modifyStage fun _ => ⟨rfl, rfl, rfl⟩) fun _ => .pure _

theorem keepsPorts_main (h : Follows Builder.KeepsPorts body) :
    Follows Builder.KeepsPorts (main body) := by
  have hrest : Follows Builder.KeepsPorts (do
      let block ← collect (.function true none) body
      Build.modifyStage fun s => { s with main := some block }) :=
    .bind (keepsPorts_collect _ h) fun _ => .lift (keepsPorts_modifyStage fun _ => ⟨rfl, rfl, rfl⟩)
  refine .bind (.lift (follows_requireGlobal _)) fun _ => .bind (.lift follows_stage) fun _ => ?_
  dsimp only
  split
  · exact .bind (.throw _) fun _ => hrest
  · exact hrest

theorem keepsPorts_forRange (counter : String) (first last : Value) {body : Expr → Authoring σ Unit}
    (h : ∀ e, Follows Builder.KeepsPorts (body e)) :
    Follows Builder.KeepsPorts (forRange counter first last body) := by
  refine .bind (.lift (follows_requireFunction _)) fun _ => ?_
  refine .bind (.lift (follows_lowerPair _ _)) fun ends => ?_
  refine .bind (.lift (follows_requireBounds _ _)) fun _ => ?_
  refine .bind (keepsPorts_inScope .loop ?_) ?_
  · exact .bind (.lift (keepsPorts_newVar _ _ _ _)) fun x => .bind (h x.2) fun _ => .pure _
  rintro ⟨_ | v, frame⟩
  · exact .throw _
  · exact .lift (keepsPorts_emit _)

theorem keepsPorts_ifThen (v : Value) (h : Follows Builder.KeepsPorts body) :
    Follows Builder.KeepsPorts (ifThen v body) :=
  .bind (.lift (follows_requireFunction _)) fun _ => .bind (.lift (follows_condition v)) fun _ =>
    .bind (keepsPorts_collect _ h) fun _ => .lift (keepsPorts_emit _)

theorem keepsPorts_elseIf (v : Value) (h : Follows Builder.KeepsPorts body) :
    Follows Builder.KeepsPorts (elseIf v body) :=
  .bind (.lift (follows_condition v)) fun _ =>
    .bind (keepsPorts_collect _ h) fun _ => .lift (keepsPorts_extendLast _ _)

theorem keepsPorts_otherwise (h : Follows Builder.KeepsPorts body) :
    Follows Builder.KeepsPorts (otherwise body) :=
  .bind (keepsPorts_collect _ h) fun _ => .lift (keepsPorts_extendLast _ _)

theorem keepsPorts_whileDo (v : Value) (h : Follows Builder.KeepsPorts body) :
    Follows Builder.KeepsPorts (whileDo v body) :=
  .bind (.lift (follows_requireFunction _)) fun _ => .bind (.lift (follows_condition v)) fun _ =>
    .bind (keepsPorts_collect _ h) fun _ => .lift (keepsPorts_emit _)

theorem keepsPorts_doWhile (h : Follows Builder.KeepsPorts body)
    (hcond : Follows Builder.KeepsPorts cond) : Follows Builder.KeepsPorts (doWhile body cond) :=
  .bind (.lift (follows_requireFunction _)) fun _ => .bind (keepsPorts_collect _ h) fun _ =>
    .bind hcond fun v => .bind (.lift (follows_condition v)) fun _ => .lift (keepsPorts_emit _)

theorem keepsPorts_scope (h : Follows Builder.KeepsPorts body) :
    Follows Builder.KeepsPorts (scope body) :=
  .bind (.lift (follows_requireFunction _)) fun _ =>
    .bind (keepsPorts_collect _ h) fun _ => .lift (keepsPorts_emit _)

end Authoring

/-! ## Scripts -/

/-- What runs in a stage that is linked to others: it keeps what it should, and the ports. -/
def Builder.Links (b b' : Builder) : Prop := b.Keeps b' ∧ b.KeepsPorts b'

instance : IsAdditive Builder.Links where
  refl b := ⟨b.keeps_refl, b.keepsPorts_refl⟩
  trans _ _ _ h h' := ⟨h.1.trans h'.1, h.2.trans h'.2⟩
  of_adds b b' h := ⟨IsAdditive.of_adds b b' h, IsAdditive.of_adds b b' h⟩

theorem Build.follows_links {α : Type} {act : Build α} (hkeeps : Follows Builder.Keeps act)
    (hports : Follows Builder.KeepsPorts act) : Follows Builder.Links act :=
  fun b => ⟨hkeeps b, hports b⟩

instance : IsStepwise Builder.Links where
  config h := h.1.config
  of_lost hconfig hstage := by
    refine ⟨.of_lost hconfig hstage, fun s' hs' => ?_⟩
    rw [hstage] at hs'
    cases hs'
  takes h hb := hb.of_keeps h.1
  setResult t := Build.follows_links (IsOperational.setResult t)
    (Build.keepsPorts_modifyStage fun _ => ⟨rfl, rfl, rfl⟩)
  setSize size := Build.follows_links (IsDeclarative.setSize size)
    (Build.keepsPorts_modifyStage fun _ => ⟨rfl, rfl, rfl⟩)
  setTag e path := Build.follows_links (IsDeclarative.setTag e path)
    (Build.keepsPorts_modifyStage fun _ => ⟨rfl, rfl, rfl⟩)
  emit {st} h b hb := ⟨IsElementary.emit h b hb, Build.keepsPorts_emit st b⟩
  giveBack value := Build.follows_links (IsOperational.giveBack value) (Build.keepsPorts_emit _)
  declare name t init b hb := ⟨IsElementary.declare name t init b hb,
    Build.Follows.bind (Build.keepsPorts_newVar _ _ _ _)
      (fun _ => .bind (Build.keepsPorts_emit _) fun _ => .pure _) b⟩
  declareIn name t _ init h b hb :=
    ⟨IsDeclarative.declareIn name t init h b hb, Build.keepsPorts_declareIn name t init h b hb.1⟩

namespace Authoring

variable {σ α : Type} {act : Authoring σ α}

theorem follows_links (hkeeps : Follows Builder.Keeps act)
    (hports : Follows Builder.KeepsPorts act) :
    Follows Builder.Links act :=
  fun s => ⟨hkeeps s, hports s⟩

/-- What links the stages keeps them. -/
theorem Follows.keeps (h : Follows Builder.Links act) : Follows Builder.Keeps act :=
  fun s => (h s).1

/-- What links the stages keeps their ports. -/
theorem Follows.keepsPorts (h : Follows Builder.Links act) : Follows Builder.KeepsPorts act :=
  fun s => (h s).2

end Authoring

namespace Script

open Authoring

/-- Whatever a script does, it keeps the ports of the stage. -/
theorem respected_links : Respected Builder.Links where
  func name params _ h := follows_links (respected_keeps.func name params fun es => (h es).keeps)
    (keepsPorts_func name params fun es => (h es).keepsPorts)
  main h := follows_links (respected_keeps.main h.keeps) (keepsPorts_main h.keepsPorts)
  scope h := follows_links (respected_keeps.scope h.keeps) (keepsPorts_scope h.keepsPorts)
  ifThen v _ h :=
    follows_links (respected_keeps.ifThen v h.keeps) (keepsPorts_ifThen v h.keepsPorts)
  elseIf v _ h :=
    follows_links (respected_keeps.elseIf v h.keeps) (keepsPorts_elseIf v h.keepsPorts)
  otherwise h :=
    follows_links (respected_keeps.otherwise h.keeps) (keepsPorts_otherwise h.keepsPorts)
  forRange counter first last _ h :=
    follows_links (respected_keeps.forRange counter first last fun e => (h e).keeps)
      (keepsPorts_forRange counter first last fun e => (h e).keepsPorts)
  whileDo v _ h :=
    follows_links (respected_keeps.whileDo v h.keeps) (keepsPorts_whileDo v h.keepsPorts)
  doWhile h hcond := follows_links (respected_keeps.doWhile h.keeps hcond.keeps)
    (keepsPorts_doWhile h.keepsPorts hcond.keepsPorts)

/-- A body links the stages. -/
theorem links_body (tolerant : Bool) (steps : Script) :
    Follows Builder.Links (body (runAll tolerant steps)) :=
  follows_body (follows_runAll respected_links tolerant steps)

end Script

end WebShader
