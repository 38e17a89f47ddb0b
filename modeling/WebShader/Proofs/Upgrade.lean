import WebShader.Proofs.Operations

/-!
# Upgrading to WebGL2

The state of a WebGL builder has a counterpart for WebGL2, which only differs in the target, and
has none of the extensions and remarks that GLSL ES 1.00 calls for. An operation that succeeds on
WebGL succeeds on the counterpart, with the same result, and leaves the counterpart.
-/

namespace WebShader

/-! ## Counterparts -/

/-- The declarations without their extensions. -/
def StageDecls.upgrade (d : StageDecls) : StageDecls := { d with extensions := [] }

/-- The stage without extensions. -/
def OpenStage.upgrade (s : OpenStage) : OpenStage := { s with decls := s.decls.upgrade }

/-- The stage without extensions. -/
def BuiltStage.upgrade (s : BuiltStage) : BuiltStage := { s with decls := s.decls.upgrade }

/-- The options for WebGL2. -/
def Config.upgrade (c : Config) : Config := { c with target := .webGL2 }

/-- The builder for WebGL2, without extensions and remarks. -/
def Builder.upgrade (b : Builder) : Builder :=
  { b with config := b.config.upgrade, stage := b.stage.map OpenStage.upgrade, remarks := [] }

/-- A WebGL builder, with types and stages that WebGL has. -/
structure Builder.IsWebGL (b : Builder) : Prop where
  target : b.target = .webGL
  signed : b.types.IsSigned
  draws : b.currentStage ≠ some .compute

namespace Builder

variable (b : Builder)

/-- The newer target. -/
@[simp]
theorem upgrade_target : b.upgrade.target = .webGL2 := rfl

/-- The registry stays. -/
@[simp]
theorem upgrade_types : b.upgrade.types = b.types := rfl

/-- The arena stays. -/
@[simp]
theorem upgrade_nodes : b.upgrade.nodes = b.nodes := rfl

/-- The variables stay. -/
@[simp]
theorem upgrade_vars : b.upgrade.vars = b.vars := rfl

/-- The stage is upgraded. -/
@[simp]
theorem upgrade_stage : b.upgrade.stage = b.stage.map OpenStage.upgrade := rfl

/-- Names are looked up alike. -/
theorem upgrade_lookup (name : String) : b.upgrade.lookup name = b.lookup name := by
  rw [lookup, lookup, upgrade_stage]
  cases b.stage <;> rfl

/-- The kind of the stage stays. -/
theorem currentStage_upgrade : b.upgrade.currentStage = b.currentStage := by
  rw [currentStage, currentStage, upgrade_stage]
  cases b.stage <;> rfl

/-- The root of an access stays. -/
theorem upgrade_root? (n : NodeId) : b.upgrade.root? n = b.root? n := root?_congr b.upgrade_nodes n

/-- Whether an expression is constant stays. -/
theorem upgrade_isConstant (n : NodeId) : b.upgrade.isConstant n = b.isConstant n :=
  isConstant_congr b.upgrade_nodes b.upgrade_vars n

/-- A place is checked alike. -/
theorem upgrade_checkPlace (hb : b.target = .webGL) (n : NodeId) :
    b.upgrade.checkPlace n = b.checkPlace n := by
  refine checkPlace_congr b.upgrade_nodes b.upgrade_vars (fun s => ?_) n
  rw [hb]
  rfl

/-- The tree of an expression stays. -/
theorem upgrade_term (n : NodeId) : b.upgrade.term n = b.term n := term_congr b.upgrade_nodes n

/-- A new builder of the older target. -/
theorem isWebGL_new {config : Config} (h : config.target = .webGL) : (new config).IsWebGL :=
  ⟨h, Registry.isSigned_iff.mpr Registry.hasOnly_empty, by simp [currentStage, new]⟩

end Builder

/-! ## Operations that upgrade -/

namespace Build

variable {α β : Type}

/-- Where an operation succeeds from a builder, another one succeeds from the counterpart, with the
same result, and leaves the counterpart. -/
def UpgradesFrom (b : Builder) (act act' : Build α) : Prop :=
  ∀ a b', b.run act = (.ok a, b') → b.upgrade.run act' = (.ok a, b'.upgrade) ∧ b'.IsWebGL

/-- Where an operation succeeds on WebGL, it succeeds in the same way on the counterpart. -/
def Upgrades (act : Build α) : Prop := ∀ b : Builder, b.IsWebGL → UpgradesFrom b act act

/-! ### Sequences -/

section Sequences

variable {b : Builder} {act act' : Build α} {f f' : α → Build β}

/-- Nothing is done. -/
theorem UpgradesFrom.pure (hb : b.IsWebGL) (a : α) : UpgradesFrom b (pure a) (pure a) := by
  intro a' b' h
  rw [Builder.run_pure] at h
  obtain ⟨ha, rfl⟩ := Prod.mk.inj h
  rw [← Except.ok.inj ha]
  exact ⟨rfl, hb⟩

/-- What fails asks nothing of the newer target. -/
theorem UpgradesFrom.throw (e : ShaderError) : UpgradesFrom b (throw e : Build α) act' := by
  intro a b' h
  cases (Prod.mk.inj h).1

/-- One after the other. -/
theorem UpgradesFrom.bind (h : UpgradesFrom b act act')
    (hf : ∀ a b', b.run act = (.ok a, b') → b'.IsWebGL → UpgradesFrom b' (f a) (f' a)) :
    UpgradesFrom b (act >>= f) (act' >>= f') := by
  intro c b'' hrun
  rw [Builder.run_bind] at hrun ⊢
  rcases hact : b.run act with ⟨e | a, b'⟩
  · rw [hact] at hrun
    cases (Prod.mk.inj hrun).1
  · rw [hact] at hrun
    obtain ⟨hact', hb'⟩ := h a b' hact
    rw [hact']
    exact hf a b' hact hb' c b'' hrun

/-- A check that succeeds does so for the newer target. -/
theorem UpgradesFrom.liftM (hb : b.IsWebGL) {x x' : Except ShaderError α}
    (h : ∀ a, x = .ok a → x' = .ok a) : UpgradesFrom b (liftM x) (liftM x') := by
  intro a b' hrun
  rw [Builder.run_liftM] at hrun ⊢
  obtain ⟨hx, rfl⟩ := Prod.mk.inj hrun
  rw [h a hx]
  exact ⟨rfl, hb⟩

/-- What follows goes on from the stage and its upgrade. -/
theorem UpgradesFrom.stage_bind {f f' : OpenStage → Build β}
    (hf : ∀ s, b.stage = some s → UpgradesFrom b (f s) (f' s.upgrade)) :
    UpgradesFrom b (stage >>= f) (stage >>= f') := by
  intro a b' hrun
  cases hs : b.stage with
  | none =>
      rw [Builder.run_bind, Builder.run_stage_of_none hs] at hrun
      cases (Prod.mk.inj hrun).1
  | some s =>
      have hs' : b.upgrade.stage = some s.upgrade := by rw [Builder.upgrade_stage, hs]; rfl
      rw [Builder.run_bind, Builder.run_stage_of_some hs] at hrun
      rw [Builder.run_bind, Builder.run_stage_of_some hs']
      exact hf s hs a b' hrun

/-- Both branches are upgraded. -/
theorem UpgradesFrom.ite {c : Prop} [Decidable c] {other other' : Build α}
    (h : UpgradesFrom b act act') (h' : UpgradesFrom b other other') :
    UpgradesFrom b (if c then act else other) (if c then act' else other') := by
  split
  · exact h
  · exact h'

namespace Upgrades

/-- Nothing is done. -/
protected theorem pure (a : α) : Upgrades (pure a : Build α) := fun _ hb => .pure hb a

/-- What fails asks nothing of the newer target. -/
theorem throw (e : ShaderError) : Upgrades (throw e : Build α) := fun _ _ => .throw e

/-- What follows a failure is not run. -/
theorem throw_bind (e : ShaderError) : Upgrades (MonadExcept.throw e >>= f) := by
  intro b hb a b' hrun
  cases (Prod.mk.inj hrun).1

/-- The same check is made. -/
theorem liftM (x : Except ShaderError α) : Upgrades (liftM x : Build α) :=
  fun _ hb => .liftM hb fun _ h => h

/-- One after the other. -/
theorem bind (h : Upgrades act) (hf : ∀ a, Upgrades (f a)) : Upgrades (act >>= f) :=
  fun b hb => .bind (h b hb) fun a b' _ hb' => hf a b' hb'

/-- What follows a look at the builder. -/
theorem get_bind {f : Builder → Build β}
    (hf : ∀ b, b.IsWebGL → UpgradesFrom b (f b) (f b.upgrade)) :
    Upgrades (get >>= f) :=
  fun b hb => hf b hb

/-- What follows a look at parts of the builder that the target has no part in. -/
theorem read_bind {f : Builder → Build β}
    (hsame : ∀ b : Builder, b.IsWebGL → f b.upgrade = f b)
    (hf : ∀ b, Upgrades (f b)) : Upgrades (get >>= f) :=
  get_bind fun b hb => by
    rw [hsame b hb]
    exact hf b b hb

/-- What follows a look at the stage. -/
theorem stage_bind {f : OpenStage → Build β}
    (hf : ∀ b s, b.IsWebGL → b.stage = some s → UpgradesFrom b (f s) (f s.upgrade)) :
    Upgrades (Build.stage >>= f) :=
  fun b hb => .stage_bind fun s hs => hf b s hb hs

/-- What follows a look at parts of the stage other than the extensions. -/
theorem readStage_bind {f : OpenStage → Build β} (hsame : ∀ s : OpenStage, f s.upgrade = f s)
    (hf : ∀ s, Upgrades (f s)) : Upgrades (Build.stage >>= f) :=
  stage_bind fun b s hb _ => by
    rw [hsame]
    exact hf s b hb

/-- An attempt whose failures stay failures. -/
theorem tryCatch {handler : ShaderError → Build α} (h : Upgrades act)
    (hfails : ∀ e (b : Builder), ∃ e', (b.run (handler e)).1 = .error e') :
    Upgrades (tryCatch act handler) := by
  intro b hb a b' hrun
  rw [Builder.run_tryCatch] at hrun ⊢
  rcases hact : b.run act with ⟨e | a', b''⟩
  · rw [hact] at hrun
    obtain ⟨e', he'⟩ := hfails e b''
    dsimp only at hrun
    rw [hrun] at he'
    cases he'
  · rw [hact] at hrun
    obtain ⟨hact', hb'⟩ := h b hb a' b'' hact
    obtain ⟨ha, rfl⟩ := Prod.mk.inj hrun
    rw [hact', ← Except.ok.inj ha]
    exact ⟨rfl, hb'⟩

end Upgrades

/-! ### Changes of the builder -/

/-- A registration without unsigned components is the same. -/
theorem UpgradesFrom.intern {b : Builder} (hb : b.IsWebGL) {act : Interning α}
    (h : act.KeepsSigned) : UpgradesFrom b (intern act) (intern act) := by
  intro a b' hrun
  rw [Builder.run_intern] at hrun ⊢
  obtain ⟨hact, rfl⟩ := Prod.mk.inj hrun
  exact ⟨by rw [Builder.upgrade_types, hact]; rfl, { hb with signed := h b.types hb.signed }⟩

theorem upgrades_intern {act : Interning α} (h : act.KeepsSigned) : Upgrades (intern act) :=
  fun _ hb => .intern hb h

theorem upgrades_modify {g : Builder → Builder} (hsame : ∀ b : Builder, g b.upgrade = (g b).upgrade)
    (hkeeps : ∀ b : Builder, b.IsWebGL → (g b).IsWebGL) : Upgrades (modify g : Build PUnit) := by
  intro b hb a b' hrun
  rw [Builder.run_modify] at hrun ⊢
  obtain ⟨-, rfl⟩ := Prod.mk.inj hrun
  rw [hsame]
  exact ⟨rfl, hkeeps b hb⟩

theorem upgrades_pushNode (type : TypeId) (kind : NodeKind) : Upgrades (pushNode type kind) := by
  have hpush : Upgrades (modify fun b => { b with nodes := b.nodes.push ⟨type, kind⟩ }) :=
    upgrades_modify (fun _ => rfl) fun _ hb => { hb with }
  exact .read_bind (fun _ _ => rfl) fun _ => .bind hpush fun _ => .pure _

theorem upgrades_modifyStage {g : OpenStage → OpenStage}
    (hsame : ∀ s : OpenStage, g s.upgrade = (g s).upgrade)
    (hstage : ∀ s, (g s).decls.stage = s.decls.stage) : Upgrades (modifyStage g) := by
  refine .stage_bind fun b s hb hs => ?_
  intro a b' hrun
  have hdraws : some (g s).decls.stage ≠ some Stage.compute := by
    rw [hstage]
    simpa [Builder.currentStage, hs] using hb.draws
  rw [Builder.run_modify] at hrun ⊢
  obtain ⟨-, rfl⟩ := Prod.mk.inj hrun
  rw [hsame]
  exact ⟨rfl, { hb with draws := hdraws }⟩

namespace Upgrades

variable {act : Build α} {f : α → Build β}

/-- Both branches are upgraded. -/
theorem ite {c : Prop} [Decidable c] {act' : Build α} (h : Upgrades act) (h' : Upgrades act') :
    Upgrades (if c then act else act') :=
  fun b hb => .ite (h b hb) (h' b hb)

/-- What follows a check that may not be made. -/
theorem when {c : Prop} [Decidable c] {check : Build PUnit} {f : PUnit → Build β}
    (hcheck : Upgrades check) (hf : Upgrades (f ⟨⟩)) :
    Upgrades (if c then check >>= f else f ⟨⟩) :=
  .ite (.bind hcheck fun _ => hf) hf

end Upgrades

end Sequences

/-! ### Traces of WebGL -/

/-- An operation that only leaves a trace on WebGL. -/
def IsSilent (act : Build PUnit) : Prop := ∀ b : Builder, b.IsWebGL → UpgradesFrom b act (pure ⟨⟩)

/-- A remark leaves no trace. -/
theorem isSilent_remark (r : Remark) : IsSilent (remark r) := by
  intro b hb a b' hrun
  obtain ⟨-, rfl⟩ := Prod.mk.inj hrun
  exact ⟨rfl, { hb with }⟩

/-- An extension leaves no trace in the newer target. -/
theorem isSilent_enable (e : GlslExtension) : IsSilent (enable e) := by
  intro b hb a b' hrun
  cases hs : b.stage with
  | none =>
      rw [enable, modifyDecls, Builder.run_modifyStage_of_none hs] at hrun
      cases (Prod.mk.inj hrun).1
  | some s =>
      rw [enable, modifyDecls, Builder.run_modifyStage_of_some hs] at hrun
      obtain ⟨-, rfl⟩ := Prod.mk.inj hrun
      have hdraws := hb.draws
      rw [Builder.currentStage, hs] at hdraws
      split
      · exact ⟨by simp [Builder.upgrade, hs], { hb with draws := hdraws }⟩
      · refine ⟨?_, { hb with draws := hdraws }⟩
        simp [Builder.upgrade, OpenStage.upgrade, StageDecls.upgrade, hs]

/-- What follows something that only leaves a trace on WebGL. -/
theorem IsSilent.bind {act : Build PUnit} (h : IsSilent act) {f : PUnit → Build β}
    (hf : Upgrades (f ⟨⟩)) {b : Builder} (hb : b.IsWebGL) :
    UpgradesFrom b (act >>= f) (f ⟨⟩) := by
  have hbind : UpgradesFrom b (act >>= f) (pure ⟨⟩ >>= f) :=
    .bind (h b hb) fun _ b' _ hb' => hf b' hb'
  exact hbind

/-- What follows something that WebGL may do and WebGL2 does not. -/
theorem IsSilent.when {act : Build PUnit} (h : IsSilent act) {f : PUnit → Build β}
    (hf : Upgrades (f ⟨⟩)) {b : Builder} (hb : b.IsWebGL) {c c' : Prop} [Decidable c] [Decidable c']
    (hc' : ¬ c') :
    UpgradesFrom b (if c then act >>= f else f ⟨⟩) (if c' then act >>= f else f ⟨⟩) := by
  rw [if_neg hc']
  split
  · exact h.bind hf hb
  · exact hf b hb

end Build

end WebShader
