import WebShader.Proofs.BindingPartition
import WebShader.Proofs.Scripts
import WebShader.Proofs.TypingRules

/-!
# Rearrangements

What operations do besides recording expressions and variables: they register types, open and leave
scopes, append statements, declare functions and make remarks. All of this leaves the expressions
and the variables of a builder as they are, and gives out no new handle.
-/

namespace WebShader

/-! ## Shared records -/

/-- A builder with the options, expressions and variables of another, and at least its types. -/
structure Builder.Shares (b b' : Builder) : Prop where
  config : b'.config = b.config
  nodes : b'.nodes = b.nodes
  vars : b'.vars = b.vars
  types : b.types ≤ b'.types
  sound : b.HasSoundTypes → b'.types.Sound

namespace Builder

variable {b b' b'' : Builder} {e : Expr}

/-- Shared records are extended. -/
theorem Shares.extends (h : b.Shares b') : b.Extends b' :=
  ⟨h.config, h.types, h.nodes ▸ List.prefix_refl _, h.vars ▸ List.prefix_refl _⟩

/-- The registered types stay sound. -/
theorem Shares.hasSoundTypes (h : b.Shares b') (hb : b.HasSoundTypes) : b'.HasSoundTypes where
  sound := h.sound hb
  vars v d hv := by
    rw [Builder.var?, h.vars] at hv
    exact Nat.lt_of_lt_of_le (hb.vars v d hv) h.extends.types_size_le

/-- A builder with the same records shares them. -/
theorem Shares.of_eq (hconfig : b'.config = b.config) (hnodes : b'.nodes = b.nodes)
    (hvars : b'.vars = b.vars) (htypes : b'.types = b.types) : b.Shares b' :=
  ⟨hconfig, hnodes, hvars, le_of_eq htypes.symm, fun hb => htypes ▸ hb.sound⟩

/-- Records are shared in steps. -/
theorem Shares.trans (h : b.Shares b') (h' : b'.Shares b'') : b.Shares b'' :=
  ⟨h'.config.trans h.config, h'.nodes.trans h.nodes, h'.vars.trans h.vars,
    le_trans h.types h'.types, fun hb => h'.sound (h.hasSoundTypes hb)⟩

/-- The handles of a builder. -/
theorem mem_handles_iff : e ∈ b.handles ↔
    (∃ x ∈ b.accesses, x.2 = e) ∨ ∃ s, b.stage = some s ∧ e ∈ s.handles := by
  simp [handles]

/-- A builder that shares what another records, gives out no other handle and opens no stage. -/
structure Rearranges (b b' : Builder) : Prop extends b.Shares b' where
  handles : ∀ e ∈ b'.handles, e ∈ b.handles
  stage : b.stage = none → b'.stage = none

instance : IsPreorder Builder Rearranges where
  refl _ := ⟨.of_eq rfl rfl rfl rfl, fun _ he => he, id⟩
  trans _ _ _ h h' := ⟨h.toShares.trans h'.toShares, fun e he => h.handles e (h'.handles e he),
    fun hs => h'.stage (h.stage hs)⟩

end Builder

/-! ## Changes of the stage -/

namespace OpenStage

variable {s : OpenStage} {e : Expr}

/-- The handles of a stage. -/
theorem mem_handles_iff : e ∈ s.handles ↔ (∃ f ∈ s.frames, ∃ x ∈ f.symbols, x.2 = e) ∨
    (∃ x ∈ s.decls.builtins, x.2 = e) ∨ ∃ x ∈ s.tags, x.2 = e := by
  simp [handles]

/-- Scopes that declare no other names give out no other handle. -/
theorem mem_handles_of_frames {frames : List Frame}
    (hframes : ∀ f ∈ frames, ∀ x ∈ f.symbols, ∃ g ∈ s.frames, x ∈ g.symbols)
    (he : e ∈ handles { s with frames }) : e ∈ s.handles := by
  rw [mem_handles_iff] at he ⊢
  rcases he with ⟨f, hf, x, hx, rfl⟩ | hrest
  · obtain ⟨g, hg, hxg⟩ := hframes f hf x hx
    exact Or.inl ⟨g, hg, x, hxg, rfl⟩
  · exact Or.inr hrest

end OpenStage

namespace Builder

variable {b : Builder} {s s' : OpenStage} {f : Frame} {rest : List Frame}

theorem rearranges_withStage (hs : b.stage = some s) (h : ∀ e ∈ s'.handles, e ∈ s.handles) :
    b.Rearranges { b with stage := some s' } := by
  refine ⟨.of_eq rfl rfl rfl rfl, fun e he => ?_, fun hnone => by simp [hs] at hnone⟩
  rcases mem_handles_iff.mp he with haccess | ⟨s'', hs'', he⟩
  · exact mem_handles_iff.mpr (Or.inl haccess)
  · obtain rfl := Option.some.inj hs''
    exact mem_handles_iff.mpr (Or.inr ⟨s, hs, h e he⟩)

theorem rearranges_withFrame (hs : b.stage = some s)
    (h : ∀ g ∈ f :: rest, ∀ x ∈ g.symbols, ∃ g' ∈ s.frames, x ∈ g'.symbols) :
    b.Rearranges (b.withFrame s f rest) :=
  rearranges_withStage hs fun _ he => OpenStage.mem_handles_of_frames h he

/-- The innermost scope with other statements. -/
theorem rearranges_withBody (hs : b.stage = some s) (hframes : s.frames = f :: rest)
    (body : Block) : b.Rearranges (b.withFrame s { f with body } rest) := by
  refine rearranges_withFrame hs fun g hg x hx => ?_
  rw [hframes]
  rcases List.mem_cons.mp hg with rfl | hg
  · exact ⟨f, List.mem_cons_self, hx⟩
  · exact ⟨g, List.mem_cons_of_mem _ hg, hx⟩

/-- The stage may be lost. -/
theorem rearranges_withoutStage (b : Builder) (phase : Phase) :
    b.Rearranges { b with stage := none, phase } := by
  refine ⟨.of_eq rfl rfl rfl rfl, fun e he => ?_, fun _ => rfl⟩
  rcases mem_handles_iff.mp he with haccess | ⟨s, hs, -⟩
  · exact mem_handles_iff.mpr (Or.inl haccess)
  · cases hs

end Builder

/-! ## Operations that rearrange -/

namespace Build

open Follows

variable {α : Type}

/-- An operation that only looks at the builder. -/
abbrev Reads (act : Build α) : Prop := Follows Eq act

/-- An operation that only rearranges the builder. -/
abbrev Rearranges (act : Build α) : Prop := Follows Builder.Rearranges act

/-- What only reads rearranges nothing. -/
@[grind ←]
theorem Reads.rearranges {act : Build α} (h : Reads act) : Rearranges act := by
  intro b
  rw [← h b]
  exact refl_of Builder.Rearranges b

/-! ### Looks at the builder -/

section Looks

/-- The stage is only read. -/
@[grind ←]
theorem reads_stage : Reads stage := by
  unfold stage
  grind

/-- The features of the target are only read. -/
@[grind ←]
theorem reads_require (f : Feature) : Reads (require f) := by
  unfold require
  grind

/-- The depth of the scopes is only read. -/
@[grind ←]
theorem reads_inGlobalScope : Reads inGlobalScope := by
  unfold inGlobalScope
  grind

/-- The depth of the scopes is only read. -/
@[grind ←]
theorem reads_requireGlobal (what : String) : Reads (requireGlobal what) := by
  unfold requireGlobal
  grind

/-- The depth of the scopes is only read. -/
@[grind ←]
theorem reads_requireFunction (what : String) : Reads (requireFunction what) := by
  unfold requireFunction
  grind

/-- The type of an operand is only read. -/
@[grind ←]
theorem reads_operandType (e : Expr) (operation : String) : Reads (operandType e operation) := by
  unfold operandType
  grind

/-- The size of a type is only read. -/
@[grind ←]
theorem reads_requireSized (what name : String) (t : TypeId) :
    Reads (requireSized what name t) := by
  unfold requireSized
  grind

/-- The open loops are only read. -/
@[grind ←]
theorem reads_requireLoop (statement : String) : Reads (requireLoop statement) := by
  unfold requireLoop
  grind

/-- The types of the bounds are only read. -/
@[grind ←]
theorem reads_requireBounds (first last : Expr) : Reads (requireBounds first last) := by
  unfold requireBounds
  grind

/-- The scope of a function is only read. -/
@[grind ←]
theorem reads_checkFunctionName (name : String) : Reads (checkFunctionName name) := by
  unfold checkFunctionName
  grind

/-- The functions are only read. -/
@[grind ←]
theorem reads_function (f : FunctionId) : Reads (function f) := by
  unfold function
  grind

/-- The parameters of the overloads are only read. -/
theorem reads_requireNewParams (name : String) (types : List TypeId) (fs : List FunctionId) :
    Reads (requireNewParams name types fs) := by
  induction fs with
  | nil => exact .pure _
  | cons f fs ih =>
      unfold requireNewParams
      grind

/-- The parameters of the overloads are only read. -/
theorem reads_chooseOverload (args : List Value) (fs : List FunctionId) :
    Reads (chooseOverload args fs) := by
  induction fs with
  | nil => exact .pure none
  | cons f fs ih =>
      unfold chooseOverload
      grind

/-- The open scopes are only read. -/
@[grind ←]
theorem reads_enclosingFunction : Reads enclosingFunction := by
  unfold enclosingFunction
  grind

end Looks

/-! ### Types -/

section Types

/-- A registration that keeps registries sound. -/
theorem rearranges_intern {act : Interning α} (hgrows : act.Follows Registry.Grows)
    (hsound : ∀ r : Registry, r.Sound → (r.run act).2.Sound) : Rearranges (intern act) := by
  intro b
  rw [Builder.run_intern]
  exact ⟨⟨rfl, rfl, rfl, (hgrows b.types).le, fun hb => hsound _ hb.sound⟩, fun _ he => he, id⟩

@[grind ←]
theorem rearranges_void : Rearranges (intern Interning.void) :=
  rearranges_intern Interning.follows_void fun _ hr => (Interning.ensures_void hr).1

@[grind ←]
theorem rearranges_type (shape : TypeShape) : Rearranges (type shape) := by
  have hshape : Rearranges (intern (Interning.shape shape)) :=
    rearranges_intern (Interning.grows_shape shape) fun _ hr =>
      (Interning.ensures_shape hr shape).1
  unfold type
  grind

@[grind ←]
theorem rearranges_interfaceType (what name : String) (shape : TypeShape) :
    Rearranges (interfaceType what name shape) := by
  unfold interfaceType
  grind

@[grind ←]
theorem rearranges_paramTypes (name : String) (params : List (String × TypeShape)) :
    Rearranges (paramTypes name params) := by
  induction params with
  | nil => exact .pure _
  | cons p params ih =>
      unfold paramTypes
      grind

@[grind ←]
theorem rearranges_resultType (name : String) (scope : Frame) :
    Rearranges (resultType name scope) := by
  unfold resultType
  grind

/-- Binding the resources of a program keeps the registry sound, as the types of all variables are
registered. -/
theorem rearranges_bindStages (stages : List BuiltStage) : Rearranges (bindStages stages) := by
  refine fun b => ?_
  have hsound : b.HasSoundTypes →
      (b.types.run (Binding.plan b.target b.vars stages)).2.Sound := by
    intro hb
    have hplan : (Binding.plan b.target b.vars stages).Ensures b.types fun _ _ => True := by
      refine .get_bind (.liftM_bind hb.sound fun all hall => ?_)
      have hgathers := Binding.gathers_gatherAll hall
      refine (Binding.ensures_bindAll hb.sound ?_ (by simp) fun s hs => hs).mono
        fun _ _ _ _ _ => trivial
      intro s hs
      obtain ⟨⟨v, d⟩, hd, hname⟩ := hgathers.exists_declaration hs
      obtain ⟨found, stage, hfound, -, rfl⟩ := Binding.exists_var_of_mem_declarations hd
      rw [← (hgathers.agree s hs _ hd hname).1]
      exact hb.vars v found hfound
    exact hplan.1
  rw [bindStages, Builder.run_bind, Builder.run_get]
  dsimp only
  rw [Builder.run_intern]
  exact ⟨⟨rfl, rfl, rfl, (Binding.follows_plan (R := Registry.Grows) _ _ _ _).le, hsound⟩,
    fun _ he => he, id⟩

end Types

/-! ### Stages -/

section Stages

@[grind ←]
theorem rearranges_remark (r : Remark) : Rearranges (remark r) :=
  fun _ => ⟨.of_eq rfl rfl rfl rfl, fun _ he => he, id⟩

@[grind ←]
theorem rearranges_setLastError (report : Option String) : Rearranges (setLastError report) :=
  fun _ => ⟨.of_eq rfl rfl rfl rfl, fun _ he => he, id⟩

@[grind ←]
theorem rearranges_takeRemarks : Rearranges Script.takeRemarks :=
  fun _ => ⟨.of_eq rfl rfl rfl rfl, fun _ he => he, id⟩

theorem rearranges_modifyStage {g : OpenStage → OpenStage}
    (hg : ∀ s, ∀ e ∈ (g s).handles, e ∈ s.handles) : Rearranges (modifyStage g) := by
  intro b
  cases hs : b.stage with
  | none =>
      rw [Builder.run_modifyStage_of_none hs]
      exact refl_of Builder.Rearranges b
  | some s =>
      rw [Builder.run_modifyStage_of_some hs]
      exact Builder.rearranges_withStage hs (hg s)

/-- A change of the declarations that adds no built-in. -/
theorem rearranges_modifyDecls {g : StageDecls → StageDecls}
    (hg : ∀ d, (g d).builtins = d.builtins) : Rearranges (modifyDecls g) := by
  refine rearranges_modifyStage fun s e he => ?_
  rw [OpenStage.mem_handles_iff] at he ⊢
  simpa [hg] using he

@[grind ←]
theorem rearranges_enable (e : GlslExtension) : Rearranges (enable e) :=
  rearranges_modifyDecls fun d => by split <;> rfl

@[grind ←]
theorem rearranges_addFunction (f : Function) : Rearranges (addFunction f) :=
  .bind reads_stage.rearranges fun _ => .bind (rearranges_modifyDecls fun _ => rfl) fun _ => .pure _

@[grind ←]
theorem rearranges_setWorkgroupSize (x y z : UInt32) : Rearranges (setWorkgroupSize x y z) := by
  have hset : Rearranges (modifyDecls fun d => { d with workgroupSize := (x, y, z) }) :=
    rearranges_modifyDecls fun _ => rfl
  unfold setWorkgroupSize
  grind

@[grind ←]
theorem rearranges_checkColor (name : String) (p : PrimitiveType) (location : Nat) :
    Rearranges (checkColor name p location) := by
  unfold checkColor
  grind

@[grind ←]
theorem rearranges_setResult (t : TypeId) : Rearranges (setResult t) := by
  refine rearranges_modifyStage fun s e he => OpenStage.mem_handles_of_frames ?_ he
  intro f hf x hx
  have hmem : f.outline ∈ s.frames.map Frame.outline := by
    rw [← map_outline_fixResult t]
    exact List.mem_map_of_mem hf
  obtain ⟨g, hg, houtline⟩ := List.mem_map.mp hmem
  refine ⟨g, hg, ?_⟩
  show x ∈ g.outline.symbols
  rw [houtline]
  exact hx

@[grind ←]
theorem rearranges_emit (st : Stmt NodeId) : Rearranges (emit st) := by
  intro b
  rcases run_emit_cases b st with ⟨e, hrun⟩ | ⟨s, f, rest, hs, hframes, hrun⟩
  · rw [hrun]
    exact refl_of Builder.Rearranges b
  · rw [hrun]
    exact Builder.rearranges_withBody hs hframes _

@[grind ←]
theorem rearranges_extendLast (failure : InternalFault) (f : Stmt NodeId → Option (Stmt NodeId)) :
    Rearranges (extendLast failure f) := by
  intro b
  unfold extendLast
  rw [Builder.run_bind]
  rcases run_frame_cases b with ⟨e, hrun⟩ | ⟨s, f', rest, hs, hframes, hrun⟩
  · rw [hrun]
    exact refl_of Builder.Rearranges b
  · rw [hrun]
    dsimp only
    split
    · rw [run_setFrame_of_cons hs hframes]
      exact Builder.rearranges_withBody hs hframes _
    · exact refl_of Builder.Rearranges b

@[grind ←]
theorem rearranges_breakLoop : Rearranges breakLoop := by
  unfold breakLoop
  grind

@[grind ←]
theorem rearranges_continueLoop : Rearranges continueLoop := by
  unfold continueLoop
  grind

@[grind ←]
theorem rearranges_discard : Rearranges discard := by
  unfold discard
  grind

@[grind ←]
theorem rearranges_returnVoid : Rearranges returnVoid := by
  unfold returnVoid
  grind

end Stages

/-! ### Scopes -/

section Scopes

theorem rearranges_pushScope (kind : ScopeKind) : Rearranges (pushScope kind) := by
  refine rearranges_modifyStage fun s e he => OpenStage.mem_handles_of_frames ?_ he
  intro f hf x hx
  rcases List.mem_cons.mp hf with rfl | hf
  · cases hx
  · exact ⟨f, hf, hx⟩

theorem rearranges_popScope : Rearranges popScope := by
  intro b
  rcases Authoring.run_popScope_cases b with ⟨e, hrun, -⟩ | ⟨s, f, g, rest, hs, hframes, hrun⟩
  · rw [hrun]
    exact refl_of Builder.Rearranges b
  · rw [hrun]
    refine Builder.rearranges_withFrame hs fun f' hf' x hx => ⟨f', ?_, hx⟩
    rw [hframes]
    exact List.mem_cons_of_mem _ hf'

theorem rearranges_closeStage (which : Stage) : Rearranges (closeStage which) := by
  have hclosed : Rearranges (modify fun b => { b with stage := none }) :=
    fun b => b.rearranges_withoutStage b.phase
  unfold closeStage
  grind

end Scopes

end Build

end WebShader
