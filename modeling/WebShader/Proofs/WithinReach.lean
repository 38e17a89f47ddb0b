import WebShader.Proofs.TypedOperations

/-!
# What authors can reach

A constant whose name is taken leaves a variable behind, with an expression that names it, of which
nobody has been given a handle. Operations only build on the handles that they are given, on those
that the builder keeps and on what they record themselves, so that what has been left behind stays
out of reach.
-/

namespace WebShader

/-! ## Reaches -/

/-- What the author of a stage can reach: the variables of the stage begin at a place among those of
the program, and its constants and the expressions within reach are told. -/
structure Reach where
  start : Nat
  constants : List VarId
  exprs : NodeId → Prop

/-- A handle is within reach. -/
def Reach.Has (r : Reach) (e : Expr) : Prop := r.exprs e.node

/-- Both of two handles are within reach. -/
theorem Reach.has_pair {r : Reach} {e e' : Expr} (he : r.Has e) (he' : r.Has e') :
    ∀ m ∈ [e.node, e'.node], r.exprs m :=
  List.forall_mem_cons.mpr ⟨he, List.forall_mem_singleton.mpr he'⟩

/-- A builder keeps to a reach: all that has been built on is within reach, as are the handles it
keeps and all that is still to be recorded, and the variables of the stage that are named within
reach are no constants but those that have been declared. -/
structure Builder.KeepsTo (r : Reach) (b : Builder) : Prop where
  operands : ∀ n node, b.node? n = some node → ∀ m ∈ node.kind.operands, r.exprs m
  handles : ∀ e ∈ b.handles, r.Has e
  recent : ∀ n : NodeId, b.nodes.size ≤ n.index → r.exprs n
  named : ∀ n v d, r.exprs n → b.varOf? n = some v → b.var? v = some d → r.start ≤ v.index →
    d.role = .constant → v ∈ r.constants
  constants : ∀ s, b.stage = some s → s.decls.constants = r.constants

/-- A builder with the expressions and variables of another, which gives out no other handle and
whose stage has declared the same constants. -/
structure Builder.Conserves (b b' : Builder) : Prop where
  nodes : b'.nodes = b.nodes
  vars : b'.vars = b.vars
  handles : ∀ e ∈ b'.handles, e ∈ b.handles
  constants : ∀ s', b'.stage = some s' →
    ∃ s, b.stage = some s ∧ s'.decls.constants = s.decls.constants

/-- One more name in the innermost scope gives out one more handle. -/
theorem OpenStage.mem_handles_of_symbol {s : OpenStage} {f : Frame} {rest : List Frame}
    (hframes : s.frames = f :: rest) {name : String} {e e' : Expr}
    (he : e' ∈ handles { s with frames := { f with symbols := (name, e) :: f.symbols } :: rest }) :
    e' ∈ s.handles ∨ e' = e := by
  rcases mem_handles_iff.mp he with ⟨g, hg, x, hx, rfl⟩ | hrest
  · rcases List.mem_cons.mp hg with rfl | hg
    · rcases List.mem_cons.mp hx with rfl | hx
      · exact Or.inr rfl
      · exact Or.inl (mem_handles_iff.mpr (Or.inl ⟨f, hframes ▸ List.mem_cons_self, x, hx, rfl⟩))
    · exact Or.inl (mem_handles_iff.mpr
        (Or.inl ⟨g, hframes ▸ List.mem_cons_of_mem _ hg, x, hx, rfl⟩))
  · exact Or.inl (mem_handles_iff.mpr (Or.inr hrest))

namespace Builder

variable {b b' : Builder} {r : Reach} {s s' : OpenStage}

instance : IsPreorder Builder Conserves where
  refl _ := ⟨rfl, rfl, fun _ he => he, fun s hs => ⟨s, hs, rfl⟩⟩
  trans _ _ _ h h' := by
    refine ⟨h'.nodes.trans h.nodes, h'.vars.trans h.vars,
      fun e he => h.handles e (h'.handles e he), fun s'' hs'' => ?_⟩
    obtain ⟨s', hs', hsame'⟩ := h'.constants s'' hs''
    obtain ⟨s, hs, hsame⟩ := h.constants s' hs'
    exact ⟨s, hs, hsame'.trans hsame⟩

/-! ### Changes -/

/-- Handles that are within reach may be given out. -/
theorem KeepsTo.of_eq (h : b.KeepsTo r) (hnodes : b'.nodes = b.nodes) (hvars : b'.vars = b.vars)
    (hhandles : ∀ e ∈ b'.handles, e ∈ b.handles ∨ r.Has e)
    (hconstants : ∀ s', b'.stage = some s' →
      ∃ s, b.stage = some s ∧ s'.decls.constants = s.decls.constants) : b'.KeepsTo r where
  operands n node hn := by
    rw [node?, hnodes] at hn
    exact h.operands n node hn
  handles e he := (hhandles e he).elim (h.handles e) id
  recent n hn := h.recent n (hnodes ▸ hn)
  named n v d hn hv hd := by
    rw [varOf?, node?, hnodes] at hv
    rw [var?, hvars] at hd
    exact h.named n v d hn hv hd
  constants s' hs' := by
    obtain ⟨s, hs, hsame⟩ := hconstants s' hs'
    exact hsame.trans (h.constants s hs)

/-- What is conserved keeps to its reach. -/
theorem KeepsTo.conserves (h : b.KeepsTo r) (hb : b.Conserves b') : b'.KeepsTo r :=
  h.of_eq hb.nodes hb.vars (fun e he => Or.inl (hb.handles e he)) hb.constants

/-- The stage may give out other handles, if they are within reach. -/
theorem KeepsTo.withStage (h : b.KeepsTo r) (hs : b.stage = some s)
    (hhandles : ∀ e ∈ s'.handles, e ∈ s.handles ∨ r.Has e)
    (hconstants : s'.decls.constants = s.decls.constants) :
    KeepsTo r { b with stage := some s' } := by
  refine h.of_eq rfl rfl (fun e he => ?_) fun s'' hs'' => ⟨s, hs, ?_⟩
  · rcases mem_handles_iff.mp he with haccess | ⟨s'', hs'', he⟩
    · exact Or.inl (mem_handles_iff.mpr (Or.inl haccess))
    · obtain rfl := Option.some.inj hs''
      exact (hhandles e he).imp_left fun he => mem_handles_iff.mpr (Or.inr ⟨s, hs, he⟩)
  · rw [← Option.some.inj hs'']
    exact hconstants

/-- The expression that is recorded comes last. -/
theorem node?_pushNode_cases {node : Node} {n : NodeId} {found : Node}
    (h : node? { b with nodes := b.nodes.push node } n = some found) :
    b.node? n = some found ∨ n = ⟨b.nodes.size⟩ ∧ found = node := by
  rw [node?, Array.getElem?_push] at h
  split at h
  · rename_i heq
    exact Or.inr ⟨by rcases n with ⟨i⟩; exact congrArg NodeId.mk heq, (Option.some.inj h).symm⟩
  · exact Or.inl h

/-- An expression that stands for a variable. -/
theorem varOf?_eq_some_iff {n : NodeId} {v : VarId} :
    b.varOf? n = some v ↔ ∃ t, b.node? n = some ⟨t, .var v⟩ := by
  unfold varOf?
  constructor
  · intro h
    split at h
    · rename_i t w hn
      obtain rfl := Option.some.inj h
      exact ⟨t, hn⟩
    · cases h
  · rintro ⟨t, hn⟩
    rw [hn]

/-- An expression made of what is within reach may be recorded, unless it names a variable. -/
theorem KeepsTo.pushNode (h : b.KeepsTo r) {node : Node} (hkind : ∀ v, node.kind ≠ .var v)
    (hoperands : ∀ m ∈ node.kind.operands, r.exprs m) :
    KeepsTo r { b with nodes := b.nodes.push node } where
  operands n found hn := by
    rcases node?_pushNode_cases hn with hn | ⟨-, rfl⟩
    · exact h.operands n found hn
    · exact hoperands
  handles := h.handles
  recent n hn := by
    rw [Array.size_push] at hn
    exact h.recent n (by omega)
  named n v d hn hv := by
    obtain ⟨t, hv⟩ := varOf?_eq_some_iff.mp hv
    rcases node?_pushNode_cases hv with hv | ⟨-, hnode⟩
    · exact h.named n v d hn (varOf?_eq_some_iff.mpr ⟨t, hv⟩)
    · exact absurd (congrArg Node.kind hnode).symm (hkind v)
  constants := h.constants

/-- A variable that is no constant may be recorded with its expression. -/
theorem KeepsTo.withVar (h : b.KeepsTo r) {d : Variable} (hrole : d.role ≠ .constant) :
    (b.withVar d).KeepsTo r where
  operands n found hn := by
    rcases node?_pushNode_cases (b := { b with vars := b.vars.push d }) hn with hn | ⟨-, rfl⟩
    · exact h.operands n found hn
    · simp [NodeKind.operands]
  handles := h.handles
  recent n hn := by
    rw [Builder.withVar, Array.size_push] at hn
    exact h.recent n (by omega)
  named n v found hn hv hfound := by
    rw [Builder.withVar, var?, Array.getElem?_push] at hfound
    split at hfound
    · obtain rfl := Option.some.inj hfound
      exact fun _ hconstant => absurd hconstant hrole
    · rename_i hne
      obtain ⟨t, hv⟩ := varOf?_eq_some_iff.mp hv
      rcases node?_pushNode_cases (b := { b with vars := b.vars.push d }) hv with hv | ⟨-, hnode⟩
      · exact h.named n v found hn (varOf?_eq_some_iff.mpr ⟨t, hv⟩) hfound
      · rw [NodeKind.var.inj (congrArg Node.kind hnode)] at hne
        exact absurd rfl hne
  constants := h.constants

end Builder

/-! ## Operations that build on nothing -/

namespace Build

variable {α β : Type}

/-- An operation that only conserves what the builder has recorded, given out and declared as
constants. -/
abbrev Conserves (act : Build α) : Prop := Follows Builder.Conserves act

/-- What only reads conserves everything. -/
@[grind ←]
theorem Reads.conserves {act : Build α} (h : Reads act) : Conserves act := by
  intro b
  rw [← h b]
  exact refl_of Builder.Conserves b

section Conserved

@[grind ←]
theorem conserves_intern (act : Interning α) : Conserves (intern act) := by
  intro b
  rw [Builder.run_intern]
  exact ⟨rfl, rfl, fun _ he => he, fun s hs => ⟨s, hs, rfl⟩⟩

@[grind ←]
theorem conserves_remark (x : Remark) : Conserves (remark x) :=
  fun _ => ⟨rfl, rfl, fun _ he => he, fun s hs => ⟨s, hs, rfl⟩⟩

@[grind ←]
theorem conserves_setLastError (report : Option String) : Conserves (setLastError report) :=
  fun _ => ⟨rfl, rfl, fun _ he => he, fun s hs => ⟨s, hs, rfl⟩⟩

@[grind ←]
theorem conserves_takeRemarks : Conserves Script.takeRemarks :=
  fun _ => ⟨rfl, rfl, fun _ he => he, fun s hs => ⟨s, hs, rfl⟩⟩

/-- A rearrangement that declares no constant. -/
theorem Rearranges.conserves {act : Build α} (h : Rearranges act)
    (hconstants : ∀ (b : Builder) s', (b.run act).2.stage = some s' →
      ∃ s, b.stage = some s ∧ s'.decls.constants = s.decls.constants) : Conserves act :=
  fun b => ⟨(h b).nodes, (h b).vars, (h b).handles, hconstants b⟩

theorem conserves_modifyStage {g : OpenStage → OpenStage} (h : Rearranges (modifyStage g))
    (hconstants : ∀ s, (g s).decls.constants = s.decls.constants) : Conserves (modifyStage g) := by
  refine h.conserves fun b s' hs' => ?_
  cases hs : b.stage with
  | none =>
      rw [Builder.run_modifyStage_of_none hs] at hs'
      cases hs.symm.trans hs'
  | some s =>
      rw [Builder.run_modifyStage_of_some hs] at hs'
      obtain rfl := Option.some.inj hs'
      exact ⟨s, rfl, hconstants s⟩

/-- A change of the declarations that adds neither a built-in nor a constant. -/
theorem conserves_modifyDecls {g : StageDecls → StageDecls}
    (hbuiltins : ∀ d, (g d).builtins = d.builtins)
    (hconstants : ∀ d, (g d).constants = d.constants) : Conserves (modifyDecls g) :=
  conserves_modifyStage (rearranges_modifyDecls hbuiltins) fun s => hconstants s.decls

@[grind ←]
theorem conserves_enable (x : GlslExtension) : Conserves (enable x) :=
  conserves_modifyStage (rearranges_enable x) fun s => by dsimp only; split <;> rfl

@[grind ←]
theorem conserves_setResult (t : TypeId) : Conserves (setResult t) :=
  conserves_modifyStage (rearranges_setResult t) fun _ => rfl

@[grind ←]
theorem conserves_pushScope (kind : ScopeKind) : Conserves (pushScope kind) :=
  conserves_modifyStage (rearranges_pushScope kind) fun _ => rfl

theorem conserves_setMain (block : Block) :
    Conserves (modifyStage fun s => { s with main := some block }) :=
  conserves_modifyStage (rearranges_modifyStage fun _ _ he => he) fun _ => rfl

@[grind ←]
theorem conserves_addFunction (f : Function) : Conserves (addFunction f) := by
  have hadd : Conserves (modifyDecls fun d => { d with functions := d.functions ++ [f] }) :=
    conserves_modifyDecls (fun _ => rfl) fun _ => rfl
  unfold addFunction
  grind

/-- Other variables than constants may be added to the lists of the stage. -/
theorem conserves_declare (v : VarId) {list : DeclList} (hlist : list ≠ .constants) :
    Conserves (modifyDecls (·.declare v list)) := by
  cases list with
  | constants => exact absurd rfl hlist
  | inputs | outputs | resources => exact conserves_modifyDecls (fun _ => rfl) fun _ => rfl

@[grind ←]
theorem conserves_setWorkgroupSize (x y z : UInt32) : Conserves (setWorkgroupSize x y z) := by
  have hset : Conserves (modifyDecls fun d => { d with workgroupSize := (x, y, z) }) :=
    conserves_modifyDecls (fun _ => rfl) fun _ => rfl
  unfold setWorkgroupSize
  grind

/-! ### Scopes -/

/-- A rearrangement that at most changes the scopes at hand. -/
theorem Rearranges.conserves_of_withFrame {act : Build α} (h : Rearranges act)
    (hrun : ∀ b : Builder, (b.run act).2 = b ∨
      ∃ s f rest, b.stage = some s ∧ (b.run act).2 = b.withFrame s f rest) : Conserves act := by
  refine h.conserves fun b s' hs' => ?_
  rcases hrun b with hsame | ⟨s, f, rest, hs, hframes⟩
  · exact ⟨s', hsame ▸ hs', rfl⟩
  · rw [hframes] at hs'
    obtain rfl := Option.some.inj hs'
    exact ⟨s, hs, rfl⟩

@[grind ←]
theorem conserves_emit (st : Stmt NodeId) : Conserves (emit st) := by
  refine (rearranges_emit st).conserves_of_withFrame fun b => ?_
  rcases run_emit_cases b st with ⟨e, hrun⟩ | ⟨s, f, rest, hs, -, hrun⟩
  · exact Or.inl (congrArg Prod.snd hrun)
  · exact Or.inr ⟨s, _, rest, hs, congrArg Prod.snd hrun⟩

@[grind ←]
theorem conserves_popScope : Conserves popScope := by
  refine rearranges_popScope.conserves_of_withFrame fun b => ?_
  rcases Authoring.run_popScope_cases b with ⟨e, hrun, -⟩ | ⟨s, f, g, rest, hs, -, hrun⟩
  · exact Or.inl (congrArg Prod.snd hrun)
  · exact Or.inr ⟨s, g, rest, hs, congrArg Prod.snd hrun⟩

@[grind ←]
theorem conserves_extendLast (failure : InternalFault) (f : Stmt NodeId → Option (Stmt NodeId)) :
    Conserves (extendLast failure f) := by
  refine (rearranges_extendLast failure f).conserves_of_withFrame fun b => ?_
  unfold extendLast
  rw [Builder.run_bind]
  rcases run_frame_cases b with ⟨e, hrun⟩ | ⟨s, f', rest, hs, hframes, hrun⟩
  · rw [hrun]
    exact Or.inl rfl
  · rw [hrun]
    dsimp only
    split
    · rw [run_setFrame_of_cons hs hframes]
      exact Or.inr ⟨s, _, rest, hs, rfl⟩
    · exact Or.inl rfl

/-! ### Sequences -/

@[grind ←]
theorem conserves_type (shape : TypeShape) : Conserves (type shape) := by
  unfold type
  grind

@[grind ←]
theorem conserves_binaryType (op : BinaryOp) (lhs rhs : Expr) :
    Conserves (binaryType op lhs rhs) := by
  unfold binaryType
  grind

@[grind ←]
theorem conserves_elements (t : TypeId) : Conserves (elements t) := by
  refine .bind .get fun b => ?_
  dsimp only
  split
  all_goals grind

@[grind ←]
theorem conserves_interfaceType (what name : String) (shape : TypeShape) :
    Conserves (interfaceType what name shape) := by
  unfold interfaceType
  grind

@[grind ←]
theorem conserves_checkColor (name : String) (p : PrimitiveType) (location : Nat) :
    Conserves (checkColor name p location) := by
  unfold checkColor
  grind

@[grind ←]
theorem conserves_paramTypes (name : String) (params : List (String × TypeShape)) :
    Conserves (paramTypes name params) := by
  induction params with
  | nil => exact .pure _
  | cons p params ih =>
      unfold paramTypes
      grind

@[grind ←]
theorem conserves_resultType (name : String) (scope : Frame) :
    Conserves (resultType name scope) := by
  unfold resultType
  grind

@[grind ←]
theorem conserves_textureSignature (f : Intrinsic) (name : String) (t : TextureType) (arity : Nat) :
    Conserves (textureSignature f name t arity) := by
  unfold textureSignature fetchSignature
  grind

@[grind ←]
theorem conserves_checkDerivative (f : Intrinsic) : Conserves (checkDerivative f) := by
  unfold checkDerivative
  grind

@[grind ←]
theorem conserves_returnVoid : Conserves returnVoid := by
  unfold returnVoid
  grind

@[grind ←]
theorem conserves_breakLoop : Conserves breakLoop := by
  unfold breakLoop
  grind

@[grind ←]
theorem conserves_continueLoop : Conserves continueLoop := by
  unfold continueLoop
  grind

@[grind ←]
theorem conserves_discard : Conserves discard := by
  unfold discard
  grind

end Conserved

/-! ## Operations within reach -/

/-- From a builder that keeps to a reach, an operation leaves one that does, failed or not, and what
it gives is as told. -/
def KeepsTo (act : Build α) (r : Reach) (post : α → Prop) : Prop :=
  ∀ b : Builder, b.KeepsTo r → (b.run act).2.KeepsTo r ∧ ∀ a, (b.run act).1 = .ok a → post a

variable {r : Reach}

namespace KeepsTo

variable {act : Build α} {post : α → Prop} {f : α → Build β} {last : β → Prop}

/-- What a run gives may be weakened. -/
theorem mono {post' : α → Prop} (h : act.KeepsTo r post) (himp : ∀ a, post a → post' a) :
    act.KeepsTo r post' :=
  fun b hb => ⟨(h b hb).1, fun a ha => himp a ((h b hb).2 a ha)⟩

/-- Nothing is recorded. -/
protected theorem pure {a : α} (h : post a) : (pure a : Build α).KeepsTo r post :=
  fun _ hb => ⟨hb, fun _ ha => Except.ok.inj ha ▸ h⟩

/-- An error records nothing. -/
theorem throw (e : ShaderError) : (throw e : Build α).KeepsTo r post :=
  fun _ hb => ⟨hb, fun _ ha => by cases ha⟩

/-- One after the other. -/
theorem bind (h : act.KeepsTo r post) (hf : ∀ a, post a → (f a).KeepsTo r last) :
    (act >>= f).KeepsTo r last := by
  intro b hb
  obtain ⟨hb', hpost⟩ := h b hb
  rw [Builder.run_bind]
  rcases hrun : b.run act with ⟨e | a, b'⟩
  · rw [hrun] at hb'
    exact ⟨hb', fun _ ha => by cases ha⟩
  · rw [hrun] at hb' hpost
    exact hf a (hpost a rfl) b' hb'

/-- What handles a failure runs from the builder that the failure leaves. -/
theorem tryCatch {handler : ShaderError → Build α} (h : act.KeepsTo r post)
    (hhandler : ∀ e, (handler e).KeepsTo r post) : (tryCatch act handler).KeepsTo r post := by
  intro b hb
  obtain ⟨hb', hpost⟩ := h b hb
  rw [Builder.run_tryCatch]
  rcases hrun : b.run act with ⟨e | a, b'⟩
  · rw [hrun] at hb'
    exact hhandler e b' hb'
  · rw [hrun] at hb' hpost
    exact ⟨hb', hpost⟩

/-- What follows a look at the builder. -/
theorem get_bind {f : Builder → Build β} (h : ∀ b : Builder, b.KeepsTo r → (f b).KeepsTo r last) :
    (get >>= f).KeepsTo r last := fun b hb => h b hb b hb

/-- What follows a look at the stage. -/
theorem stage_bind {f : OpenStage → Build β}
    (h : ∀ (b : Builder) s, b.KeepsTo r → b.stage = some s → (f s).KeepsTo r last) :
    (stage >>= f).KeepsTo r last := by
  intro b hb
  rw [Builder.run_bind]
  cases hs : b.stage with
  | none =>
      rw [Builder.run_stage_of_none hs]
      exact ⟨hb, fun _ ha => by cases ha⟩
  | some s =>
      rw [Builder.run_stage_of_some hs]
      exact h b s hb hs b hb

/-- What conserves everything keeps to any reach. -/
theorem conserves (h : Conserves act) : act.KeepsTo r fun _ => True :=
  fun b hb => ⟨hb.conserves (h b), fun _ _ => trivial⟩

/-- What follows an operation that builds on nothing. -/
theorem conserves_bind (h : Conserves act) (hf : ∀ a, (f a).KeepsTo r last) :
    (act >>= f).KeepsTo r last := (conserves h).bind fun a _ => hf a

/-- Both branches keep to the reach. -/
theorem ite {c : Prop} [Decidable c] {other : Build α} (h : act.KeepsTo r post)
    (h' : other.KeepsTo r post) : (if c then act else other).KeepsTo r post := by
  split
  · exact h
  · exact h'

/-- What follows a check that may not be made. -/
theorem when {c : Prop} [Decidable c] {check : Build PUnit} {f : PUnit → Build β}
    (hcheck : Conserves check) (hf : (f ⟨⟩).KeepsTo r last) :
    (if c then check >>= f else f ⟨⟩).KeepsTo r last :=
  .ite (.conserves_bind hcheck fun _ => hf) hf

/-- What follows a failure is not run. -/
theorem throw_bind (e : ShaderError) {f : PUnit → Build β} :
    (MonadExcept.throw e >>= f).KeepsTo r last := fun _ hb => ⟨hb, fun _ ha => by cases ha⟩

/-- What follows a refusal is only run if nothing is refused. -/
theorem refuse {c : Prop} [Decidable c] {e : ShaderError} {f : PUnit → Build β}
    (hf : (f ⟨⟩).KeepsTo r last) :
    (if c then MonadExcept.throw e >>= f else f ⟨⟩).KeepsTo r last := .when (.throw e) hf

end KeepsTo

/-! ### Expressions -/

/-- An expression that names no variable may be made of what is within reach. -/
theorem keepsTo_pushNode (t : TypeId) {kind : NodeKind} (hkind : ∀ v, kind ≠ .var v)
    (hoperands : ∀ m ∈ kind.operands, r.exprs m) : (pushNode t kind).KeepsTo r r.Has := by
  refine fun b hb => ⟨hb.pushNode hkind hoperands, fun e he => ?_⟩
  rw [← Except.ok.inj he]
  exact hb.recent _ le_rfl

/-- An access gives the handle given before, or a new one. -/
theorem keepsTo_access (base : Expr) (part : Access) (t : TypeId) {kind : NodeKind}
    (hkind : ∀ v, kind ≠ .var v) (hoperands : ∀ m ∈ kind.operands, r.exprs m) :
    (access base part t kind).KeepsTo r r.Has := by
  refine .get_bind fun b hb => ?_
  split
  · rename_i e he
    obtain ⟨x, hx, rfl⟩ := Option.map_eq_some_iff.mp he
    refine .pure (hb.handles _ (Builder.mem_handles_iff.mpr (Or.inl ⟨x, ?_, rfl⟩)))
    exact List.mem_of_find?_eq_some hx
  · refine (keepsTo_pushNode t hkind hoperands).bind fun e he b₁ hb₁ => ⟨?_, ?_⟩
    · show { b₁ with accesses := ((base.node, part), e) :: b₁.accesses }.KeepsTo r
      refine hb₁.of_eq rfl rfl (fun e' he' => ?_) fun s hs => ⟨s, hs, rfl⟩
      rcases Builder.mem_handles_iff.mp he' with ⟨x, hx, rfl⟩ | hstage
      · rcases List.mem_cons.mp hx with rfl | hx
        · exact Or.inr he
        · exact Or.inl (Builder.mem_handles_iff.mpr (Or.inl ⟨x, hx, rfl⟩))
      · exact Or.inl (Builder.mem_handles_iff.mpr (Or.inr hstage))
    · exact fun _ ha => Except.ok.inj ha ▸ he

theorem keepsTo_literal (l : Literal) : (literal l).KeepsTo r r.Has := by
  have hpush : KeepsTo (do pushNode (← intern (Interning.scalar l.scalar)) (.literal l)) r r.Has :=
    .conserves_bind (conserves_intern _) fun t =>
      keepsTo_pushNode t nofun (by simp [NodeKind.operands])
  unfold literal
  split
  · exact .conserves_bind (reads_require _).conserves fun _ => hpush
  · exact .conserves_bind (reads_require _).conserves fun _ => hpush
  · exact hpush

theorem keepsTo_lower {v : Value} (hv : v.Holds r.Has) (hint : Option ScalarKind) :
    (lower v hint).KeepsTo r r.Has := by
  unfold lower
  cases v with
  | expr e => exact .pure hv
  | host v =>
      dsimp only
      split
      · exact keepsTo_literal _
      · exact .throw _

theorem keepsTo_lowerNear {v : Value} (hv : v.Holds r.Has) (hint : Option ScalarKind) :
    (lowerNear v hint).KeepsTo r r.Has := by
  unfold lowerNear
  repeat' split
  all_goals exact keepsTo_lower hv _

theorem keepsTo_coerce {v : Value} (hv : v.Holds r.Has) (t : TypeId) (what : String) :
    (coerce v t what).KeepsTo r r.Has := by
  refine .get_bind fun _ _ => (keepsTo_lowerNear hv _).bind fun e he => ?_
  exact .get_bind fun _ _ => .refuse (.pure he)

theorem keepsTo_lowerPair {lhs rhs : Value} (hl : lhs.Holds r.Has) (hr : rhs.Holds r.Has) :
    (lowerPair lhs rhs).KeepsTo r fun x => r.Has x.1 ∧ r.Has x.2 := by
  unfold lowerPair
  split
  · exact .get_bind fun _ _ => (keepsTo_lowerNear hr _).bind fun e he => .pure ⟨hl, he⟩
  · exact .get_bind fun _ _ => (keepsTo_lowerNear hl _).bind fun e he => .pure ⟨he, hr⟩
  · refine (keepsTo_lowerNear hl _).bind fun e he => .get_bind fun _ _ => ?_
    exact (keepsTo_lowerNear hr _).bind fun e' he' => .pure ⟨he, he'⟩

theorem keepsTo_binary (op : BinaryOp) {lhs rhs : Value} (hl : lhs.Holds r.Has)
    (hr : rhs.Holds r.Has) : (binary op lhs rhs).KeepsTo r r.Has := by
  refine .when (reads_require _).conserves ((keepsTo_lowerPair hl hr).bind fun x hx => ?_)
  refine .conserves_bind (conserves_binaryType _ _ _) fun t => keepsTo_pushNode t nofun ?_
  exact Reach.has_pair hx.1 hx.2

theorem keepsTo_unary (op : UnaryOp) {v : Value} (hv : v.Holds r.Has) :
    (unary op v).KeepsTo r r.Has := by
  refine .when (reads_require _).conserves ((keepsTo_lower hv _).bind fun e he => ?_)
  refine .conserves_bind (reads_operandType _ _).conserves fun p => .refuse ?_
  exact keepsTo_pushNode _ nofun (List.forall_mem_singleton.mpr he)

theorem keepsTo_cast {v : Value} (hv : v.Holds r.Has) (k : ScalarKind) :
    (cast v k).KeepsTo r r.Has := by
  refine (keepsTo_lower hv none).bind fun e he => ?_
  refine .conserves_bind (reads_operandType _ _).conserves fun p => .refuse ?_
  refine .conserves_bind (conserves_type _) fun t => keepsTo_pushNode t nofun ?_
  exact List.forall_mem_singleton.mpr he

/-! ### Accesses and pointers -/

theorem keepsTo_member {base : Expr} (hbase : r.Has base) (name : String) :
    (member base name).KeepsTo r r.Has := by
  refine .get_bind fun b _ => ?_
  dsimp only
  split
  · exact .throw _
  · split
    · exact .throw _
    · exact keepsTo_access base _ _ nofun (List.forall_mem_singleton.mpr hbase)

theorem keepsTo_swizzle {base : Expr} (hbase : r.Has base) (mask : String) :
    (swizzle base mask).KeepsTo r r.Has := by
  refine .get_bind fun b _ => ?_
  dsimp only
  split
  · exact .throw _
  · refine .refuse (.conserves_bind (.liftM _) fun s => ?_)
    refine .conserves_bind (conserves_intern _) fun t => ?_
    exact keepsTo_access base _ t nofun (List.forall_mem_singleton.mpr hbase)

theorem keepsTo_element {base : Expr} (hbase : r.Has base) (t : TypeId) (bound : Option Nat)
    (i : Int) : (element base t bound i).KeepsTo r r.Has := by
  unfold element
  dsimp only
  split
  · exact .get_bind fun _ _ => .throw_bind _
  · refine .get_bind fun b hb => ?_
    split
    · rename_i e he
      obtain ⟨x, hx, rfl⟩ := Option.map_eq_some_iff.mp he
      refine .pure (hb.handles _ (Builder.mem_handles_iff.mpr (Or.inl ⟨x, ?_, rfl⟩)))
      exact List.mem_of_find?_eq_some hx
    · refine (keepsTo_literal _).bind fun index hindex => keepsTo_access base _ t nofun ?_
      exact Reach.has_pair hbase hindex

theorem keepsTo_at {base : Expr} (hbase : r.Has base) {index : Value} (hindex : index.Holds r.Has) :
    («at» base index).KeepsTo r r.Has := by
  refine .conserves_bind (conserves_elements _) fun (t, bound) => ?_
  dsimp only
  split
  · exact keepsTo_element hbase t bound _
  · refine .get_bind fun b _ => ?_
    split
    · exact .refuse (keepsTo_pushNode t (by simp) (Reach.has_pair hbase hindex))
    · exact .throw _
  · exact .throw _

theorem keepsTo_addressOf {place : Expr} (hplace : r.Has place) :
    (addressOf place).KeepsTo r r.Has := by
  refine .conserves_bind (reads_require _).conserves fun _ => .get_bind fun b _ => ?_
  split
  · exact .throw _
  · split
    · exact .throw _
    · refine .conserves_bind (conserves_intern _) fun t => keepsTo_pushNode t nofun ?_
      exact List.forall_mem_singleton.mpr hplace

theorem keepsTo_deref {pointer : Expr} (hpointer : r.Has pointer) :
    (deref pointer).KeepsTo r r.Has := by
  refine .get_bind fun b _ => ?_
  dsimp only
  split
  · exact keepsTo_pushNode _ nofun (List.forall_mem_singleton.mpr hpointer)
  · exact .throw _

end Build

end WebShader
