import Mathlib.Order.Defs.Unbundled
import WebShader.Constructor
import WebShader.Interface
import WebShader.Proofs.Arenas
import WebShader.Proofs.IntrinsicOverloads
import WebShader.Reflection
import WebShader.Resource
import WebShader.Script.Run

/-!
# Operations and what they change

A relation between the builder before and after each operation is carried along sequences of
operations, failed or not. Operations that only make expressions, register types or use features
leave the outline of the builder alone: its options, its variables, and the names, statements and
declarations of its stage.
-/

namespace WebShader

/-! ## Runs -/

namespace Builder

variable {α β : Type} (b : Builder)

/-- Nothing is done. -/
@[simp]
theorem run_pure (a : α) : b.run (pure a : Build α) = (.ok a, b) := rfl

/-- An error leaves the builder alone. -/
@[simp]
theorem run_throw (e : ShaderError) : b.run (throw e : Build α) = (.error e, b) := rfl

/-- The builder is looked at. -/
@[simp]
theorem run_get : b.run (get : Build Builder) = (.ok b, b) := rfl

/-- The builder is changed. -/
@[simp]
theorem run_modify (f : Builder → Builder) :
    b.run (modify f : Build PUnit) = (.ok ⟨⟩, f b) := rfl

/-- The builder is replaced. -/
@[simp]
theorem run_set (b' : Builder) : b.run (set b' : Build PUnit) = (.ok ⟨⟩, b') := rfl

/-- A check leaves the builder alone. -/
@[simp]
theorem run_liftM (x : Except ShaderError α) : b.run (liftM x : Build α) = (x, b) := by
  cases x <;> rfl

/-- A sequence goes on from the builder its first part leaves, unless that part fails. -/
theorem run_bind (act : Build α) (f : α → Build β) :
    b.run (act >>= f) = match b.run act with
      | (.ok a, b') => b'.run (f a)
      | (.error e, b') => (.error e, b') := by
  show StateT.run (ExceptT.run (ExceptT.bind act f)) b = _
  simp only [run, ExceptT.bind, ExceptT.run, ExceptT.mk, bind, StateT.bind, StateT.run]
  cases act b with
  | mk x b' => cases x <;> rfl

/-- What does nothing gives what it is given. -/
theorem run_pure_eq_ok_iff {a c : α} {b b' : Builder} :
    b.run (pure a : Build α) = (.ok c, b') ↔ a = c ∧ b = b' := by
  rw [run_pure, Prod.mk.injEq, Except.ok.injEq]

/-- What follows goes on from the builder at hand. -/
theorem run_get_bind (f : Builder → Build β) : b.run (get >>= f) = b.run (f b) := rfl

/-- A sequence succeeds exactly when its parts do. -/
theorem run_bind_eq_ok_iff {act : Build α} {f : α → Build β} {c : β} {b b'' : Builder} :
    b.run (act >>= f) = (.ok c, b'') ↔
      ∃ a b', b.run act = (.ok a, b') ∧ b'.run (f a) = (.ok c, b'') := by
  rw [run_bind]
  rcases b.run act with ⟨_ | a, b'⟩ <;> simp

/-- What follows a refusal succeeds only if nothing is refused. -/
theorem run_refuse_eq_ok_iff {c : Prop} [Decidable c] {e : ShaderError} {f : PUnit → Build α}
    {a : α} {b b' : Builder} :
    b.run (if c then MonadExcept.throw e >>= f else f ⟨⟩) = (.ok a, b') ↔
      ¬c ∧ b.run (f ⟨⟩) = (.ok a, b') := by
  by_cases hc : c
  · rw [if_pos hc, run_bind_eq_ok_iff]
    constructor
    · rintro ⟨_, _, hthrow, -⟩
      cases (Prod.mk.inj hthrow).1
    · exact fun h => absurd hc h.1
  · rw [if_neg hc]
    exact (and_iff_right hc).symm

/-- An attempt that fails goes on from the builder it leaves. -/
theorem run_tryCatch (act : Build α) (handler : ShaderError → Build α) :
    b.run (tryCatch act handler) = match b.run act with
      | (.ok a, b') => (.ok a, b')
      | (.error e, b') => b'.run (handler e) := by
  show StateT.run (ExceptT.run (ExceptT.tryCatch act handler)) b = _
  simp only [run, ExceptT.tryCatch, ExceptT.run, ExceptT.mk, bind, StateT.bind, StateT.run]
  cases act b with
  | mk x b' => cases x <;> rfl

variable {b : Builder}

/-- Without a stage, looking for it is an internal error. -/
theorem run_stage_of_none (h : b.stage = none) :
    b.run Build.stage = (.error (.internal .noStage), b) := by
  unfold Build.stage
  rw [run_bind, run_get]
  simp only [h]
  rfl

/-- The stage at hand is found. -/
theorem run_stage_of_some {s : OpenStage} (h : b.stage = some s) :
    b.run Build.stage = (.ok s, b) := by
  unfold Build.stage
  rw [run_bind, run_get]
  simp only [h]
  rfl

/-- Without a stage, changing it is an internal error. -/
theorem run_modifyStage_of_none (h : b.stage = none) (f : OpenStage → OpenStage) :
    b.run (Build.modifyStage f) = (.error (.internal .noStage), b) := by
  unfold Build.modifyStage
  rw [run_bind, run_stage_of_none h]

/-- The stage at hand is changed. -/
theorem run_modifyStage_of_some {s : OpenStage} (h : b.stage = some s)
    (f : OpenStage → OpenStage) :
    b.run (Build.modifyStage f) = (.ok (), { b with stage := some (f s) }) := by
  unfold Build.modifyStage
  rw [run_bind, run_stage_of_some h]
  rfl

end Builder

/-! ## Relations along runs -/

namespace Build

/-- The builder an operation leaves, failed or not, is related to the one it has run on. -/
def Follows {α : Type} (R : Builder → Builder → Prop) (act : Build α) : Prop :=
  ∀ b : Builder, R b (b.run act).2

/-- One operation after the other: the second starts from what the first one gives. -/
theorem related_bind {R : Builder → Builder → Prop} [IsPreorder Builder R] {α β : Type}
    {b : Builder} {act : Build α} {f : α → Build β} (hact : R b (b.run act).2)
    (hf : ∀ a b', b.run act = (.ok a, b') → R b' (b'.run (f a)).2) :
    R b (b.run (act >>= f)).2 := by
  rw [Builder.run_bind]
  rcases hrun : b.run act with ⟨_ | a, b'⟩
  · rw [hrun] at hact
    exact hact
  · rw [hrun] at hact
    exact trans_of R hact (hf a b' hrun)

namespace Follows

/-- What holds along every run holds along this one. -/
theorem of_run {R : Builder → Builder → Prop} {α : Type} {act : Build α} (h : Follows R act)
    {b b' : Builder} {x : Except ShaderError α} (hrun : b.run act = (x, b')) : R b b' := by
  have hb := h b
  rwa [hrun] at hb

variable {R : Builder → Builder → Prop} [IsPreorder Builder R] {α β : Type}

/-- A reflexive relation holds along nothing. -/
@[grind ←]
protected theorem pure (a : α) : Follows R (pure a : Build α) := fun b => refl_of R b

/-- A reflexive relation holds along an error. -/
@[grind ←]
theorem throw (e : ShaderError) : Follows R (throw e : Build α) := fun b => refl_of R b

/-- A reflexive relation holds along looking at the builder. -/
@[grind ←]
theorem get : Follows R (get : Build Builder) := fun b => refl_of R b

/-- A reflexive relation holds along a check. -/
@[grind ←]
theorem liftM (x : Except ShaderError α) : Follows R (liftM x : Build α) := by
  intro b
  rw [Builder.run_liftM]
  exact refl_of R b

/-- A transitive relation holds along one run after the other. -/
@[grind ←]
theorem bind {act : Build α} {f : α → Build β} (h : Follows R act) (hf : ∀ a, Follows R (f a)) :
    Follows R (act >>= f) := fun b => related_bind (h b) fun a b' _ => hf a b'

/-- A transitive relation holds along an attempt and what is done about its failure. -/
@[grind ←]
theorem tryCatch {act : Build α} {handler : ShaderError → Build α} (h : Follows R act)
    (hhandler : ∀ e, Follows R (handler e)) : Follows R (tryCatch act handler) := by
  intro b
  have hact := h b
  rw [Builder.run_tryCatch]
  rcases hrun : b.run act with ⟨e | a, b'⟩
  · rw [hrun] at hact
    exact trans_of R hact (hhandler e b')
  · rw [hrun] at hact
    exact hact

end Follows

end Build

/-! ## Additions -/

/-- A stage without the built-ins it uses and its extensions. -/
def OpenStage.stem (s : OpenStage) : OpenStage :=
  { s with decls := { s.decls with builtins := [], extensions := [] } }

/-- A stage that uses more built-ins and extensions than another, and is the same otherwise. -/
structure OpenStage.Adds (s s' : OpenStage) : Prop where
  stem : s'.stem = s.stem
  builtins : s.decls.builtins <+: s'.decls.builtins
  extensions : s.decls.extensions <:+ s'.decls.extensions

/-- The function that an expression calls, if it is a call. -/
@[grind =]
def NodeKind.callee? : NodeKind → Option FunctionId
  | call f _ => some f
  | _ => none

/-- The function of a place in the stage being built. -/
def Builder.function? (b : Builder) (f : FunctionId) : Option Function :=
  b.stage.bind (·.decls.function? f)

/-- The expressions recorded from a place on only call functions that the stage being built has. -/
def Builder.CallsDefined (start : Nat) (b : Builder) : Prop :=
  ∀ n node f, start ≤ n.index → b.node? n = some node → node.kind.callee? = some f →
    ∃ fn, b.function? f = some fn

/-- A builder with more types, expressions and used features than another, all of which its target
has and whose structs are named by identifiers, which only calls functions that it has, and which
recalls the accesses it has given: the options, the variables, and the scopes and declarations of
the stage are the same. -/
structure Builder.Adds (b b' : Builder) : Prop where
  config : b'.config = b.config
  phase : b'.phase = b.phase
  types : b.types ≤ b'.types
  names : b.types.NamesStructs → b'.types.NamesStructs
  arena : b.arena.Recalls b'.arena
  accesses : b.accesses <:+ b'.accesses
  vars : b'.vars = b.vars
  stage : Option.Rel OpenStage.Adds b.stage b'.stage
  calls : ∀ start, b.CallsDefined start → b'.CallsDefined start
  supported : b.Supported → b'.Supported

/-- A reflexive and transitive relation that holds of builders to which something is added. -/
class IsAdditive (R : Builder → Builder → Prop) : Prop extends IsPreorder Builder R where
  of_adds : ∀ b b', b.Adds b' → R b b'

/-- Nothing is added. -/
theorem OpenStage.Adds.refl (s : OpenStage) : s.Adds s :=
  ⟨rfl, List.prefix_refl _, List.suffix_refl _⟩

/-- Nothing is added. -/
theorem Builder.adds_refl (b : Builder) : b.Adds b := by
  refine ⟨rfl, rfl, le_refl _, id, refl_of Arena.Recalls b.arena, List.suffix_refl _, rfl, ?_,
    fun _ => id, id⟩
  cases b.stage with
  | none => exact .none
  | some s => exact .some (.refl s)

/-- Additions one after the other. -/
theorem OpenStage.Adds.trans {s s' s'' : OpenStage} (h : s.Adds s') (h' : s'.Adds s'') :
    s.Adds s'' :=
  ⟨h'.stem.trans h.stem, h.builtins.trans h'.builtins, h.extensions.trans h'.extensions⟩

/-- Additions one after the other. -/
theorem Builder.Adds.trans {b b' b'' : Builder} (h : b.Adds b') (h' : b'.Adds b'') :
    b.Adds b'' := by
  refine ⟨h'.config.trans h.config, h'.phase.trans h.phase, le_trans h.types h'.types,
    fun hb => h'.names (h.names hb), trans_of Arena.Recalls h.arena h'.arena,
    h.accesses.trans h'.accesses, h'.vars.trans h.vars, ?_,
    fun start hb => h'.calls start (h.calls start hb), fun hb => h'.supported (h.supported hb)⟩
  have hstage := h.stage
  have hstage' := h'.stage
  generalize b.stage = s at hstage
  generalize b'.stage = s' at hstage hstage'
  generalize b''.stage = s'' at hstage'
  cases hstage with
  | none => exact hstage'
  | some hadds =>
      cases hstage' with
      | some hadds' => exact .some (hadds.trans hadds')

/-- The arena only grows. -/
theorem Builder.Adds.nodes {b b' : Builder} (h : b.Adds b') :
    b.nodes.toList <+: b'.nodes.toList := h.arena.nodes

instance : IsAdditive Builder.Adds where
  refl := Builder.adds_refl
  trans _ _ _ := Builder.Adds.trans
  of_adds _ _ h := h

/-- A registration changes the registry alone. -/
theorem Builder.run_intern {α : Type} (b : Builder) (act : Interning α) :
    b.run (Build.intern act) = ((b.types.run act).1, { b with types := (b.types.run act).2 }) := by
  unfold Build.intern
  rw [run_bind, run_get]
  dsimp only
  rw [run_bind, run_set]
  exact run_liftM _ _

/-- A type that is registered changes no expression and no access. -/
theorem Builder.arena_of_run_intern {α : Type} {act : Interning α} {x : Except ShaderError α}
    {b b' : Builder} (h : b.run (Build.intern act) = (x, b')) : b'.arena = b.arena := by
  rw [run_intern] at h
  obtain ⟨-, rfl⟩ := Prod.mk.inj h
  rfl

/-! ## Conditions -/

namespace Builder

variable {b b' : Builder}

/-- Additions keep the target. -/
theorem Adds.target_eq (h : b.Adds b') : b'.target = b.target := congrArg Config.target h.config

/-- Additions keep the kind of the stage. -/
theorem Adds.currentStage_eq (h : b.Adds b') : b'.currentStage = b.currentStage := by
  have hstage := h.stage
  unfold currentStage
  generalize b.stage = s at hstage
  generalize b'.stage = s' at hstage
  cases hstage with
  | none => rfl
  | some hadds => exact congrArg (fun s => some s.decls.stage) hadds.stem

/-- The functions of the stage are the same. -/
theorem Adds.function?_eq (h : b.Adds b') (f : FunctionId) : b'.function? f = b.function? f := by
  have hstage := h.stage
  unfold function?
  generalize b.stage = s at hstage
  generalize b'.stage = s' at hstage
  cases hstage with
  | none => rfl
  | some hadds => exact congrArg (·.decls.functions[f.index]?) hadds.stem

/-- An expression is made in a way, and its handle carries its type. -/
def Makes (b : Builder) (e : Expr) (kind : NodeKind) : Prop := b.node? e.node = some ⟨e.type, kind⟩

/-- What a target has of a builder, it has of the builder that something is added to. -/
theorem Offers.of_adds {k : ScalarKind} (h : b.Adds b') (hk : b.Offers k) : b'.Offers k := by
  intro hb'
  rw [h.target_eq]
  refine hk ⟨fun t p hp => ?_, fun hs => ?_⟩
  · rw [← h.target_eq]
    exact hb'.types.of_le h.types t p hp
  · rw [← h.target_eq]
    exact hb'.stage (h.currentStage_eq.trans hs)

end Builder

namespace Build

/-- Where a condition holds, what an operation gives if it succeeds is as told. -/
def Delivers {α : Type} (C : Builder → Prop) (act : Build α) (Q : α → Builder → Prop) : Prop :=
  ∀ (b : Builder) a b', C b → b.run act = (.ok a, b') → Q a b'

/-- Where a condition holds, the builder an operation leaves is related to the one it has run on. -/
def FollowsWhere {α : Type} (R : Builder → Builder → Prop) (C : Builder → Prop) (act : Build α) :
    Prop :=
  ∀ b : Builder, C b → R b (b.run act).2

section Conditions

variable {α : Type} {R : Builder → Builder → Prop} {C D : Builder → Prop} {act : Build α}

/-- What holds along every run holds along those from some builders. -/
theorem Follows.where (h : Follows R act) : FollowsWhere R C act := fun b _ => h b

/-- What holds along runs from any builder holds along every run. -/
theorem FollowsWhere.follows (h : FollowsWhere R (fun _ => True) act) : Follows R act :=
  fun b => h b trivial

/-- What holds along more runs holds along fewer. -/
theorem FollowsWhere.of_imp (h : FollowsWhere R D act) (himp : ∀ b, C b → D b) :
    FollowsWhere R C act :=
  fun b hb => h b (himp b hb)

/-- What follows an operation may rely on what the operation gives. -/
theorem FollowsWhere.bind_delivers {β : Type} [IsPreorder Builder R] {f : α → Build β}
    {Q : α → Builder → Prop} (h : FollowsWhere R C act) (hact : Delivers C act Q)
    (hf : ∀ a, FollowsWhere R (Q a) (f a)) : FollowsWhere R C (act >>= f) :=
  fun b hb => related_bind (h b hb) fun a b' hrun => hf a b' (hact b a b' hb hrun)

/-- Nothing follows a failure. -/
theorem FollowsWhere.throw_bind {β : Type} [IsPreorder Builder R] (e : ShaderError)
    (f : α → Build β) : FollowsWhere R C (throw e >>= f) := by
  intro b _
  rw [Builder.run_bind, Builder.run_throw]
  exact refl_of R b

/-- What follows a refusal is only run if nothing is refused. -/
theorem FollowsWhere.refuse {β : Type} [IsPreorder Builder R] {c : Prop} [Decidable c]
    {e : ShaderError} {f : PUnit → Build β} (hf : ¬c → FollowsWhere R C (f ⟨⟩)) :
    FollowsWhere R C (if c then MonadExcept.throw e >>= f else f ⟨⟩) := by
  split
  · exact .throw_bind e f
  · exact hf ‹_›

/-- What is only added does not come between a builder and what holds of it. -/
theorem FollowsWhere.bind_of_adds {β : Type} [IsAdditive R] {f : α → Build β}
    (hC : ∀ b b', b.Adds b' → C b → C b') (h : Follows Builder.Adds act)
    (hf : ∀ a, FollowsWhere R C (f a)) : FollowsWhere R C (act >>= f) := by
  intro b hb
  have hact := h b
  rw [Builder.run_bind]
  rcases hrun : b.run act with ⟨_ | a, b'⟩
  · rw [hrun] at hact
    exact IsAdditive.of_adds _ _ hact
  · rw [hrun] at hact
    exact trans_of R (IsAdditive.of_adds _ _ hact) (hf a b' (hC b b' hact hb))

end Conditions

namespace Delivers

variable {α β : Type} {C : Builder → Prop} {Q : α → Builder → Prop} {Q' : β → Builder → Prop}

/-- What is given has been delivered. -/
protected theorem pure {a : α} (h : ∀ b, C b → Q a b) : Delivers C (pure a) Q := by
  intro b a' b' hb hrun
  obtain ⟨ha, rfl⟩ := Prod.mk.inj hrun
  rw [← Except.ok.inj ha]
  exact h b hb

/-- An error delivers nothing. -/
theorem throw (e : ShaderError) : Delivers C (throw e : Build α) Q := by
  intro b a b' _ hrun
  cases (Prod.mk.inj hrun).1

/-- What one run delivers may be used by the next. -/
theorem bind {act : Build α} {f : α → Build β} (h : Delivers C act Q)
    (hf : ∀ a, Delivers (Q a) (f a) Q') : Delivers C (act >>= f) Q' := by
  intro b c b'' hb hrun
  rw [Builder.run_bind] at hrun
  rcases hact : b.run act with ⟨e | a, b'⟩
  · rw [hact] at hrun
    cases (Prod.mk.inj hrun).1
  · rw [hact] at hrun
    exact hf a b' c b'' (h b a b' hb hact) hrun

/-- Both branches deliver. -/
theorem ite {c : Prop} [Decidable c] {act act' : Build α} (h : c → Delivers C act Q)
    (h' : ¬c → Delivers C act' Q) : Delivers C (if c then act else act') Q := by
  split
  · exact h ‹_›
  · exact h' ‹_›

/-- What follows a look at the builder. -/
theorem get_bind {f : Builder → Build β} (hf : ∀ b, C b → Delivers (· = b) (f b) Q') :
    Delivers C (MonadState.get >>= f) Q' :=
  fun b a b' hb hrun => hf b hb b a b' rfl hrun

/-- What follows an operation may not rely on it. -/
theorem any_bind {act : Build α} {f : α → Build β} (hf : ∀ a, Delivers (fun _ => True) (f a) Q') :
    Delivers C (act >>= f) Q' :=
  .bind (Q := fun _ _ => True) (fun _ _ _ _ _ => trivial) hf

/-- What is not refused goes on without what is refused. -/
theorem refuse {c : Prop} [Decidable c] {e : ShaderError} {f : PUnit → Build β}
    (hf : ¬c → Delivers C (f ⟨⟩) Q') :
    Delivers C (if c then MonadExcept.throw e >>= f else f ⟨⟩) Q' :=
  .ite (fun _ => .bind (Q := fun _ _ => False) (.throw e) fun _ _ _ _ h => h.elim) hf

end Delivers

open Follows

variable {R : Builder → Builder → Prop} [IsAdditive R] {α β : Type} {C : Builder → Prop}

/-! ## Steps that add -/

/-- What is registered is added, if the target has its components. -/
theorem adds_intern {b : Builder} {act : Interning α} (h : act.Follows Registry.Grows)
    (hkeeps : b.Supported → (b.types.run act).2.HasOnly (b.target.supportsScalar · = true)) :
    b.Adds (b.run (intern act)).2 := by
  rw [Builder.run_intern]
  exact { b.adds_refl with
    types := (h b.types).le, names := (h b.types).names,
    supported := fun hb => ⟨hkeeps hb, hb.stage⟩ }

theorem follows_intern {act : Interning α}
    (h : ∀ (G : Registry → Registry → Prop) [Registry.IsGrowth G], Interning.Follows G act) :
    Follows R (intern act) :=
  fun b => IsAdditive.of_adds b _
    (adds_intern (h _) fun hb => h (Registry.StaysWithin _) b.types hb.types)

@[grind ←]
theorem follows_void : Follows R (intern Interning.void) :=
  follows_intern fun _ _ => Interning.follows_void

@[grind ←]
theorem follows_pointer (pointee : TypeId) (space : AddressSpace) :
    Follows R (intern (Interning.pointer pointee space)) :=
  follows_intern fun _ _ => Interning.follows_pointer pointee space

@[grind ←]
theorem follows_std140 (t : TypeId) : Follows R (intern (Interning.std140 t)) :=
  follows_intern fun _ _ => Interning.follows_std140 t

/-- A primitive type is registered whose components the target has. -/
theorem follows_primitive (p : PrimitiveType) :
    FollowsWhere R (·.Offers p.scalar) (intern (Interning.primitive p)) :=
  fun b hp => IsAdditive.of_adds b _ (adds_intern (Interning.grows_primitive p) fun hb =>
    Interning.keeps_primitive (P := (b.target.supportsScalar · = true)) (hp hb) b.types hb.types)

/-- What follows where something is only added. -/
theorem FollowsWhere.offers_bind {k : ScalarKind} {act : Build α} {f : α → Build β}
    (h : Follows Builder.Adds act) (hf : ∀ a, FollowsWhere R (·.Offers k) (f a)) :
    FollowsWhere R (·.Offers k) (act >>= f) :=
  .bind_of_adds (fun _ _ hadds hk => hk.of_adds hadds) h hf

/-- An expression of a primitive type is recorded whose components the target has. -/
theorem FollowsWhere.primitive_bind {p : PrimitiveType} {f : TypeId → Build β}
    (hf : ∀ t, Follows R (f t)) :
    FollowsWhere R (·.Offers p.scalar) (intern (Interning.primitive p) >>= f) :=
  .bind_delivers (Q := fun _ _ => True) (follows_primitive p) (fun _ _ _ _ _ => trivial)
    fun t => (hf t).where

@[grind ←]
theorem follows_remark (r : Remark) : Follows R (remark r) :=
  fun b => IsAdditive.of_adds b _ { b.adds_refl with }

/-- What is recorded was recorded before, or is the new expression. -/
theorem callsDefined_push {b : Builder} {node : Node} {start : Nat}
    (hnode : ∀ f, node.kind.callee? = some f → ∃ fn, b.function? f = some fn)
    (hb : b.CallsDefined start) :
    Builder.CallsDefined start { b with nodes := b.nodes.push node } := by
  intro n node' f hn hnode' hf
  rw [Builder.node?, Array.getElem?_push] at hnode'
  split at hnode'
  · obtain rfl := Option.some.inj hnode'
    exact hnode f hf
  · exact hb n node' f hn hnode' hf

/-- An expression is recorded that calls nothing, or a function that the stage has. -/
theorem adds_pushNode (b : Builder) (type : TypeId) {kind : NodeKind}
    (hkind : ∀ f, kind.callee? = some f → ∃ fn, b.function? f = some fn) :
    b.Adds (b.run (pushNode type kind)).2 := by
  refine { b.adds_refl with
    arena := Arena.recalls_of_starts ?_ rfl
    calls := fun _ => callsDefined_push hkind }
  show b.nodes.toList <+: (b.nodes.push _).toList
  rw [Array.toList_push]
  exact List.prefix_append _ _

@[grind ←]
theorem follows_pushNode (type : TypeId) (kind : NodeKind) (hkind : kind.callee? = none) :
    Follows R (pushNode type kind) :=
  fun b => IsAdditive.of_adds b _ (adds_pushNode b type (by simp [hkind]))

/-- A call is recorded of a function that the stage has. -/
theorem follows_pushCall (type : TypeId) (f : FunctionId) (args : List NodeId) (fn : Function) :
    FollowsWhere R (·.function? f = some fn) (pushNode type (.call f args)) :=
  fun b hf => IsAdditive.of_adds b _
    (adds_pushNode b type fun _ hg => ⟨fn, Option.some.inj hg ▸ hf⟩)

/-- The expression that is recorded is the last of the arena. -/
theorem makes_of_run_pushNode {t : TypeId} {kind : NodeKind} {e : Expr} {b b' : Builder}
    (h : b.run (pushNode t kind) = (.ok e, b')) :
    b.nodes.toList <+: b'.nodes.toList ∧ b'.Makes e kind := by
  obtain ⟨he, rfl⟩ := Prod.mk.inj h
  obtain rfl := Except.ok.inj he
  constructor
  · show b.nodes.toList <+: (b.nodes.push _).toList
    rw [Array.toList_push]
    exact List.prefix_append _ _
  · simp [Builder.Makes, Builder.node?]

@[grind ←]
theorem follows_setLastError (report : Option String) : Follows R (setLastError report) :=
  fun b => IsAdditive.of_adds b _ { b.adds_refl with }

@[grind ←]
theorem follows_takeRemarks : Follows R Script.takeRemarks :=
  fun b => IsAdditive.of_adds b _ { b.adds_refl with }

@[grind ←]
theorem follows_stage : Follows R stage := by
  unfold stage
  grind

/-- The stage that is delivered is the stage at hand. -/
theorem delivers_stage : Delivers C stage fun s b => b.stage = some s := by
  intro b s b' _ hrun
  cases hs : b.stage with
  | none =>
      rw [Builder.run_stage_of_none hs] at hrun
      cases (Prod.mk.inj hrun).1
  | some s' =>
      rw [Builder.run_stage_of_some hs] at hrun
      obtain ⟨h, rfl⟩ := Prod.mk.inj hrun
      rw [hs, Except.ok.inj h]

/-- A change that adds to the stage. -/
theorem follows_modifyStage {f : OpenStage → OpenStage} (hf : ∀ s : OpenStage, s.Adds (f s)) :
    Follows R (modifyStage f) := by
  intro b
  cases hs : b.stage with
  | none =>
      rw [Builder.run_modifyStage_of_none hs]
      exact refl_of R b
  | some s =>
      rw [Builder.run_modifyStage_of_some hs]
      refine IsAdditive.of_adds b _
        { b.adds_refl with stage := ?_, calls := fun start hb => ?_, supported := fun hb => ?_ }
      · rw [hs]
        exact .some (hf s)
      · have hfunctions : (f s).decls.functions = s.decls.functions :=
          congrArg (·.decls.functions) (hf s).stem
        intro n node g hn hnode hg
        obtain ⟨fn, hfn⟩ := hb n node g hn hnode hg
        refine ⟨fn, ?_⟩
        rw [Builder.function?, hs] at hfn
        exact (congrArg (·[g.index]?) hfunctions).trans hfn
      · have hstage : (f s).decls.stage = s.decls.stage := congrArg (·.decls.stage) (hf s).stem
        refine ⟨hb.types, fun hcompute => hb.stage ?_⟩
        rw [Builder.currentStage, hs, Option.map_some, ← hstage]
        exact hcompute

@[grind ←]
theorem follows_enable (e : GlslExtension) : Follows R (enable e) := by
  refine follows_modifyStage fun s => ?_
  dsimp only
  split
  · exact .refl s
  · exact { OpenStage.Adds.refl s with extensions := List.suffix_cons _ _ }

/-! ## Checks and types -/

@[grind ←]
theorem follows_require (f : Feature) : Follows R (require f) := by
  unfold require
  grind

/-- A feature is required without a trace if the target has it. -/
theorem run_require_eq_ok_iff {b b' : Builder} {f : Feature} {u : Unit} :
    b.run (require f) = (.ok u, b') ↔ b.target.supports f = true ∧ b = b' := by
  rw [require, Builder.run_get_bind, Builder.run_liftM, ← Target.require_eq_ok_iff]
  constructor
  · intro h
    exact Prod.mk.inj h
  · rintro ⟨h, rfl⟩
    rw [h]

/-- A feature that may be used is one of the target. -/
theorem delivers_require (f : Feature) :
    Delivers C (require f) fun _ b => C b ∧ b.target.supports f = true := by
  intro b _ b' hb hrun
  unfold require at hrun
  rw [Builder.run_bind, Builder.run_get] at hrun
  dsimp only at hrun
  rw [Builder.run_liftM] at hrun
  obtain ⟨hrequire, rfl⟩ := Prod.mk.inj hrun
  exact ⟨hb, Target.require_eq_ok_iff.mp hrequire⟩

/-- What follows a feature that the target is asked for. -/
theorem follows_require_bind {f : Feature} {act : Unit → Build β}
    (h : FollowsWhere R (·.target.supports f = true) (act ())) : Follows R (require f >>= act) :=
  FollowsWhere.follows (.bind_delivers (follows_require f).where (delivers_require f) fun _ =>
    h.of_imp fun _ hb => hb.2)

/-- The types of a shape are registered, if the target has them. -/
@[grind ←]
theorem follows_type (shape : TypeShape) : Follows R (type shape) := by
  intro b
  unfold type
  rw [Builder.run_bind, Builder.run_get]
  dsimp only
  rw [Builder.run_bind, Builder.run_liftM]
  cases hshape : checkShape b.target shape with
  | error e => exact refl_of R b
  | ok _ =>
      exact IsAdditive.of_adds b _ (adds_intern (Interning.grows_shape shape) fun hb =>
        Interning.keeps_shape (fun _ hk => hk) shape hshape b.types hb.types)

@[grind ←]
theorem follows_inGlobalScope : Follows R inGlobalScope := by
  unfold inGlobalScope
  grind

@[grind ←]
theorem follows_requireGlobal (what : String) : Follows R (requireGlobal what) := by
  unfold requireGlobal
  grind

@[grind ←]
theorem follows_requireFunction (what : String) : Follows R (requireFunction what) := by
  unfold requireFunction
  grind

@[grind ←]
theorem follows_resolve (name : String) : Follows R (resolve name) := by
  unfold resolve
  grind

@[grind ←]
theorem follows_frame : Follows R frame := by
  unfold frame
  grind

/-! ## Operands and operators -/

@[grind ←]
theorem follows_literal (l : Literal) : Follows R (literal l) := by
  have hrecord : FollowsWhere R (·.Offers l.scalar) (do
      pushNode (← intern (Interning.scalar l.scalar)) (.literal l)) :=
    .primitive_bind (p := .ofScalar l.scalar) fun t => follows_pushNode t _ rfl
  cases l with
  | bool | i32 | f32 => exact fun b => hrecord b fun _ => rfl
  | u32 | f16 => exact follows_require_bind fun b hb => hrecord b fun _ => hb

/-- A literal is recorded if the target has its type. -/
theorem run_literal_eq_ok_iff {b b' : Builder} {l : Literal} {e : Expr} :
    b.run (literal l) = (.ok e, b') ↔ b.target.supportsScalar l.scalar = true ∧
      b.run (do pushNode (← intern (Interning.scalar l.scalar)) (.literal l)) = (.ok e, b') := by
  unfold literal
  cases l with
  | bool | i32 | f32 =>
      constructor
      · intro h
        exact ⟨rfl, h⟩
      · rintro ⟨-, h⟩
        exact h
  | u32 | f16 =>
      rw [Builder.run_bind_eq_ok_iff]
      constructor
      · rintro ⟨_, b₁, hrequire, h⟩
        obtain ⟨hsupports, rfl⟩ := run_require_eq_ok_iff.mp hrequire
        exact ⟨hsupports, h⟩
      · rintro ⟨hsupports, h⟩
        exact ⟨(), b, run_require_eq_ok_iff.mpr ⟨hsupports, rfl⟩, h⟩

/-- A literal is made of itself. -/
theorem makes_of_run_literal {l : Literal} {e : Expr} {b b' : Builder}
    (h : b.run (literal l) = (.ok e, b')) :
    b'.Makes e (.literal l) := by
  obtain ⟨t, b₁, -, h⟩ := Builder.run_bind_eq_ok_iff.mp (run_literal_eq_ok_iff.mp h).2
  exact (makes_of_run_pushNode h).2

@[grind ←]
theorem follows_lower (v : Value) (hint : Option ScalarKind) : Follows R (lower v hint) := by
  unfold lower
  grind

@[grind ←]
theorem follows_lowerNear (v : Value) (hint : Option ScalarKind) :
    Follows R (lowerNear v hint) := by
  unfold lowerNear
  grind

@[grind ←]
theorem follows_coerce (v : Value) (t : TypeId) (what : String) : Follows R (coerce v t what) := by
  unfold coerce
  grind

@[grind ←]
theorem follows_lowerPair (lhs rhs : Value) : Follows R (lowerPair lhs rhs) := by
  unfold lowerPair
  grind

@[grind ←]
theorem follows_operandType (e : Expr) (operation : String) :
    Follows R (operandType e operation) := by
  unfold operandType
  grind

/-- The type of an operand is looked up and nothing changes. -/
theorem run_operandType_eq_ok {e : Expr} {operation : String} {p : PrimitiveType} {b b' : Builder}
    (h : b.run (operandType e operation) = (.ok p, b')) :
    b' = b ∧ b.types.primitive? e.type = some p := by
  rw [operandType, Builder.run_bind, Builder.run_get] at h
  dsimp only at h
  cases hp : b.types.primitive? e.type with
  | none =>
      rw [hp] at h
      cases (Prod.mk.inj h).1
  | some q =>
      rw [hp] at h
      obtain ⟨hq, rfl⟩ := Prod.mk.inj h
      rw [← Except.ok.inj hq]
      exact ⟨rfl, rfl⟩

/-- What follows a look at the type of an operand succeeds only if it is a primitive type. -/
theorem run_operandType_bind_eq_ok_iff {e : Expr} {operation : String} {f : PrimitiveType → Build α}
    {a : α} {b b' : Builder} :
    b.run (operandType e operation >>= f) = (.ok a, b') ↔
      ∃ p, b.types.primitive? e.type = some p ∧ b.run (f p) = (.ok a, b') := by
  rw [operandType, Builder.run_bind_eq_ok_iff]
  constructor
  · rintro ⟨p, b₁, hp, hrest⟩
    obtain ⟨rfl, hp⟩ := run_operandType_eq_ok hp
    exact ⟨p, hp, hrest⟩
  · rintro ⟨p, hp, hrest⟩
    refine ⟨p, b, ?_, hrest⟩
    rw [Builder.run_get_bind]
    dsimp only
    rw [hp]
    rfl

/-- What follows a look at the type of an operand. -/
theorem FollowsWhere.operandType_bind {e : Expr} {operation : String}
    {f : PrimitiveType → Build β}
    (hf : ∀ p, FollowsWhere R (fun b => C b ∧ b.Offers p.scalar) (f p)) :
    FollowsWhere R C (operandType e operation >>= f) := by
  refine .bind_delivers (follows_operandType e operation).where ?_ hf
  intro b p b' hb hrun
  obtain ⟨rfl, hp⟩ := run_operandType_eq_ok hrun
  exact ⟨hb, Builder.offers_of_primitive? hp⟩

@[grind ←]
theorem follows_binaryType (op : BinaryOp) (lhs rhs : Expr) :
    Follows R (binaryType op lhs rhs) := by
  refine FollowsWhere.follows (.operandType_bind fun l => .operandType_bind fun r => ?_)
  split
  · rename_i p hp
    refine (follows_primitive p).of_imp ?_
    rintro b ⟨⟨-, hl⟩, hr⟩
    rcases BinaryOp.scalar_of_result? hp with h | h | h <;> rw [h]
    · exact hl
    · exact hr
    · exact fun _ => rfl
  · exact (Follows.throw _).where

@[grind ←]
theorem follows_binary (op : BinaryOp) (lhs rhs : Value) : Follows R (binary op lhs rhs) := by
  unfold binary
  grind

@[grind ←]
theorem follows_unary (op : UnaryOp) (operand : Value) : Follows R (unary op operand) := by
  unfold unary
  grind

@[grind ←]
theorem follows_cast (v : Value) (k : ScalarKind) : Follows R (cast v k) := by
  unfold cast
  grind

/-! ## Accesses -/

/-- An access gives the expression given before, or records one of the kind asked for. -/
theorem run_access (b : Builder) (base : Expr) (part : Access) (type : TypeId) (kind : NodeKind) :
    b.run (access base part type kind) =
      match b.arena.given? base.node part with
      | some e => (.ok e, b)
      | none => (.ok ⟨⟨b.nodes.size⟩, type⟩, { b with
          nodes := b.nodes.push ⟨type, kind⟩
          accesses := ((base.node, part), ⟨⟨b.nodes.size⟩, type⟩) :: b.accesses }) := by
  rw [access, Builder.run_get_bind]
  show b.run (match b.arena.given? base.node part with
    | some e => pure e
    | none => _) = _
  split <;> rfl

/-- What is recorded for an access is what the access yields. -/
theorem follows_access (base : Expr) (part : Access) (type : TypeId) (kind : NodeKind) :
    FollowsWhere R (·.arena.Yields base.node part kind) (access base part type kind) := by
  intro b hkind
  rw [run_access]
  split
  · exact refl_of R b
  · rename_i hnone
    have hcallee : kind.callee? = none := by
      cases hkind <;> rfl
    exact IsAdditive.of_adds b _ { b.adds_refl with
      arena := Arena.recalls_access hnone hkind type
      calls := fun _ => callsDefined_push (by simp [hcallee])
      accesses := List.suffix_cons _ _ }

@[grind ←]
theorem follows_member (base : Expr) (name : String) : Follows R (member base name) := by
  have haccess : ∀ i t, Follows R (access base (.member i) t (.member base.node i)) :=
    fun i t b => follows_access base _ t _ b (.member i)
  unfold member
  grind

@[grind ←]
theorem follows_swizzle (base : Expr) (mask : String) : Follows R (swizzle base mask) := by
  intro b
  unfold swizzle
  rw [Builder.run_bind, Builder.run_get]
  dsimp only
  split
  · exact refl_of R b
  · rename_i p hp
    have hselect : FollowsWhere R (·.Offers p.scalar) (do
        let s ← Swizzle.parse mask p.rows
        let t ← intern (Interning.primitive (.vector p.scalar (UInt8.ofNat s.length)))
        access base (.swizzle s) t (.swizzle base.node s)) :=
      .offers_bind (.liftM _) fun s =>
        .primitive_bind (p := .vector p.scalar _) fun t b => follows_access _ _ t _ b (.swizzle s)
    exact FollowsWhere.refuse (fun _ => hselect) b (Builder.offers_of_primitive? hp)

@[grind ←]
theorem follows_elements (t : TypeId) : Follows R (elements t) := by
  intro b
  unfold elements
  rw [Builder.run_bind, Builder.run_get]
  dsimp only
  split
  · exact refl_of R b
  · rename_i p hp
    have helement : FollowsWhere R (·.Offers p.element.scalar) (do
        let element ← intern (Interning.primitive p.element)
        return (element, some (if p.isMatrix then p.cols else p.rows).toNat)) :=
      .primitive_bind fun t => .pure _
    refine FollowsWhere.refuse (fun _ => helement) b ?_
    rw [p.scalar_element]
    exact Builder.offers_of_primitive? (Registry.primitive?_eq_some_iff.mpr hp)
  · exact refl_of R b

/-- Looking for the elements of a type records no expression. -/
theorem arena_of_run_elements {t : TypeId} {x : TypeId × Option Nat} {b b' : Builder}
    (h : b.run (elements t) = (.ok x, b')) : b'.arena = b.arena := by
  rw [elements, Builder.run_get_bind] at h
  dsimp only at h
  split at h
  · obtain ⟨-, rfl⟩ := Builder.run_pure_eq_ok_iff.mp h
    rfl
  · split at h
    · cases (Prod.mk.inj h).1
    · obtain ⟨u, b₁, hintern, h⟩ := Builder.run_bind_eq_ok_iff.mp h
      obtain ⟨-, rfl⟩ := Builder.run_pure_eq_ok_iff.mp h
      exact Builder.arena_of_run_intern hintern
  · cases (Prod.mk.inj h).1

/-- The index of an element is recorded before the element. -/
theorem follows_elementOf (base : Expr) (type : TypeId) (n : Nat) :
    Follows R (do
      let index ← literal (.ofIndex n)
      access base (.index n) type (.index base.node index.node)) := by
  have hindex : Delivers (fun _ => True) (literal (.ofIndex n)) fun index b =>
      b.arena.Yields base.node (.index n) (.index base.node index.node) :=
    fun b index b' _ hrun => .index (makes_of_run_literal hrun)
  exact FollowsWhere.follows (.bind_delivers (follows_literal _).where hindex fun index =>
    follows_access _ _ _ _)

@[grind ←]
theorem follows_element (base : Expr) (type : TypeId) (bound : Option Nat) (i : Int) :
    Follows R (element base type bound i) := by
  unfold element
  dsimp only
  split
  · grind
  · rename_i hrange
    have hi : isU32 i = true := by grind
    rw [← Literal.ofIndex_toNat hi]
    have helement := follows_elementOf (R := R) base type i.toNat
    grind

@[grind ←]
theorem follows_at (base : Expr) (index : Value) : Follows R («at» base index) := by
  unfold «at»
  grind

@[grind ←]
theorem follows_addressOf (place : Expr) : Follows R (addressOf place) := by
  have hmake : ∀ space, Follows R (do
      let t ← intern (Interning.pointer place.type space)
      pushNode t (.addressOf place.node)) :=
    fun space =>
      bind (follows_pointer _ _)
        fun t => follows_pushNode _ _ rfl
  unfold addressOf
  grind

@[grind ←]
theorem follows_deref (pointer : Expr) : Follows R (deref pointer) := by
  unfold deref
  grind

/-! ## Statements -/

@[grind ←]
theorem follows_requireSized (what name : String) (t : TypeId) :
    Follows R (requireSized what name t) := by
  unfold requireSized
  grind

@[grind ←]
theorem follows_condition (v : Value) : Follows R (condition v) := by
  unfold condition
  grind

@[grind ←]
theorem follows_requireLoop (statement : String) : Follows R (requireLoop statement) := by
  unfold requireLoop
  grind

@[grind ←]
theorem follows_requireBounds (first last : Expr) : Follows R (requireBounds first last) := by
  unfold requireBounds
  grind

/-! ## Functions -/

@[grind ←]
theorem follows_checkFunctionName (name : String) : Follows R (checkFunctionName name) := by
  unfold checkFunctionName
  grind

@[grind ←]
theorem follows_paramTypes (name : String) (params : List (String × TypeShape)) :
    Follows R (paramTypes name params) := by
  induction params with
  | nil => exact Follows.pure []
  | cons param rest ih =>
      unfold paramTypes
      grind

@[grind ←]
theorem follows_function (f : FunctionId) : Follows R (function f) := by
  unfold function
  grind

/-- The function that is delivered is the one with the index. -/
theorem delivers_function (f : FunctionId) :
    Delivers C (function f) fun fn b => b.function? f = some fn := by
  refine .bind delivers_stage fun s => ?_
  split
  · rename_i fn hfn
    refine .pure fun b hs => ?_
    rw [Builder.function?, hs]
    exact hfn
  · exact .throw _

@[grind ←]
theorem follows_requireNewParams (name : String) (types : List TypeId) (fs : List FunctionId) :
    Follows R (requireNewParams name types fs) := by
  induction fs with
  | nil => exact Follows.pure ()
  | cons f rest ih =>
      unfold requireNewParams
      grind

@[grind ←]
theorem follows_resultType (name : String) (scope : Frame) : Follows R (resultType name scope) := by
  unfold resultType
  grind

@[grind ←]
theorem follows_chooseOverload (args : List Value) (fs : List FunctionId) :
    Follows R (chooseOverload args fs) := by
  induction fs with
  | nil => exact Follows.pure none
  | cons f rest ih =>
      unfold chooseOverload
      grind

/-- The overload that is chosen is a function of the stage. -/
theorem delivers_chooseOverload (args : List Value) (fs : List FunctionId) :
    Delivers C (chooseOverload args fs) fun chosen b =>
      ∀ f fn, chosen = some (f, fn) → b.function? f = some fn := by
  induction fs generalizing C with
  | nil => exact .pure fun _ _ _ _ h => by cases h
  | cons f rest ih =>
      refine .bind (delivers_function f) fun fn => .get_bind fun b hfn =>
        .ite (fun _ => ?_) fun _ => ih
      refine .pure fun b' hb' f' fn' h => ?_
      obtain ⟨rfl, rfl⟩ := Prod.mk.inj (Option.some.inj h)
      rw [hb', hfn]

@[grind ←]
theorem follows_coerceAll (what : String) (args : List (Value × TypeId)) :
    Follows R (coerceAll what args) := by
  induction args with
  | nil => exact Follows.pure []
  | cons arg rest ih =>
      unfold coerceAll
      grind

@[grind ←]
theorem follows_enclosingFunction : Follows R enclosingFunction := by
  unfold enclosingFunction
  grind

@[grind ←]
theorem follows_returned (v : Value) (t : Option TypeId) : Follows R (returned v t) := by
  unfold returned
  grind

/-! ## Constructors -/

@[grind ←]
theorem follows_constructFailure (p : PrimitiveType) (args : List Value) :
    Follows R (constructFailure p args) := by
  unfold constructFailure
  grind

@[grind ←]
theorem follows_component (p : PrimitiveType) (args : List Value) (v : Value) :
    Follows R (component p args v) := by
  unfold component
  grind

@[grind ←]
theorem follows_vectorParts (p : PrimitiveType) (args : List Value) (before : Nat)
    (parts : List Value) : Follows R (vectorParts p args before parts) := by
  induction parts generalizing before with
  | nil => exact Follows.pure ([], before)
  | cons v rest ih =>
      unfold vectorParts
      grind

@[grind ←]
theorem follows_vectorArgs (p : PrimitiveType) (args : List Value) :
    Follows R (vectorArgs p args) := by
  unfold vectorArgs
  grind

@[grind ←]
theorem follows_matrixParts (p part : PrimitiveType) (args parts : List Value) :
    Follows R (matrixParts p part args parts) := by
  induction parts with
  | nil => exact Follows.pure []
  | cons v rest ih =>
      unfold matrixParts
      grind

@[grind ←]
theorem follows_matrixArgs (p : PrimitiveType) (args : List Value) :
    Follows R (matrixArgs p args) := by
  unfold matrixArgs
  grind

@[grind ←]
theorem follows_memberParts (what : String) (parts : List (Value × TypeId)) :
    Follows R (memberParts what parts) := by
  induction parts with
  | nil => exact Follows.pure []
  | cons part rest ih =>
      unfold memberParts
      grind

@[grind ←]
theorem follows_memberArgs (t : TypeId) (count : Nat) (types : List TypeId) (args : List Value) :
    Follows R (memberArgs t count types args) := by
  unfold memberArgs
  grind

@[grind ←]
theorem follows_construct (shape : TypeShape) (args : List Value) :
    Follows R (construct shape args) := by
  unfold construct
  grind

/-! ## Built-in functions and variables -/

@[grind ←]
theorem follows_lowerAll (args : List (Value × PrimitiveType)) : Follows R (lowerAll args) := by
  induction args with
  | nil => exact Follows.pure []
  | cons arg rest ih =>
      unfold lowerAll
      grind

@[grind ←]
theorem follows_overloaded (f : Intrinsic) (args : List Value) : Follows R (overloaded f args) := by
  intro b
  unfold overloaded
  rw [Builder.run_bind, Builder.run_get]
  dsimp only
  split
  · exact refl_of R b
  · rename_i s hs
    have hcall : FollowsWhere R (·.Offers s.result.scalar) (do
        let nodes ← lowerAll (args.zip s.params)
        pushNode (← intern (Interning.primitive s.result)) (.intrinsic f nodes)) :=
      .offers_bind (follows_lowerAll _) fun nodes => .primitive_bind fun t =>
        follows_pushNode _ _ rfl
    refine hcall b fun hb => ?_
    obtain ⟨k, hk, hsupports⟩ := hb.of_find? hs
    rwa [hk.result]

@[grind ←]
theorem follows_textureArgument (f : Intrinsic) (arg : Option Value) :
    Follows R (textureArgument f arg) := by
  unfold textureArgument
  grind

@[grind ←]
theorem follows_fetchSignature (name : String) (t : TextureType) :
    Follows R (fetchSignature name t) := by
  unfold fetchSignature
  grind

@[grind ←]
theorem follows_textureSignature (f : Intrinsic) (name : String) (t : TextureType) (arity : Nat) :
    Follows R (textureSignature f name t arity) := by
  unfold textureSignature
  grind

/-- The result of a function on a texture has components that the target has: the functions that
give unsigned integers need features of the targets that have them. -/
theorem delivers_textureSignature (f : Intrinsic) (name : String) (t : TextureType) (arity : Nat) :
    Delivers C (textureSignature f name t arity) fun s b =>
      b.target.supportsScalar s.result.scalar = true := by
  have htexel : ∀ b : Builder, b.target.supports .textureLoad = true →
      b.target.supportsScalar (if t.isDepth then PrimitiveType.ofScalar .f32
        else .vector t.sample.scalar 4).scalar = true := by
    intro b hb
    split
    · rfl
    · cases t.sample <;> first | rfl | exact hb
  have hindex : ∀ b : Builder,
      b.target.supportsScalar (if b.target = .webGPU then .u32 else .i32) = true := by
    intro b
    cases b.target <;> rfl
  refine .get_bind fun b _ => ?_
  dsimp only
  split
  · refine .refuse fun _ => .ite (fun _ => .any_bind fun _ => ?_) fun _ => ?_
    · exact .pure fun _ _ => rfl
    · exact .pure fun _ _ => rfl
  · refine .bind (delivers_require .textureLoad) fun _ => ?_
    refine .refuse fun _ => .ite (fun _ => ?_) fun _ => .pure fun b' hb' => htexel b' hb'.2
    exact .bind (delivers_require _) fun _ => .pure fun b' hb' => htexel b' hb'.1.2
  · refine .bind (delivers_require .textureDimensions) fun _ => .pure ?_
    rintro b' ⟨rfl, -⟩
    exact hindex b'
  · refine .refuse fun _ => .ite (fun _ => .any_bind fun s => ?_) fun _ => ?_
    · exact .ite (fun _ => .any_bind fun _ => .pure fun _ _ => rfl) fun _ => .pure fun _ _ => rfl
    · exact .pure fun _ _ => rfl

@[grind ←]
theorem follows_textureCall (f : Intrinsic) (args : List Value) :
    Follows R (textureCall f args) := by
  refine bind (follows_textureArgument _ _) fun (texture, name, t) => FollowsWhere.follows ?_
  refine .bind_delivers (follows_textureSignature _ _ _ _).where
    (delivers_textureSignature f name t args.length) fun s => ?_
  have hcall : FollowsWhere R (·.Offers s.result.scalar) (do
      let nodes ← lowerAll ((args.drop 1).zip (withLayer f t s.params))
      pushNode (← intern (Interning.primitive s.result)) (.intrinsic f (texture.node :: nodes))) :=
    .offers_bind (follows_lowerAll _) fun nodes => .primitive_bind fun t => follows_pushNode _ _ rfl
  have hcheck : FollowsWhere R (·.Offers s.result.scalar) (do
      let b ← MonadState.get
      if !b.acceptsParams (withLayer f t s.params) (args.drop 1) then
        let expected := ", ".intercalate ((withLayer f t s.params).map (·.text))
        MonadExcept.throw
          (.parameter (.textureArguments f t expected (b.describeAll (args.drop 1))))
      let nodes ← lowerAll ((args.drop 1).zip (withLayer f t s.params))
      pushNode (← intern (Interning.primitive s.result)) (.intrinsic f (texture.node :: nodes))) :=
    .offers_bind get fun b => .refuse fun _ => hcall
  exact hcheck.of_imp fun b hb _ => hb

@[grind ←]
theorem follows_checkDerivative (f : Intrinsic) : Follows R (checkDerivative f) := by
  unfold checkDerivative
  grind

@[grind ←]
theorem follows_intrinsic (f : Intrinsic) (args : List Value) : Follows R (intrinsic f args) := by
  unfold intrinsic
  grind

@[grind ←]
theorem follows_interfaceType (what name : String) (shape : TypeShape) :
    Follows R (interfaceType what name shape) := by
  unfold interfaceType
  grind

@[grind ←]
theorem follows_checkColor (name : String) (p : PrimitiveType) (location : Nat) :
    Follows R (checkColor name p location) := by
  unfold checkColor
  grind

@[grind ←]
theorem follows_builtin (b : Builtin) : Follows R (builtin b) := by
  have hadd : ∀ e, Follows R (do
      modifyDecls fun d => { d with builtins := d.builtins ++ [(b, e)] }
      return e) :=
    fun e => bind (follows_modifyStage fun s =>
      { OpenStage.Adds.refl s with builtins := List.prefix_append _ _ }) fun _ => Follows.pure e
  have hdeclare : FollowsWhere R (·.currentStage = some b.stage) (do
      let target := (← MonadState.get).target
      let t ← intern (Interning.primitive (b.type target))
      let e ← pushNode t (.builtin b)
      if b = .fragDepth && target = .webGL then enable .fragDepth
      modifyDecls fun d => { d with builtins := d.builtins ++ [(b, e)] }
      return e) := by
    intro b' hb'
    have hrecord : FollowsWhere R (·.Offers (b.type b'.target).scalar) (do
        let t ← intern (Interning.primitive (b.type b'.target))
        let e ← pushNode t (.builtin b)
        if b = .fragDepth && b'.target = .webGL then enable .fragDepth
        modifyDecls fun d => { d with builtins := d.builtins ++ [(b, e)] }
        return e) := by
      refine .primitive_bind fun t => bind (follows_pushNode _ _ rfl) fun e => ?_
      split
      · exact bind (follows_enable _) fun _ => hadd e
      · exact hadd e
    exact hrecord b' fun hsupported =>
      Builtin.supportsScalar_type fun hcompute => hsupported.stage (hcompute ▸ hb')
  refine FollowsWhere.follows (.bind_delivers follows_stage.where delivers_stage fun s => ?_)
  refine .refuse fun hstage => ?_
  have hdeclare : FollowsWhere R (fun b' => b'.stage = some s) _ := hdeclare.of_imp fun b' hs => by
    rw [Builder.currentStage, hs, Option.map_some, not_not.mp hstage]
  split
  · exact (Follows.pure _).where
  · split
    · refine .bind_delivers (follows_require _).where (delivers_require _) fun _ => ?_
      exact hdeclare.of_imp fun _ hb => hb.1
    · exact hdeclare

end Build

end WebShader
