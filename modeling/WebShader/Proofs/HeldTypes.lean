import WebShader.Proofs.ClosedStages
import WebShader.Proofs.ScriptResults

/-!
# What variables hold

Local variables, parameters, uniforms and the variables of workgroups are of types that can be held,
in every scope of every stage, and functions give such values back if they give any. The check is
one of the type as it is: it refuses runtime-sized arrays and takes every struct, so that among
these types the runtime-sized ones are structs that end with a runtime-sized member.
-/

namespace WebShader

/-! ## Types -/

/-- Whether variables of a role may only be of types that can be held. -/
def Role.holdsValues : Role → Bool
  | localVar | param | uniform _ | workgroup => true
  | constant | texture _ | sampler _ | storage _ _ | input _ _ | output _ => false

namespace Registry

variable {r : Registry} {t : TypeId}

/-- A runtime-sized type is an array, or a struct whose last member is runtime-sized. -/
theorem isRuntimeSized_cases (h : r.isRuntimeSized t = true) :
    (∃ element, r.kind t = .array element 0) ∨
      ∃ st m, r.kind t = .struct st ∧ st.members.getLast? = some m ∧
        r.isRuntimeSized m.type = true := by
  rw [isRuntimeSized] at h
  cases hk : r.kind t with
  | array element n =>
      rw [hk] at h
      obtain rfl : n = 0 := by simpa using h
      exact Or.inl ⟨element, rfl⟩
  | struct st =>
      rw [hk] at h
      dsimp only at h
      cases hlast : st.members.getLast? with
      | none =>
          rw [hlast] at h
          cases h
      | some m =>
          rw [hlast] at h
          dsimp only at h
          split at h
          · exact Or.inr ⟨st, m, rfl, hlast, h⟩
          · cases h
  | void | primitive | pointer | texture | sampler =>
      rw [hk] at h
      cases h

/-- What can be held and is runtime-sized all the same is a struct. -/
theorem exists_last_of_isSized (hsized : (r.kind t).isSized = true)
    (h : r.isRuntimeSized t = true) :
    ∃ st m, r.kind t = .struct st ∧ st.members.getLast? = some m ∧
      r.isRuntimeSized m.type = true := by
  rcases isRuntimeSized_cases h with ⟨element, hk⟩ | hstruct
  · rw [hk] at hsized
    cases hsized
  · exact hstruct

/-- Pointers are not runtime-sized, and no role that holds values admits what cannot be held but for
them. -/
theorem isSized_of_admits {role : Role} (hrole : role.holdsValues = true)
    (hadmits : role.admits (r.kind t) = true) (h : r.isRuntimeSized t = true) :
    (r.kind t).isSized = true := by
  cases role with
  | localVar | uniform | workgroup => exact hadmits
  | param =>
      rcases isRuntimeSized_cases h with ⟨element, hk⟩ | ⟨st, m, hk, -⟩
      all_goals
        rw [hk] at hadmits ⊢
        exact hadmits
  | constant | texture | sampler | storage | input | output => cases hrole

/-- No function gives back what is runtime-sized, unless it is a struct. -/
theorem IsResult.isSized (ht : r.IsResult t) (h : r.isRuntimeSized t = true) :
    (r.kind t).isSized = true := by
  refine ht.resolve_left fun hvoid => ?_
  have hvoid : r.isVoid t = true := hvoid.2
  rcases isRuntimeSized_cases h with ⟨element, hk⟩ | ⟨st, m, hk, -⟩
  all_goals
    rw [isVoid, hk] at hvoid
    cases hvoid

end Registry

/-! ## Variables of statements -/

namespace Stmt

variable {ε : Type} {V : VarId → Prop} {A : ε → Prop}

/-- What a block declares is among what it may declare. -/
theorem BlockMeets.declaredBy {body : List (Stmt ε)} (h : BlockMeets V A body) :
    ∀ v ∈ declaredBy body, V v := by
  induction body with
  | nil => simp [Stmt.declaredBy]
  | cons s rest ih =>
      rw [Stmt.declaredBy, List.flatMap_cons, List.forall_mem_append]
      refine ⟨?_, ih h.2⟩
      cases s with
      | declare v => exact List.forall_mem_singleton.mpr h.1
      | assign | eval | conditional | forRange | whileDo | doWhile | block | returnWith
      | breakLoop | continueLoop | discard => simp [declared]

mutual

/-- What a statement declares in the scopes inside it. -/
theorem Meets.scopes : (s : Stmt ε) → s.Meets V A → ∀ scope ∈ s.scopes, ∀ v ∈ scope, V v
  | conditional branches (some otherwise), h => by
      rw [Stmt.scopes, List.forall_mem_append, List.forall_mem_cons]
      exact ⟨BranchesMeet.scopes branches h.2.1, h.2.2.declaredBy,
        BlockMeets.nestedScopes otherwise h.2.2⟩
  | conditional branches none, h => BranchesMeet.scopes branches h.2
  | forRange counter _ _ body, h => by
      rw [Stmt.scopes, List.forall_mem_cons, List.forall_mem_cons]
      exact ⟨⟨h.1, h.2.declaredBy⟩, BlockMeets.nestedScopes body h.2⟩
  | whileDo _ body, h | doWhile body _, h | block body, h =>
      List.forall_mem_cons.mpr ⟨BlockMeets.declaredBy h, BlockMeets.nestedScopes body h⟩
  | declare _ _, _ | assign _ _ _, _ | eval _, _ | returnWith _, _ | breakLoop, _
  | continueLoop, _ | discard, _ => by simp [Stmt.scopes]

/-- The inner scopes of a block declare what it may declare. -/
theorem BlockMeets.nestedScopes : (body : List (Stmt ε)) → BlockMeets V A body →
    ∀ scope ∈ nestedScopes body, ∀ v ∈ scope, V v
  | [], _ => by simp [Stmt.nestedScopes]
  | s :: rest, h => by
      rw [Stmt.nestedScopes, List.forall_mem_append]
      exact ⟨Meets.scopes s h.1, BlockMeets.nestedScopes rest h.2⟩

/-- The scopes of branches declare what the branches may declare. -/
theorem BranchesMeet.scopes : (branches : List (ε × List (Stmt ε))) → BranchesMeet V A branches →
    ∀ scope ∈ branchScopes branches, ∀ v ∈ scope, V v
  | [], _ => by simp [branchScopes]
  | (_, body) :: rest, h => by
      rw [branchScopes, List.forall_mem_append, List.forall_mem_cons]
      exact ⟨⟨h.1.declaredBy, BlockMeets.nestedScopes body h.1⟩, BranchesMeet.scopes rest h.2⟩

end

/-- All that a block declares, at any depth, and what it opens with. -/
theorem BlockMeets.blockScopes {heads : List VarId} {body : List (Stmt ε)}
    (h : BlockMeets V A body) (hheads : ∀ v ∈ heads, V v) :
    ∀ scope ∈ blockScopes heads body, ∀ v ∈ scope, V v :=
  List.forall_mem_cons.mpr
    ⟨List.forall_mem_append.mpr ⟨hheads, h.declaredBy⟩, h.nestedScopes⟩

end Stmt

/-! ## Stages -/

/-- The variables of a stage: its global ones, and those of every scope of its functions. -/
def BuiltStage.vars (st : BuiltStage) : List VarId :=
  st.decls.globals ++
    st.decls.functions.flatMap (fun fn => (Stmt.blockScopes fn.params fn.body).flatten) ++
      (Stmt.blockScopes [] st.main).flatten

/-- The variables of a stage are of types that their roles admit, and its functions have result
types. -/
structure BuiltStage.Holds (b : Builder) (st : BuiltStage) : Prop where
  vars : ∀ v ∈ st.vars, ∃ d, b.var? v = some d ∧ d.role.admits (b.types.kind d.type) = true
  results : ∀ fn ∈ st.decls.functions, b.types.IsResult fn.result

namespace BuiltStage

variable {b : Builder} {st : BuiltStage} {v : VarId} {d : Variable} {fn : Function}

/-- A stage that only involves its own variables has declared each of them. -/
theorem IsOwn.declares (h : st.IsOwn b) : ∀ v ∈ st.vars, b.Declares st.decls.stage v := by
  intro v hv
  simp only [vars, List.mem_append, List.mem_flatMap, List.mem_flatten] at hv
  rcases hv with (hglobal | ⟨fn, hfn, scope, hscope, hv⟩) | ⟨scope, hscope, hv⟩
  · exact h.globals v hglobal
  · obtain ⟨hparams, hbody⟩ := h.functions fn hfn
    exact Stmt.BlockMeets.blockScopes hbody hparams scope hscope v hv
  · exact Stmt.BlockMeets.blockScopes h.main (by simp) scope hscope v hv

/-- Of what a stage holds, only structs are runtime-sized, by their last member. -/
theorem Holds.exists_last (h : st.Holds b) (hv : v ∈ st.vars) (hd : b.var? v = some d)
    (hrole : d.role.holdsValues = true) (hsize : b.types.isRuntimeSized d.type = true) :
    ∃ s m, b.types.kind d.type = .struct s ∧ s.members.getLast? = some m ∧
      b.types.isRuntimeSized m.type = true := by
  obtain ⟨d', hd', hadmits⟩ := h.vars v hv
  obtain rfl := Option.some.inj (hd'.symm.trans hd)
  exact Registry.exists_last_of_isSized (Registry.isSized_of_admits hrole hadmits hsize) hsize

/-- Of what functions give back, only structs are runtime-sized. -/
theorem Holds.exists_last_of_result (h : st.Holds b) (hfn : fn ∈ st.decls.functions)
    (hsize : b.types.isRuntimeSized fn.result = true) :
    ∃ s m, b.types.kind fn.result = .struct s ∧ s.members.getLast? = some m ∧
      b.types.isRuntimeSized m.type = true :=
  Registry.exists_last_of_isSized ((h.results fn hfn).isSized hsize) hsize

end BuiltStage

/-! ## Scripts -/

namespace Script

open Authoring

/-- Whatever a script does in a stage, whichever of its steps fail, the stage holds what can be
held. -/
theorem stage_holds {s : Session} {n : Notes} (hs : s.Reachable) (hn : s.KnowsNames n)
    (which : Stage) (earlier : List VarId) (tolerant : Bool) (steps : Script) {built : BuiltStage}
    {closed : Builder × Notes}
    (hrun : (stage which earlier (body (runAll tolerant steps))).runFrom (s.builder, n) =
      (.ok built, closed)) : built.Holds closed.1 := by
  constructor
  · obtain ⟨-, -, hown⟩ := stage_isOwn (retains_body tolerant steps) hrun
    intro v hv
    obtain ⟨d, hd, -, hlaid⟩ := hown.declares v hv
    exact ⟨d, hd, hlaid.admits⟩
  · have hbody : Traces Builder.StaysConforming (body (runAll tolerant steps)) :=
      traces_body (traces_runAll tolerant steps)
    obtain ⟨authored, st, main, hauthored, hleads, hst, -, rfl, hclosed, -⟩ :=
      exists_session_of_stage hs hn hbody hrun
    have hconforms : authored.builder.Conforms :=
      (hleads.2 (s.builder.conforms_opened which)).1
    intro fn hfn
    rw [hclosed]
    exact ((hconforms st hst).functions fn hfn).isResult hauthored.typed.builder.sound

/-- A stage with a local variable that ends with a runtime-sized array. -/
def tailedStage : Except ShaderError BuiltStage × (Builder × Notes) :=
  let tailed : TypeShape := .struct "Tailed" .packed
    [("count", .scalar .u32), ("rest", .array (.scalar .f32) 0)]
  (stage .compute [] (body (runAll false
    [(false, .main [(false, .operation (.declareVar "tailed" tailed) none)])]))).runFrom
      (Builder.new { target := .webGPU }, {})

example : (tailedStage.2.1.vars.toList.map fun d =>
    (d.role, (tailedStage.2.1.types.kind d.type).parts.map tailedStage.2.1.types.kind)) =
      [(.localVar, [.primitive (.ofScalar .u32), .array ⟨1⟩ 0])] := by
  decide +kernel

end Script

end WebShader
