import WebShader.Proofs.Bodies
import WebShader.Proofs.ClosedStages
import WebShader.Proofs.IndifferentRelations
import WebShader.Proofs.OverloadSelection
import WebShader.Proofs.PrintedCalls

/-!
# Names of functions

Functions that share a name take parameters of different types, and are ranked in the order of
their definitions. GLSL ES has overloading, and tells them apart by the types that are spelled. WGSL
has none: there the ranks are appended to the names, and a name is only taken twice if a function
that shares its name with no other bears the ranked name of one that does.
-/

namespace WebShader

/-! ## Functions of a stage -/

/-- The functions of a name are as many as the stage has defined under it. -/
theorem StageDecls.length_overloads (d : StageDecls) (name : String) :
    (d.overloads name).length = d.functions.countP (·.name == name) := by
  have hsome : (List.range d.functions.length).map (d.functions[·]?) = d.functions.map some := by
    refine List.ext_getElem (by simp) fun i h h' => ?_
    have hi : i < d.functions.length := by simpa using h
    simp [List.getElem?_eq_getElem hi]
  calc (d.overloads name).length
      = ((List.range d.functions.length).map (d.functions[·]?)).countP
          (·.any (·.name == name)) := by
        rw [overloads, List.length_map, ← List.countP_eq_length_filter, List.countP_map]
        rfl
    _ = d.functions.countP (·.name == name) := by
        rw [hsome, List.countP_map]
        rfl

namespace Function

/-- Functions that can be told apart: those that share a name are ranked in the order of their
definitions, below their number, and take parameters of different types. -/
structure ToldApart (fs : List Function) : Prop where
  ranks : fs.Pairwise fun f g => f.name = g.name → f.rank < g.rank
  types : fs.Pairwise fun f g => f.name = g.name → f.paramTypes ≠ g.paramTypes
  lt_count : ∀ f ∈ fs, f.rank < fs.countP (·.name == f.name)

/-- A function that is ranked after those of its name, and takes other parameters than they do. -/
structure IsNew (fs : List Function) (f : Function) : Prop where
  rank : f.rank = fs.countP (·.name == f.name)
  types : ∀ g ∈ fs, g.name = f.name → g.paramTypes ≠ f.paramTypes

/-- No functions can be told apart. -/
theorem toldApart_nil : ToldApart [] := ⟨.nil, .nil, by simp⟩

/-- A new function can be told apart from those before it. -/
theorem ToldApart.concat {fs : List Function} {f : Function} (h : ToldApart fs) (hf : IsNew fs f) :
    ToldApart (fs ++ [f]) where
  ranks := by
    refine List.pairwise_append.mpr ⟨h.ranks, List.pairwise_singleton _ _, ?_⟩
    intro g hg f' hf' hname
    obtain rfl := List.mem_singleton.mp hf'
    have hlt := h.lt_count g hg
    rw [hname, ← hf.rank] at hlt
    exact hlt
  types := by
    refine List.pairwise_append.mpr ⟨h.types, List.pairwise_singleton _ _, ?_⟩
    intro g hg f' hf' hname
    obtain rfl := List.mem_singleton.mp hf'
    exact hf.types g hg hname
  lt_count g hg := by
    rw [List.countP_append]
    rcases List.mem_append.mp hg with hg | hg
    · exact Nat.lt_of_lt_of_le (h.lt_count g hg) (Nat.le_add_right _ _)
    · obtain rfl := List.mem_singleton.mp hg
      rw [hf.rank]
      simp

end Function

/-! ## Builders -/

/-- A stage that is restored has the functions that it had. -/
theorem OpenStage.Restores.functions_eq {s s' : OpenStage} (h : s.Restores s') :
    s'.decls.functions = s.decls.functions := by
  show s'.outline.decls.functions = s.outline.decls.functions
  rw [h.outline]

namespace Builder

variable {b b' : Builder} {f : Function} {fs : List Function}

/-- Variables of the given types, one each. -/
def TypesVars (b : Builder) : List VarId → List TypeId → Prop :=
  List.Forall₂ fun v t => ∃ d, b.var? v = some d ∧ d.type = t

/-- The parameters of a function are variables of its parameter types, which can be passed. -/
structure TypesParams (b : Builder) (f : Function) : Prop where
  params : b.TypesVars f.params f.paramTypes
  passes : b.Passes f.paramTypes

/-- The functions of the stage at hand can be told apart, and have the parameters that they tell. -/
def TellsApart (b : Builder) (fs : List Function) : Prop :=
  Function.ToldApart fs ∧ ∀ f ∈ fs, b.TypesParams f

/-- A builder goes on telling the functions of its stage apart. -/
def StaysApart (b b' : Builder) : Prop :=
  (∀ s, b.stage = some s → b.TellsApart s.decls.functions) →
    ∀ s, b'.stage = some s → b'.TellsApart s.decls.functions

/-- Variables keep their types as the builder grows. -/
theorem TypesVars.of_starts {vs : List VarId} {ts : List TypeId} (h : b.TypesVars vs ts)
    (hvars : b.vars.toList <+: b'.vars.toList) : b'.TypesVars vs ts :=
  h.imp fun _ _ ⟨d, hd, htype⟩ => ⟨d, getElem?_of_starts hvars hd, htype⟩

/-- Parameters keep their types as the builder grows. -/
theorem TypesParams.of_grows (h : b.TypesParams f) (hgrows : b.Grows b') : b'.TypesParams f :=
  ⟨h.params.of_starts hgrows.vars, Authoring.persists_passes _ b b' hgrows h.passes⟩

/-- Functions that can be told apart still can as the builder grows. -/
theorem TellsApart.of_grows (h : b.TellsApart fs) (hgrows : b.Grows b') : b'.TellsApart fs :=
  ⟨h.1, fun f hf => (h.2 f hf).of_grows hgrows⟩

/-- A function that is new can be told apart from those before it. -/
theorem TellsApart.concat (h : b.TellsApart fs) (hnew : Function.IsNew fs f)
    (hf : b.TypesParams f) : b.TellsApart (fs ++ [f]) :=
  ⟨h.1.concat hnew, List.forall_mem_append.mpr ⟨h.2, List.forall_mem_singleton.mpr hf⟩⟩

/-- A builder that grows, and whose stage has the functions that it had. -/
theorem staysApart_of_grows (hgrows : b.Grows b') (hstage : ∀ s', b'.stage = some s' →
    ∃ s, b.stage = some s ∧ s'.decls.functions = s.decls.functions) : b.StaysApart b' := by
  intro hb s' hs'
  obtain ⟨s, hs, hfunctions⟩ := hstage s' hs'
  rw [hfunctions]
  exact (hb s hs).of_grows hgrows

/-- Without a stage there are no functions. -/
theorem staysApart_of_none (h : b'.stage = none) : b.StaysApart b' := fun _ s hs => by
  rw [h] at hs
  cases hs

/-- A stage that is restored has the functions that it had. -/
theorem staysApart_of_restores (h : b.Restores b') : b.StaysApart b' := by
  rcases h with hkept | hlost
  · refine staysApart_of_grows hkept.toGrows fun s' hs' => ?_
    obtain ⟨s, hs, hrestores⟩ := hkept.exists_of_some hs'
    exact ⟨s, hs, hrestores.functions_eq⟩
  · exact staysApart_of_none hlost.stage

instance : IsAdditive StaysApart where
  refl _ := id
  trans _ _ _ h h' hb := h' (h hb)
  of_adds _ _ h := staysApart_of_restores (Or.inl (.of_adds h))

end Builder

namespace Build

open Builder (StaysApart)

/-- A change of the stage that leaves its functions alone. -/
theorem staysApart_modifyStage {f : OpenStage → OpenStage}
    (hf : ∀ s, (f s).decls.functions = s.decls.functions) : Follows StaysApart (modifyStage f) := by
  intro b
  cases hs : b.stage with
  | none =>
      rw [Builder.run_modifyStage_of_none hs]
      exact id
  | some s =>
      rw [Builder.run_modifyStage_of_some hs]
      refine Builder.staysApart_of_grows { b.grows_refl with } fun s' hs' => ⟨s, hs, ?_⟩
      rw [← Option.some.inj hs', hf]

/-- A new variable is of the type it is declared with. -/
theorem typesVars_of_run_newVar {b b' : Builder} {name : String} {t : TypeId} {role : Role}
    {init : Option NodeId} {x : VarId × Expr}
    (h : b.run (newVar name t role init) = (.ok x, b')) : b'.TypesVars [x.1] [t] := by
  rcases run_newVar_cases b name t role init with ⟨_, _, hrun, -⟩ | ⟨s, f, rest, e, -, -, -, hrun⟩
  · cases (Prod.mk.inj (hrun.symm.trans h)).1
  · obtain ⟨hx, rfl⟩ := Prod.mk.inj (hrun.symm.trans h)
    rw [← Except.ok.inj hx]
    refine .cons ⟨⟨name, t, role, s.decls.stage, init⟩, ?_, rfl⟩ .nil
    simp [Builder.var?, Builder.withVar, Builder.withFrame]

/-- A new variable is no function. -/
theorem staysApart_newVar (name : String) (t : TypeId) (role : Role) (init : Option NodeId) :
    Follows StaysApart (newVar name t role init) := by
  intro b
  rcases run_newVar_cases b name t role init with
    ⟨fault, b', hrun, rfl | ⟨d, rfl⟩⟩ | ⟨s, f, rest, e, hs, -, -, hrun⟩
  · rw [hrun]
    exact refl_of StaysApart b'
  · rw [hrun]
    exact Builder.staysApart_of_restores (Or.inl (b.kept_withVar d))
  · rw [hrun]
    refine Builder.staysApart_of_grows { b.grows_withVar _ with } fun s' hs' => ⟨s, hs, ?_⟩
    rw [← Option.some.inj hs']

instance : IsIndifferent StaysApart where
  newVar := staysApart_newVar
  modifyStage _ := staysApart_modifyStage

/-! ## Definitions of functions -/

/-- The stage that is found is the stage at hand. -/
theorem stage_of_run_stage {b b' : Builder} {s : OpenStage} (h : b.run stage = (.ok s, b')) :
    b.stage = some s := by
  cases ht : b.stage with
  | none =>
      rw [Builder.run_stage_of_none ht] at h
      cases (Prod.mk.inj h).1
  | some t =>
      rw [Builder.run_stage_of_some ht] at h
      rw [Except.ok.inj (Prod.mk.inj h).1]

/-- Parameters are of the types they are declared with. -/
theorem typesVars_of_run_declareParams {params : List (String × TypeId)} {b b' : Builder}
    {xs : List (VarId × Expr)} (h : b.run (declareParams params) = (.ok xs, b')) :
    b'.TypesVars (xs.map (·.1)) (params.map (·.2)) := by
  induction params generalizing b xs with
  | nil =>
      rw [← Except.ok.inj (Prod.mk.inj h).1]
      exact .nil
  | cons param params ih =>
      unfold declareParams at h
      obtain ⟨x, b₁, hx, h⟩ := Builder.run_bind_eq_ok_iff.mp h
      obtain ⟨rest, b₂, hrest, h⟩ := Builder.run_bind_eq_ok_iff.mp h
      obtain ⟨hxs, rfl⟩ := Prod.mk.inj h
      rw [← Except.ok.inj hxs]
      have hgrows : b₁.Grows b₂ := by
        have hkept := Authoring.kept_declareParams params b₁
        rw [hrest] at hkept
        exact hkept.toGrows
      obtain ⟨hfirst, -⟩ := List.forall₂_cons.mp
        ((typesVars_of_run_newVar hx).of_starts hgrows.vars)
      exact .cons hfirst (ih hrest)

/-- The types of parameters are as many as the parameters. -/
theorem length_of_run_paramTypes {function : String} {params : List (String × TypeShape)}
    {types : List TypeId} {b b' : Builder}
    (h : b.run (paramTypes function params) = (.ok types, b')) : types.length = params.length := by
  induction params generalizing b types with
  | nil => 
      rw [← Except.ok.inj (Prod.mk.inj h).1]
      rfl
  | cons param params ih =>
      obtain ⟨t, b₁, -, h⟩ := Builder.run_bind_eq_ok_iff.mp h
      rw [Builder.run_bind, Builder.run_get] at h
      dsimp only at h
      split at h
      · cases (Prod.mk.inj h).1
      · obtain ⟨rest, b₂, hrest, h⟩ := Builder.run_bind_eq_ok_iff.mp h
        obtain ⟨htypes, rfl⟩ := Prod.mk.inj h
        rw [← Except.ok.inj htypes, List.length_cons, ih hrest, List.length_cons]

/-- The functions that have been looked at take other parameters. -/
theorem ne_of_run_requireNewParams {name : String} {types : List TypeId} {fs : List FunctionId}
    {b b' : Builder} {s : OpenStage} (hs : b.stage = some s)
    (h : b.run (requireNewParams name types fs) = (.ok (), b')) :
    ∀ f ∈ fs, ∀ fn, s.decls.functions[f.index]? = some fn → fn.paramTypes ≠ types := by
  induction fs with
  | nil => simp
  | cons f fs ih =>
      obtain ⟨g, b₁, hg, h⟩ := Builder.run_bind_eq_ok_iff.mp h
      obtain rfl : b = b₁ := by
        have hreads := reads_function f b
        rwa [hg] at hreads
      split at h
      · cases (Prod.mk.inj h).1
      · rename_i hne
        refine List.forall_mem_cons.mpr ⟨fun fn hfn => ?_, ih h⟩
        rw [run_function_of_some hs hfn] at hg
        rwa [Except.ok.inj (Prod.mk.inj hg).1]

/-- A function is added at the end. -/
theorem run_addFunction_of_some {b : Builder} {s : OpenStage} (hs : b.stage = some s)
    (f : Function) : b.run (addFunction f) = (.ok ⟨s.decls.functions.length⟩, { b with
      stage := some { s with decls :=
        { s.decls with functions := s.decls.functions ++ [f] } } }) := by
  rw [addFunction, Builder.run_bind, Builder.run_stage_of_some hs]
  dsimp only
  rw [Builder.run_bind, modifyDecls, Builder.run_modifyStage_of_some hs]
  rfl

/-- A function is new if the functions of its name have been counted and looked at. -/
theorem isNew_of_run_requireNewParams {f : Function} {b b' : Builder} {s : OpenStage}
    (hs : b.stage = some s) (hrank : f.rank = (s.decls.overloads f.name).length)
    (h : b.run (requireNewParams f.name f.paramTypes (s.decls.overloads f.name)) = (.ok (), b')) :
    Function.IsNew s.decls.functions f where
  rank := by rw [hrank, StageDecls.length_overloads]
  types g hg hname := by
    obtain ⟨i, hi⟩ := List.mem_iff_getElem?.mp hg
    have hmem : (⟨i⟩ : FunctionId) ∈ s.decls.overloads f.name :=
      mem_overloads_iff.mpr ⟨g, hi, hname⟩
    exact ne_of_run_requireNewParams hs h ⟨i⟩ hmem g hi

end Build

namespace Authoring

open Builder (StaysApart)

variable {σ : Type} {s s' : Builder × σ}

/-- The parameters of a function stay declared while its body runs in their scope. -/
theorem typesVars_of_inScope {kind : ScopeKind} {params : List (String × TypeId)}
    {body : List Expr → Authoring σ Unit} (h : ∀ es, Follows Builder.Nests (body es))
    {vars : List VarId} {scope : Frame} (hrun : (inScope kind (do
      let declared ← Build.declareParams params
      body (declared.map (·.2))
      return declared.map (·.1))).runFrom s = (.ok (.ok vars, scope), s')) :
    s'.1.TypesVars vars (params.map (·.2)) := by
  obtain ⟨s₁, t, rest, hran, ht, -, rfl⟩ := runFrom_of_inScope hrun
  obtain ⟨declared, s₂, hdeclare, hran⟩ := runFrom_bind_eq_ok_iff.mp hran
  obtain ⟨_, s₃, hbody, hran⟩ := runFrom_bind_eq_ok_iff.mp hran
  obtain ⟨hvars, rfl⟩ := Prod.mk.inj hran
  rw [← Except.ok.inj hvars]
  have hnests := h (declared.map (·.2)) s₂
  rw [hbody] at hnests
  have hgrows : s₂.1.Grows s₃.1 := by
    rcases hnests with hkept | hlost
    · exact hkept.toGrows
    · cases ht.symm.trans hlost.stage
  exact (Build.typesVars_of_run_declareParams (run_of_runFrom hdeclare)).of_starts hgrows.vars

/-- A function is defined after the checks of its name and its parameters, from what its body leaves
of a scope of its own. -/
theorem runFrom_func_eq_ok {name : String} {params : List (String × TypeShape)}
    {body : List Expr → Authoring σ Unit} {i : FunctionId}
    (h : (func name params body).runFrom s = (.ok i, s')) :
    ∃ types b st vars scope s₁ result b₂, s.1.HasScope ∧
      s.1.run (Build.paramTypes name params) = (.ok types, b) ∧ b.stage = some st ∧
      b.run (Build.requireNewParams name types (st.decls.overloads name)) = (.ok (), b) ∧
      (inScope (.function false none) (do
        let declared ← Build.declareParams ((params.map (·.1)).zip types)
        body (declared.map (·.2))
        return declared.map (·.1))).runFrom (b, s.2) = (.ok (.ok vars, scope), s₁) ∧
      s₁.1.run (Build.resultType name scope) = (.ok result, b₂) ∧
      b₂.run (Build.addFunction
        { name, params := vars, paramTypes := types, result, body := scope.body,
          rank := (st.decls.overloads name).length }) = (.ok i, s'.1) := by
  obtain ⟨b, n⟩ := s
  obtain ⟨_, s₁, hcheck, h⟩ := runFrom_bind_eq_ok_iff.mp h
  obtain ⟨types, s₂, htypes, h⟩ := runFrom_bind_eq_ok_iff.mp h
  obtain ⟨st, s₃, hstage, h⟩ := runFrom_bind_eq_ok_iff.mp h
  obtain ⟨_, s₄, hnew, h⟩ := runFrom_bind_eq_ok_iff.mp h
  obtain ⟨⟨outcome, scope⟩, s₅, hscope, h⟩ := runFrom_bind_eq_ok_iff.mp h
  rw [runFrom_lift, Build.run_checkFunctionName_snd] at hcheck
  obtain ⟨hchecked, rfl⟩ := Prod.mk.inj hcheck
  have hglobal : b.HasScope := by
    rcases Build.run_checkFunctionName_cases b name with ⟨e, hrun⟩ | ⟨-, hglobal⟩
    · rw [hrun] at hchecked
      cases hchecked
    · intro st hst hnil
      have hlength := hglobal st hst
      simp [hnil] at hlength
  rw [runFrom_lift] at htypes
  obtain ⟨htyped, rfl⟩ := Prod.mk.inj htypes
  rw [runFrom_lift, Build.run_stage_snd] at hstage
  obtain ⟨hstaged, rfl⟩ := Prod.mk.inj hstage
  rw [runFrom_lift, ← Build.reads_requireNewParams] at hnew
  obtain ⟨hnewer, rfl⟩ := Prod.mk.inj hnew
  cases outcome with
  | error e => cases (Prod.mk.inj h).1
  | ok vars =>
      obtain ⟨result, s₆, hresult, hadd⟩ := runFrom_bind_eq_ok_iff.mp h
      refine ⟨types, _, st, vars, scope, s₅, result, s₆.1, hglobal, Prod.ext htyped rfl, ?_,
        Prod.ext hnewer (Build.reads_requireNewParams _ _ _ _).symm, hscope,
        run_of_runFrom hresult, run_of_runFrom hadd⟩
      exact Build.stage_of_run_stage (Prod.ext hstaged rfl)

/-- A function that is defined is new among those of its stage, and has the parameters it tells. -/
theorem exists_new_of_runFrom_func {name : String} {params : List (String × TypeShape)}
    {body : List Expr → Authoring σ Unit} (h : ∀ es, Follows Builder.Nests (body es))
    {i : FunctionId} (hrun : (func name params body).runFrom s = (.ok i, s')) :
    ∃ b st f, s.1.Kept OpenStage.Restores b ∧ b.stage = some st ∧
      Function.IsNew st.decls.functions f ∧ b.TypesParams f ∧
      b.run (Build.addFunction f) = (.ok i, s'.1) := by
  obtain ⟨types, b, st, vars, scope, s₁, result, b₂, hscoped, htypes, hst, hnew, hscope, hresult,
    hadd⟩ := runFrom_func_eq_ok hrun
  have hkept : s.1.Kept OpenStage.Restores b :=
    .of_adds ((Build.follows_paramTypes _ _).of_run htypes)
  have hadds : s₁.1.Adds b₂ := (Build.follows_resultType _ _).of_run hresult
  have hbody : b.Kept OpenStage.Restores b₂ := by
    have hrestores := restores_inScope (.function false none)
      (nests_params ((params.map (·.1)).zip types) h) (b, s.2) (hkept.hasScope hscoped)
    rw [hscope] at hrestores
    obtain ⟨_, t, rest, -, -, -, rfl⟩ := runFrom_of_inScope hscope
    rcases hrestores with hrestores | hlost
    · exact hrestores.trans (.of_adds hadds)
    · cases hlost.stage
  obtain ⟨st₂, hst₂, hrestores⟩ := hbody.exists_stage hst
  have htyped := typesVars_of_inScope h hscope
  rw [List.map_snd_zip (by simp [Build.length_of_run_paramTypes htypes])] at htyped
  refine ⟨b₂, st₂, _, hkept.trans hbody, hst₂, ?_, ⟨?_, ?_⟩, hadd⟩
  · rw [hrestores.functions_eq]
    exact Build.isNew_of_run_requireNewParams hst rfl hnew
  · exact htyped.of_starts hadds.grows.vars
  · exact persists_passes _ b b₂ hbody.toGrows (passes_of_run_paramTypes htypes)

/-- Functions can be told apart when one has been defined, or its definition has failed. -/
theorem staysApart_func (name : String) (params : List (String × TypeShape))
    {body : List Expr → Authoring σ Unit} (h : ∀ es, Follows Builder.Nests (body es)) :
    Follows StaysApart (func name params body) := by
  intro s
  rcases hrun : (func name params body).runFrom s with ⟨e | i, s'⟩
  · rcases Build.run_checkFunctionName_cases s.1 name with ⟨e', hfail⟩ | ⟨-, hglobal⟩
    · obtain rfl : s' = s := by
        rw [func, runFrom_bind, ← Prod.eta s, runFrom_lift, hfail] at hrun
        exact (Prod.mk.inj hrun).2.symm
      exact refl_of StaysApart s'.1
    · have hends := records_func name params h s fun st hst hnil => by
        have hlength := hglobal st hst
        simp [hnil] at hlength
      rw [hrun] at hends
      exact Builder.staysApart_of_restores hends
  · obtain ⟨b, st, f, hkept, hst, hnew, hparams, hadd⟩ := exists_new_of_runFrom_func h hrun
    obtain ⟨-, hs'⟩ := Prod.mk.inj ((Build.run_addFunction_of_some hst f).symm.trans hadd)
    intro hs st' hst'
    have hb := Builder.staysApart_of_restores (Or.inl hkept) hs st hst
    rw [← hs'] at hst' ⊢
    rw [← Option.some.inj hst']
    exact (hb.concat hnew hparams).of_grows { b.grows_refl with }

end Authoring

/-! ## Stages of scripts -/

/-- Wherever scopes are kept, functions can be told apart, unless the stage is lost. -/
instance : IsStepwise (Builder.NestsAlong Builder.StaysApart) where
  config h := IsStepwise.config h.1
  of_lost hconfig hstage := ⟨IsStepwise.of_lost hconfig hstage, Builder.staysApart_of_none hstage⟩

namespace Script

open Authoring

/-- The functions of a body can be told apart. -/
theorem staysApart_body (tolerant : Bool) (steps : Script) :
    Follows Builder.StaysApart (body (runAll tolerant steps)) := by
  have hnests : Respected (Builder.NestsAlong Builder.StaysApart) :=
    respected_of_nests fun name params _ h _ => staysApart_func name params h
  exact fun s => (follows_body (follows_runAll hnests tolerant steps) s).2

/-- Whatever a script does in a stage, whichever of its steps fail, the functions of the stage that
share a name are ranked in the order of their definitions and take parameters of different types. -/
theorem stage_tellsApart {s s' : Builder × Notes} {which : Stage} {earlier : List VarId}
    {tolerant : Bool} {steps : Script} {built : BuiltStage}
    (hrun : (stage which earlier (body (runAll tolerant steps))).runFrom s = (.ok built, s')) :
    s'.1.TellsApart built.decls.functions := by
  have hinputs := Build.indifferent_inputsFrom (R := Builder.StaysApart) earlier
  obtain ⟨b, st, main, hapart, hst, -, rfl, hclosed⟩ :=
    exists_authored_of_stage (hinputs _) (staysApart_body tolerant steps) hrun
  have hopened : ∀ t, (s.1.opened which).stage = some t →
      (s.1.opened which).TellsApart t.decls.functions := by
    intro t ht
    rw [← Option.some.inj ht]
    exact ⟨Function.toldApart_nil, by simp⟩
  rw [hclosed]
  exact (hapart hopened st hst).of_grows { b.grows_refl with }

end Script

/-! ## Names in WGSL -/

/-- The name of a function with its rank. -/
def Function.rankedName (f : Function) : String := f.name ++ "_" ++ toString f.rank

/-- A ranked name tells the name and the rank. -/
theorem Function.rankedName_inj {f g : Function} (h : f.rankedName = g.rankedName) :
    f.name = g.name ∧ f.rank = g.rank := by
  have hmark : ∀ f : Function, f.rankedName.toList.reverse =
      (toString f.rank).toList.reverse ++ '_' :: f.name.toList.reverse := by
    intro f
    simp [Function.rankedName, String.toList_append]
  have hdigits : ∀ f : Function, '_' ∉ (toString f.rank).toList.reverse := fun f hmem =>
    not_mem_toList_toString (by decide) f.rank (List.mem_reverse.mp hmem)
  have hlist := congrArg (fun name : String => name.toList.reverse) h
  simp only [hmark] at hlist
  obtain ⟨hrank, hname⟩ := append_cons_inj (hdigits f) (hdigits g) hlist
  exact ⟨String.toList_injective (List.reverse_injective hname),
    toString_nat_inj (List.reverse_injective hrank)⟩

namespace ResolvedStage

variable {s : ResolvedStage} {f g : Function}

/-- A function shares its name with another one. -/
def IsOverloaded (s : ResolvedStage) (f : Function) : Prop :=
  1 < (s.decls.overloads f.name).length

/-- An overloaded function is named with its rank in WGSL. -/
theorem functionName_of_overloaded (htarget : s.target = .webGPU) (h : s.IsOverloaded f) :
    s.functionName f = f.rankedName :=
  if_pos (by simpa [IsOverloaded, htarget] using h)

/-- A function that is alone has its own name. -/
theorem functionName_of_alone (h : ¬ s.IsOverloaded f) : s.functionName f = f.name :=
  if_neg fun hboth => h (by simpa [IsOverloaded] using (Bool.and_eq_true_iff.mp hboth).2)

/-- The names of two functions are only the same if one of them shares its name, and the other one
does not and bears the ranked name of the first. -/
theorem pairwise_functionName (h : Function.ToldApart s.decls.functions)
    (htarget : s.target = .webGPU) :
    s.decls.functions.Pairwise fun f g => s.functionName f = s.functionName g →
      (s.IsOverloaded f ∧ ¬ s.IsOverloaded g ∧ g.name = f.rankedName) ∨
        (s.IsOverloaded g ∧ ¬ s.IsOverloaded f ∧ f.name = g.rankedName) := by
  refine h.ranks.imp_of_mem fun {f g} _ hg hranks heq => ?_
  by_cases hf : s.IsOverloaded f
  · by_cases hg' : s.IsOverloaded g
    · rw [functionName_of_overloaded htarget hf, functionName_of_overloaded htarget hg'] at heq
      obtain ⟨hname, hrank⟩ := Function.rankedName_inj heq
      exact absurd (hranks hname) (by omega)
    · rw [functionName_of_overloaded htarget hf, functionName_of_alone hg'] at heq
      exact Or.inl ⟨hf, hg', heq.symm⟩
  · by_cases hg' : s.IsOverloaded g
    · rw [functionName_of_alone hf, functionName_of_overloaded htarget hg'] at heq
      exact Or.inr ⟨hg', hf, heq⟩
    · rw [functionName_of_alone hf, functionName_of_alone hg'] at heq
      -- the second of two functions of a name is not ranked first
      have hlt := h.lt_count g hg
      have hrank := hranks heq
      rw [← StageDecls.length_overloads] at hlt
      exact absurd (show s.IsOverloaded g by unfold IsOverloaded; omega) hg'

/-- The names of functions are distinct exactly if no function that is alone with its name bears the
ranked name of one that is not. -/
theorem nodup_functionNames_iff (h : Function.ToldApart s.decls.functions)
    (htarget : s.target = .webGPU) : (s.decls.functions.map s.functionName).Nodup ↔
      ∀ f ∈ s.decls.functions, ∀ g ∈ s.decls.functions, s.IsOverloaded f → ¬ s.IsOverloaded g →
        g.name ≠ f.rankedName := by
  constructor
  · intro hnodup f hf g hg hover halone hname
    have heq : s.functionName f = s.functionName g := by
      rw [functionName_of_overloaded htarget hover, functionName_of_alone halone, hname]
    exact halone (List.inj_on_of_nodup_map hnodup hf hg heq ▸ hover)
  · intro hbears
    refine List.pairwise_map.mpr ((pairwise_functionName h htarget).imp_of_mem ?_)
    intro f g hf hg hpair heq
    rcases hpair heq with ⟨hover, halone, hname⟩ | ⟨hover, halone, hname⟩
    · exact hbears f hf g hg hover halone hname
    · exact hbears g hg f hf hover halone hname

/-- Where names are distinct, a name that is called designates one function. -/
theorem callName?_inj (h : (s.decls.functions.map s.functionName).Nodup) {i j : FunctionId}
    {name : String} (hi : s.callName? i = some name) (hj : s.callName? j = some name) : i = j := by
  rw [callName?, StageDecls.function?, ← List.getElem?_map] at hi hj
  have hlt := (List.getElem?_eq_some_iff.mp hi).1
  have hindex := (List.getElem?_inj hlt h).mp (hi.trans hj.symm)
  cases i
  cases j
  exact congrArg FunctionId.mk hindex

end ResolvedStage

/-! ## Types in GLSL ES -/

namespace Glsl

variable {r : Registry} {target : Target}

/-- A type that can be stored is spelled by its kind. -/
theorem typeName_cases {t : TypeId} {name : TypeName} (ht : (r.kind t).isStorable = true)
    (h : typeName r target t = .ok name) :
    (∃ p, r.kind t = .primitive p ∧ name = .primitive p) ∨
      (∃ st, r.kind t = .struct st ∧ name = .struct st.name) ∨
      ∃ element n inner, r.kind t = .array element n ∧ typeName r target element = .ok inner ∧
        name = .array inner n := by
  rw [typeName] at h
  cases hk : r.kind t with
  | primitive p =>
      rw [hk] at h
      exact Or.inl ⟨p, rfl, (Except.ok.inj h).symm⟩
  | struct st =>
      rw [hk] at h
      exact Or.inr (Or.inl ⟨st, rfl, (Except.ok.inj h).symm⟩)
  | array element n =>
      rw [hk] at h
      dsimp only at h
      split_ifs at h
      obtain ⟨inner, hinner, rfl⟩ := map_eq_ok_iff.mp h
      exact Or.inr (Or.inr ⟨element, n, inner, rfl, hinner, rfl⟩)
  | void | pointer | texture | sampler =>
      rw [hk] at ht
      cases ht

/-- Types that can be stored are spelled by different trees. -/
theorem typeName_inj (hr : r.Sound) {t u : TypeId} {name : TypeName}
    (ht : (r.kind t).isStorable = true) (hu : (r.kind u).isStorable = true)
    (h : typeName r target t = .ok name) (h' : typeName r target u = .ok name) : t = u := by
  rcases typeName_cases ht h with
    ⟨p, hk, rfl⟩ | ⟨st, hk, rfl⟩ | ⟨element, n, inner, hk, hinner, rfl⟩
  · rcases typeName_cases hu h' with ⟨p', hk', heq⟩ | ⟨_, _, heq⟩ | ⟨_, _, _, _, _, heq⟩
    · rw [TypeName.primitive.inj heq] at hk
      exact hr.eq_of_kind rfl hk hk'
    all_goals cases heq
  · rcases typeName_cases hu h' with ⟨_, _, heq⟩ | ⟨st', hk', heq⟩ | ⟨_, _, _, _, _, heq⟩
    · cases heq
    · exact hr.name_inj t u st st' hk hk' (TypeName.struct.inj heq)
    · cases heq
  · rcases typeName_cases hu h' with
      ⟨_, _, heq⟩ | ⟨_, _, heq⟩ | ⟨element', n', inner', hk', hinner', heq⟩
    · cases heq
    · cases heq
    · obtain ⟨rfl, rfl⟩ := TypeName.array.inj heq
      -- the type of the elements comes before the type of the array
      have hdown : element.index < t.index :=
        hr.wellFormed t element (by rw [hk]; simp [TypeKind.parts])
      obtain rfl : element = element' := typeName_inj hr (hr.valid_of_kind hk).1
        (hr.valid_of_kind hk').1 hinner hinner'
      exact hr.eq_of_kind rfl hk hk'
termination_by t.index

/-- A type that can be passed and is spelled can be stored: pointers are not spelled. -/
theorem isStorable_of_typeName {t : TypeId} {name : TypeName}
    (ht : Role.param.admits (r.kind t) = true) (h : typeName r target t = .ok name) :
    (r.kind t).isStorable = true := by
  cases hk : r.kind t with
  | primitive | struct | array => rfl
  | pointer =>
      rw [typeName, hk] at h
      cases h
  | void | texture | sampler =>
      rw [hk] at ht
      cases ht

/-- The parameters of a function are printed with the types that it tells. -/
theorem types_of_params {s : ResolvedStage} {f : WebShader.Function × List (WebShader.Stmt Term)}
    {g : Function} (h : function s f = .ok g) {ts : List TypeId}
    (hparams : List.Forall₂ (fun v t => ∃ d, s.vars[v.index]? = some d ∧ d.type = t)
      f.1.params ts) :
    List.Forall₂ (fun t name => typeName s.types s.target t = .ok name) ts
      (g.params.map (·.type)) := by
  simp only [function, bind_eq_ok_iff] at h
  obtain ⟨result, -, params, hprinted, body, -, h⟩ := h
  rw [← Except.ok.inj h]
  refine List.forall₂_map_right_iff.mpr
    (forall₂_of_forall₂ hparams (mapM_eq_ok_iff.mp hprinted) fun v t p hv hp => ?_)
  obtain ⟨d, hd, rfl⟩ := hv
  simp only [field, bind_eq_ok_iff] at hp
  obtain ⟨d', hd', name, hname, hp⟩ := hp
  obtain rfl := Option.some.inj ((ResolvedStage.var_eq_ok_iff.mp hd').symm.trans hd)
  rw [← Except.ok.inj hp]
  exact hname

/-- A printed function bears the name of the one it is printed from, and spells its parameter
types. -/
structure Signs (s : ResolvedStage) (f : WebShader.Function) (g : Function) : Prop where
  name : g.name = f.name
  types : List.Forall₂ (fun t name => (s.types.kind t).isStorable = true ∧
    typeName s.types s.target t = .ok name) f.paramTypes (g.params.map (·.type))

/-- The functions of a module have the parameters they were defined with. -/
theorem Module.Of.signs {s : ResolvedStage} {m : Module} (h : Module.Of s m) {b : Builder}
    {plan : Binding.Plan} {st : BuiltStage} (hs : b.resolve plan st = .ok s)
    (hparams : ∀ f ∈ st.decls.functions, b.TypesParams f) :
    List.Forall₂ (Signs s) st.decls.functions m.functions := by
  obtain ⟨-, hvars, -, -, -, hfunctions, -⟩ := Builder.resolve_eq_ok hs
  have htypes := Builder.types_of_resolve hs
  have hparamed := (List.forall₂_and_left (p := b.TypesParams) _ _).mpr ⟨hparams, hfunctions⟩
  refine forall₂_of_forall₂ hparamed.flip h.functions fun x f g ⟨hf, hx⟩ hg => ?_
  obtain ⟨rfl, -⟩ := Builder.resolveFunction_eq_ok hx
  have hvar : List.Forall₂ (fun v t => ∃ d, s.vars[v.index]? = some d ∧ d.type = t)
      x.1.params x.1.paramTypes := by
    rw [hvars]
    exact hf.params
  have hpassed := (List.forall₂_and_left (p := fun t => Role.param.admits (s.types.kind t) = true)
    _ _).mpr ⟨htypes ▸ hf.passes, types_of_params hg hvar⟩
  exact ⟨(function_eq_ok hg).1,
    hpassed.imp fun t name ⟨ht, hname⟩ => ⟨isStorable_of_typeName ht hname, hname⟩⟩

/-- No two functions of a source that share a name spell the same parameter types. -/
theorem Module.Of.nodup_signatures {s : ResolvedStage} {m : Module} (h : Module.Of s m)
    {b : Builder} {plan : Binding.Plan} {st : BuiltStage} (hs : b.resolve plan st = .ok s)
    (hsound : b.types.Sound) (hapart : b.TellsApart st.decls.functions) :
    (m.functions.map fun g => (g.name, g.params.map (·.type))).Nodup := by
  rw [← Builder.types_of_resolve hs] at hsound
  have hunique : Relator.LeftUnique fun t name => (s.types.kind t).isStorable = true ∧
      typeName s.types s.target t = .ok name :=
    fun t u name ht hu => typeName_inj hsound ht.1 hu.1 ht.2 hu.2
  refine List.pairwise_map.mpr (pairwise_of_forall₂ (h.signs hs hapart.2) hapart.1.types ?_)
  intro f f' g g' hg hg' hne heq
  obtain ⟨hname, htypes⟩ := Prod.mk.inj heq
  refine hne (hg.name.symm.trans (hname.trans hg'.name)) ?_
  exact hunique.forall₂ hg.types (htypes ▸ hg'.types)

end Glsl

/-! ## Sources of scripts -/

namespace Script

open Authoring

/-- In the source of a stage that a script builds, whichever of its steps fail, and whatever has
been recorded when it is resolved, functions can be told apart: in WGSL their names are distinct
exactly if no function that is alone with its name bears the ranked name of one that is not, and in
GLSL ES their names together with the types of their parameters are distinct. -/
theorem stage_functions_distinct {s s' : Builder × Notes} {which : Stage} {earlier : List VarId}
    {tolerant : Bool} {steps : Script} {built : BuiltStage}
    (hrun : (stage which earlier (body (runAll tolerant steps))).runFrom s = (.ok built, s'))
    {b : Builder} (hgrows : s'.1.Grows b) (hsound : b.types.Sound) {plan : Binding.Plan}
    {resolved : ResolvedStage} (hresolved : b.resolve plan built = .ok resolved) :
    (resolved.target = .webGPU → ∀ m, Wgsl.module resolved = .ok m →
      ((m.functions.map (·.name)).Nodup ↔ ∀ f ∈ built.decls.functions, ∀ g ∈ built.decls.functions,
        resolved.IsOverloaded f → ¬ resolved.IsOverloaded g → g.name ≠ f.rankedName)) ∧
    (resolved.target ≠ .webGPU → ∀ m, Glsl.module resolved = .ok m →
      (m.functions.map fun g => (g.name, g.params.map (·.type))).Nodup) := by
  have hapart := (stage_tellsApart hrun).of_grows hgrows
  have hdecls := (Builder.resolve_eq_ok hresolved).2.2.2.1
  constructor
  · intro htarget m hm
    have hnames := (Wgsl.Module.Of.lowers (Wgsl.Module.of_module hm)).names_eq hresolved
    rw [List.map_map] at hnames
    rw [show m.functions.map (·.name) = _ from hnames, ← hdecls]
    exact ResolvedStage.nodup_functionNames_iff (hdecls ▸ hapart.1) htarget
  · intro _ m hm
    exact (Glsl.Module.of_module hm).nodup_signatures hresolved hsound hapart

/-- The names that the functions of a stage are printed under in WGSL. -/
def printedNames (steps : Script) : Except ShaderError (List String) := do
  let run := (stage .compute [] (body (runAll false steps))).runFrom
    (Builder.new { target := .webGPU }, {})
  let resolved ← run.2.1.resolve {} (← run.1)
  return (← Wgsl.module resolved).functions.map (·.name)

-- the name of the third function is not checked against the ranked names of the others
example : (printedNames [(false, .func "f" [("x", .scalar .f32)] []),
    (false, .func "f" [("x", .scalar .i32)] []), (false, .func "f_0" [("x", .scalar .f32)] []),
    (false, .main [])]).toOption = some ["f_0", "f_1", "f_0"] := by
  decide +kernel

end Script

end WebShader
