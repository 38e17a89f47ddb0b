import WebShader.Proofs.ResolvedStages

/-!
# What the names of programs refer to

The name that a source prints for a variable refers to the declaration of that variable, whenever
its scope is open where it is used and no scope further in has declared the name by then. Names are
not changed when they are declared again further in: an author may hide a variable and still use
the expression that stands for it, whose name then refers to the variable that hides it.
-/

namespace WebShader

/-! ## Sources of stages -/

/-- A text is the source of a stage, and the names of its expressions refer to what they should. -/
inductive ResolvedStage.NamesResolve (s : ResolvedStage) (text : String) : Prop
  | wgsl {m : Wgsl.Module} : s.target = .webGPU → Wgsl.module s = .ok m →
      text = m.text s.indentWidth →
      List.Forall₂ (s.Resolves (Wgsl.spelling s) (m.declarations s)) m.uses (s.places true) →
      NamesResolve s text
  | glsl {m : Glsl.Module} : s.target ≠ .webGPU → Glsl.module s = .ok m →
      text = m.text s.indentWidth →
      List.Forall₂ (s.Resolves (Glsl.spelling s) (Glsl.declarations s)) m.uses (s.places false) →
      NamesResolve s text

/-- The names in the source of a sound stage refer to what they should. -/
theorem ResolvedStage.IsSound.namesResolve {s : ResolvedStage} (h : s.IsSound)
    (hstage : s.target ≠ .webGPU → s.stage ≠ .compute) {text : String} (htext : s.text = .ok text) :
    s.NamesResolve text := by
  rcases ResolvedStage.text_eq_ok htext with ⟨htarget, m, hm, rfl⟩ | ⟨htarget, m, hm, rfl⟩
  · have hof := Wgsl.Module.of_module hm
    refine .wgsl htarget hm rfl ?_
    have hprints := hof.prints
    rw [hof.globalNames_eq h] at hprints
    exact (hof.declares h).forall₂_resolves h.locals hprints
  · have hof := Glsl.Module.of_module hm
    refine .glsl htarget hm rfl ?_
    have hprints := hof.prints
    rw [hof.globalNames_eq h (hstage htarget)] at hprints
    exact (Glsl.declares h htarget).forall₂_resolves h.locals hprints

/-- The source of a stage that has been built is the text of the stage resolved, and its names refer
to what they should. -/
def Builder.NamesResolve (b : Builder) (plan : Binding.Plan) (st : BuiltStage)
    (src : StageSource) : Prop :=
  ∃ s, b.resolve plan st = .ok s ∧ s.NamesResolve src.text

/-- The names of the source of a sound stage resolve. -/
theorem BuiltStage.Sound.namesResolve {b : Builder} {plan : Binding.Plan} {st : BuiltStage}
    {stages : List BuiltStage} {r r' : Registry} {src : StageSource}
    (h : st.Sound b.target b.vars)
    (hplan : r.run (Binding.plan b.target b.vars stages) = (.ok plan, r'))
    (hsrc : b.source plan st = .ok src) (hst : st ∈ stages)
    (hunique : ∀ st' ∈ stages, st'.decls.stage = st.decls.stage → st' = st)
    (hstage : b.target ≠ .webGPU → st.decls.stage ≠ .compute) : b.NamesResolve plan st src := by
  obtain ⟨s, hs, htext⟩ := Builder.source_eq_ok hsrc
  obtain ⟨htarget, -, -, hdecls, -⟩ := Builder.resolve_eq_ok hs
  refine ⟨s, hs, ?_⟩
  refine (h.isSound hplan hs hst hunique).namesResolve ?_ htext
  rwa [htarget, ResolvedStage.stage, hdecls]

/-! ## Programs -/

namespace Authoring

variable {σ : Type}

section Compilation

variable {s s' : Builder × σ}

/-- The names of a program that draws refer to what they should. -/
theorem names_of_compileRender {label : String} {vertex fragment : Authoring σ Unit}
    {program : RenderProgram} (hv : Follows Builder.Keeps vertex)
    (hf : Follows Builder.Keeps fragment)
    (h : (compileRender label vertex fragment).runFrom s = (.ok program, s')) :
    ∃ v f plan b, RenderStages vertex fragment s v f plan b ∧
      b.NamesResolve plan v program.vertex ∧ b.NamesResolve plan f program.fragment := by
  obtain ⟨v, f, plan, b, hstages, hvsrc, hfsrc⟩ := renderStages_of_compileRender h
  obtain ⟨s₁, s₂, hvertex, hfragment, hbind⟩ := hstages
  obtain ⟨htarget, hvars, r', hbound⟩ := run_bindStages_eq_ok hbind
  obtain ⟨hvconfig, hvstage, hvsound, -⟩ := stage_sound hv hvertex
  obtain ⟨hfconfig, hfstage, hfsound, hextends⟩ := stage_sound hf hfragment
  -- the variables of the vertex stage are still there
  have hvsound : v.Sound b.target b.vars := by
    have htarget' : b.target = s.1.target := by
      rw [htarget, Builder.target, hfconfig, hvconfig]
      rfl
    rw [htarget', hvars]
    exact hvsound.extends hextends
  have hfsound : f.Sound b.target b.vars := by
    have htarget' : b.target = s₁.1.target := by
      rw [htarget, Builder.target, hfconfig]
      rfl
    rw [htarget', hvars]
    exact hfsound
  refine ⟨v, f, plan, b, ⟨s₁, s₂, hvertex, hfragment, hbind⟩, ?_, ?_⟩
  · refine hvsound.namesResolve hbound hvsrc (by simp) ?_ (by simp [hvstage])
    intro st hst hstage
    rcases List.mem_pair.mp hst with rfl | rfl
    · rfl
    · rw [hfstage, hvstage] at hstage
      cases hstage
  · refine hfsound.namesResolve hbound hfsrc (by simp) ?_ (by simp [hfstage])
    intro st hst hstage
    rcases List.mem_pair.mp hst with rfl | rfl
    · rw [hfstage, hvstage] at hstage
      cases hstage
    · rfl

/-- The names of a program that computes refer to what they should. -/
theorem names_of_compileCompute {label : String} {body : Authoring σ Unit}
    {program : ComputeProgram} (hbody : Follows Builder.Keeps body)
    (h : (compileCompute label body).runFrom s = (.ok program, s')) :
    ∃ c plan b, ComputeStage body s c plan b ∧ b.NamesResolve plan c program.compute := by
  obtain ⟨hwebGPU, c, plan, b, ⟨s₁, hstage, hbind⟩, hsrc⟩ := computeStage_of_compileCompute h
  obtain ⟨htarget, hvars, r', hbound⟩ := run_bindStages_eq_ok hbind
  obtain ⟨hconfig, -, hsound, -⟩ := stage_sound hbody hstage
  have htarget' : b.target = s.1.target := by
    rw [htarget, Builder.target, hconfig]
    rfl
  have hsound : c.Sound b.target b.vars := by
    rw [htarget', hvars]
    exact hsound
  refine ⟨c, plan, b, ⟨s₁, hstage, hbind⟩, ?_⟩
  refine hsound.namesResolve hbound hsrc (by simp) (by simp) fun hne => ?_
  exact absurd (htarget'.trans hwebGPU) hne

end Compilation

end Authoring

/-! ## Programs of scripts -/

namespace Script

open Authoring

/-- In every program that a script builds, for every target, the names of a source refer to the
declarations of the variables they are printed for, if those are used while their scopes are open;
but a name that scopes further in have declared by then refers to what they declare. -/
theorem names_resolve (label : String) (tolerant : Bool) :
    (∀ (vertex fragment : Script) (s s' : Builder × Notes) (program : RenderProgram),
      (render label (body (runAll tolerant vertex)) (body (runAll tolerant fragment))).runFrom s =
          (.ok program, s') →
        ∃ v f plan b, RenderStages (body (runAll tolerant vertex))
            (body (runAll tolerant fragment)) ({ s.1 with phase := .building }, s.2) v f plan b ∧
          b.NamesResolve plan v program.vertex ∧ b.NamesResolve plan f program.fragment) ∧
    ∀ (steps : Script) (s s' : Builder × Notes) (program : ComputeProgram),
      (compute label (body (runAll tolerant steps))).runFrom s = (.ok program, s') →
        ∃ c plan b, ComputeStage (body (runAll tolerant steps))
            ({ s.1 with phase := .building }, s.2) c plan b ∧
          b.NamesResolve plan c program.compute := by
  constructor
  · intro vertex fragment s s' program h
    obtain ⟨s₁, hcompile⟩ := compiled_of_asProgram h
    exact names_of_compileRender (keeps_body tolerant vertex) (keeps_body tolerant fragment)
      hcompile
  · intro steps s s' program h
    obtain ⟨s₁, hcompile⟩ := compiled_of_asProgram h
    exact names_of_compileCompute (keeps_body tolerant steps) hcompile

/-- A vertex stage that declares `x` and, in a block, `x` again, before it uses the first one. -/
def hidingVertex : Script :=
  [(false, .main [
    (false, .operation (.declareLocal "x" (.host (.int 1))) (some "outer")),
    (false, .scope [
      (false, .operation (.declareLocal "x" (.host (.int 2))) (some "inner")),
      (false, .operation (.declareLocal "y" (.named "outer")) none)])])]

/-- A stage that does nothing. -/
def idleStage : Script := [(false, .main [])]

/-- A program that draws, built by a new builder for a target. -/
def runHiding (target : Target) : Except ShaderError RenderProgram × (Builder × Notes) :=
  (render "p" (body (runAll false hidingVertex)) (body (runAll false idleStage))).runFrom
    (Builder.new { target }, {})

/-- A program that computes, built by a new builder for WGSL. -/
def runIdle : Except ShaderError ComputeProgram × (Builder × Notes) :=
  (compute "p" (body (runAll false idleStage))).runFrom (Builder.new { target := .webGPU }, {})

/-- The program with the hidden variable is built. -/
theorem isOk_runHiding : (runHiding .webGL2).1.isOk = true := by decide +kernel

/-- The program that does nothing is built. -/
theorem isOk_runIdle : runIdle.1.isOk = true := by decide +kernel

/-- Both kinds of programs are built. -/
theorem hiding_names_resolve :
    (∃ program s', runHiding .webGL2 = (.ok program, s') ∧ ∃ v f plan b,
      RenderStages (body (runAll false hidingVertex)) (body (runAll false idleStage))
        ({ Builder.new { target := .webGL2 } with phase := .building }, {}) v f plan b ∧
      b.NamesResolve plan v program.vertex ∧ b.NamesResolve plan f program.fragment) ∧
    ∃ program s', runIdle = (.ok program, s') ∧ ∃ c plan b,
      ComputeStage (body (runAll false idleStage))
        ({ Builder.new { target := .webGPU } with phase := .building }, {}) c plan b ∧
      b.NamesResolve plan c program.compute := by
  obtain ⟨program, s', hrender⟩ := exists_of_isOk isOk_runHiding
  obtain ⟨program', s'', hcompute⟩ := exists_of_isOk isOk_runIdle
  obtain ⟨hrenders, hcomputes⟩ := names_resolve "p" false
  constructor
  · exact ⟨program, s', hrender,
      hrenders hidingVertex idleStage (Builder.new { target := .webGL2 }, {}) s' program hrender⟩
  · exact ⟨program', s'', hcompute,
      hcomputes idleStage (Builder.new { target := .webGPU }, {}) s'' program' hcompute⟩

/-- The vertex stage of a program that draws, resolved. -/
def resolvedVertex (vertex fragment : Run Unit) (s : Builder × Notes) : Option ResolvedStage :=
  match (stage .vertex [] vertex).runFrom s with
  | (.error _, _) => none
  | (.ok v, s₁) =>
    match (stage .fragment v.decls.outputs fragment).runFrom s₁ with
    | (.error _, _) => none
    | (.ok f, s₂) =>
      match s₂.1.run (Build.bindStages [v, f]) with
      | (.error _, _) => none
      | (.ok plan, b) => (b.resolve plan v).toOption

/-- The vertex stage of a program that is built is resolved. -/
theorem resolvedVertex_eq {vertex fragment : Run Unit} {s : Builder × Notes} {v f : BuiltStage}
    {plan : Binding.Plan} {b : Builder} {resolved : ResolvedStage}
    (h : RenderStages vertex fragment s v f plan b) (hs : b.resolve plan v = .ok resolved) :
    resolvedVertex vertex fragment s = some resolved := by
  obtain ⟨s₁, s₂, hv, hf, hb⟩ := h
  simp only [resolvedVertex, hv, hf, hb, hs]
  rfl

/-- A variable that is mentioned at a place, where it is still open, is spelled by a name that
refers to others. -/
def Captured (s : ResolvedStage) (q : Place Term) : Prop :=
  ∃ e ∈ q.exprs, ∃ scope ∈ q.opened, ∃ v ∈ scope, .var v ∈ e.mentions ∧
    ∃ name ∈ Glsl.spelling s (.var v), referents name (q.scopes s.vars (Glsl.declarations s)) ≠ [] ∧
      ∀ d ∈ referents name (q.scopes s.vars (Glsl.declarations s)), v ∉ d.holds

instance (s : ResolvedStage) (q : Place Term) : Decidable (Captured s q) := by
  unfold Captured
  infer_instance

/-- The first `x` is hidden where it is used: its name refers to the second one. -/
theorem hidden_variable_is_captured :
    ∃ program s', runHiding .webGL2 = (.ok program, s') ∧ ∃ v f plan b,
      RenderStages (body (runAll false hidingVertex)) (body (runAll false idleStage))
        ({ Builder.new { target := .webGL2 } with phase := .building }, {}) v f plan b ∧
      ∃ s, b.resolve plan v = .ok s ∧ s.NamesResolve program.vertex.text ∧
        ∃ q ∈ s.places false, Captured s q := by
  obtain ⟨program, s', hrender⟩ := exists_of_isOk isOk_runHiding
  obtain ⟨s₁, hcompile⟩ := compiled_of_asProgram hrender
  obtain ⟨v, f, plan, b, hstages, ⟨s, hs, hnames⟩, -⟩ :=
    names_of_compileRender (keeps_body false hidingVertex) (keeps_body false idleStage) hcompile
  have hcaptured : (resolvedVertex (body (runAll false hidingVertex))
      (body (runAll false idleStage))
      ({ Builder.new { target := .webGL2 } with phase := .building }, {})).all
        (fun s => (s.places false).any fun q => decide (Captured s q)) = true := by
    decide +kernel
  rw [resolvedVertex_eq hstages hs] at hcaptured
  obtain ⟨q, hq, hcaptured⟩ := List.any_eq_true.mp hcaptured
  exact ⟨program, s', hrender, v, f, plan, b, hstages, s, hs, hnames, q, hq,
    of_decide_eq_true hcaptured⟩

end Script

end WebShader
