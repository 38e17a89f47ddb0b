import WebShader.Proofs.BindingPartition
import WebShader.Proofs.GlslNames
import WebShader.Proofs.ScriptScopes
import WebShader.Proofs.WgslNames

/-!
# Resolved stages

A stage that has been built and bound is resolved into one whose scopes have names of their own and
whose resources are bound to records that it sees.
-/

namespace WebShader

open Registry (run_bind_eq_ok_iff)

/-! ## Records of a stage -/

namespace Binding

section Plans

variable {target : Target} {vars : Array Variable} {stages : List BuiltStage} {r r' : Registry}
  {p : Plan} {st : BuiltStage} {v : VarId} {d : Variable} {b : Record}

/-- A resource of a stage is one of the declarations of the program. -/
theorem mem_declarations_of_resource (hst : st ∈ stages) (hv : v ∈ st.decls.resources)
    (hd : vars[v.index]? = some d) (hrole : d.role ≠ .workgroup) :
    (v, { d with stage := st.decls.stage }) ∈ declarations vars stages := by
  refine List.mem_flatMap.mpr ⟨st, hst, List.mem_filterMap.mpr ⟨v, hv, ?_⟩⟩
  simp [hd, hrole]

/-- A declaration is one of a resource of a stage. -/
theorem exists_resource_of_mem_declarations {x : VarId × Variable}
    (h : x ∈ declarations vars stages) : ∃ st ∈ stages, x.1 ∈ st.decls.resources ∧
      ∃ d, vars[x.1.index]? = some d ∧ d.role ≠ .workgroup ∧
        x.2 = { d with stage := st.decls.stage } := by
  obtain ⟨st, hst, h⟩ := List.mem_flatMap.mp h
  obtain ⟨w, hw, h⟩ := List.mem_filterMap.mp h
  split at h
  · rename_i found hfound
    split_ifs at h with hrole
    rw [← Option.some.inj h]
    exact ⟨st, hst, hw, found, hfound, hrole, rfl⟩
  · cases h

/-- A stage that sees a record has declared each resource that is bound to it. -/
theorem Built.exists_resource {all : List Shared} {s : Shared} (h : Built target all all p.records)
    (hgathers : Gathers (declarations vars stages) all) (hs : s ∈ all) (hb : b ∈ p.records)
    (howns : b.Owns s) {stage : Stage} (hseen : b.visibility.has stage = true) :
    ∃ st ∈ stages, st.decls.stage = stage ∧ ∃ v ∈ st.decls.resources, p.recordOf? v = some b ∧
      ∃ d, vars[v.index]? = some d ∧ d.role ≠ .workgroup ∧ d.name = s.name ∧ d.type = s.type ∧
        d.role = s.role := by
  have hbound := h.boundTo hgathers hs hb howns
  obtain ⟨x, hx, hxname, hxstage⟩ := (hbound.seen stage).mp hseen
  obtain ⟨htype, hrole⟩ := hgathers.agree s hs x hx hxname
  obtain ⟨st, hst, hresource, d, hd, hworkgroup, heq⟩ := exists_resource_of_mem_declarations hx
  rw [heq] at hxname hxstage htype hrole
  exact ⟨st, hst, hxstage, x.1, hresource, hbound.record x hx (heq ▸ hxname), d, hd, hworkgroup,
    hxname, htype, hrole⟩

/-- A resource of a stage is bound to a record that the stage sees. -/
theorem exists_record_of_plan (h : r.run (plan target vars stages) = (.ok p, r'))
    (hst : st ∈ stages) (hv : v ∈ st.decls.resources) (hd : vars[v.index]? = some d)
    (hrole : d.role ≠ .workgroup) :
    ∃ b ∈ p.visibleFrom st.decls.stage, p.recordOf? v = some b ∧
      (d.role.isUniform = false → b.name = d.name) := by
  obtain ⟨all, hgathers, hbind⟩ := plan_eq_ok h
  have hbuilt := built_bindAll Built.nil hbind
  rw [List.nil_append] at hbuilt
  have hmem := mem_declarations_of_resource hst hv hd hrole
  obtain ⟨s, hs, hname⟩ := hgathers.exists_shared hmem
  obtain ⟨b, hb, howns⟩ := hbuilt.exists_owner hs
  have hbound := hbuilt.boundTo hgathers hs hb howns
  refine ⟨b, mem_visibleFrom.mpr ⟨hb, ?_⟩, hbound.record _ hmem hname.symm, fun huniform => ?_⟩
  · exact (hbound.seen st.decls.stage).mpr ⟨_, hmem, hname.symm, rfl⟩
  · have hagree := (hgathers.agree s hs _ hmem hname.symm).2
    dsimp only at hagree hname
    rcases howns.2 with ⟨g, hg, -⟩ | ⟨-, -, hown⟩
    · rw [hagree, hg] at huniform
      cases huniform
    · rw [hown, hname]

/-- A record that a stage sees, neither a block nor generated, is bound to a resource of a stage of
that kind, which has its name. -/
theorem exists_resource_of_plan (h : r.run (plan target vars stages) = (.ok p, r'))
    {stage : Stage} (hb : b ∈ p.visibleFrom stage) (hown : b.declaration.isGenerated = false) :
    ∃ st ∈ stages, st.decls.stage = stage ∧ ∃ v ∈ st.decls.resources, p.recordOf? v = some b ∧
      ∃ d, vars[v.index]? = some d ∧ d.role ≠ .workgroup ∧ b.name = d.name := by
  obtain ⟨all, hgathers, hbind⟩ := plan_eq_ok h
  have hbuilt := built_bindAll Built.nil hbind
  rw [List.nil_append] at hbuilt
  obtain ⟨hb, hvisible⟩ := mem_visibleFrom.mp hb
  obtain ⟨hsampler, hblock⟩ := Bool.or_eq_false_iff.mp hown
  rcases hbuilt.origin hb with ⟨s, hs, hmakes⟩ | ⟨_, -, _, -, -, hgenerated, -⟩
  · obtain ⟨st, hst, hstage, v, hv, hrecord, d, hd, hrole, hname, -⟩ :=
      hbuilt.exists_resource hgathers hs hb hmakes.owns hvisible
    refine ⟨st, hst, hstage, v, hv, hrecord, d, hd, hrole, ?_⟩
    cases hmakes with
    | block index type hrole => cases hblock
    | own index hfits => exact hname.symm
  · rw [Record.isGenerated_of_sampler? hgenerated] at hsampler
    cases hsampler

/-- A storage buffer that a stage sees has the type of a resource that the stage has declared. -/
theorem exists_resource_of_storage (h : r.run (plan target vars stages) = (.ok p, r'))
    {stage : Stage} (hb : b ∈ p.visibleFrom stage) {t : TypeId} {readOnly : Bool}
    (hcontent : b.content = .storageBuffer t readOnly) :
    ∃ st ∈ stages, st.decls.stage = stage ∧ ∃ v ∈ st.decls.resources,
      ∃ d, vars[v.index]? = some d ∧ d.type = t := by
  obtain ⟨all, hgathers, hbind⟩ := plan_eq_ok h
  have hbuilt := built_bindAll Built.nil hbind
  rw [List.nil_append] at hbuilt
  obtain ⟨hb, hvisible⟩ := mem_visibleFrom.mp hb
  rcases hbuilt.origin hb with ⟨s, hs, hmakes⟩ | ⟨_, -, _, -, -, hgenerated, -⟩
  · obtain ⟨st, hst, hstage, v, hv, -, d, hd, -, -, htype, -⟩ :=
      hbuilt.exists_resource hgathers hs hb hmakes.owns hvisible
    refine ⟨st, hst, hstage, v, hv, d, hd, htype.trans ?_⟩
    cases hmakes with
    | block index type hrole => cases hcontent
    | own index hfits =>
        cases hfits with
        | texture t hrole | sampler kind hrole => cases hcontent
        | storage hrole => exact (Content.storageBuffer.inj hcontent).1
  · obtain ⟨-, u, -, rfl⟩ := Record.sampler?_eq_some hgenerated
    cases hcontent

/-- A member of a block that a stage sees is the copy of a uniform that the stage has declared. -/
theorem exists_uniform_of_member (hr : r.Sound)
    (htypes : ∀ x ∈ declarations vars stages, x.2.type.index < r.size)
    (h : r.run (plan target vars stages) = (.ok p, r')) {stage : Stage}
    (hb : b ∈ p.visibleFrom stage) {m : Member} (hm : m ∈ b.members r') :
    ∃ st ∈ stages, st.decls.stage = stage ∧ ∃ v ∈ st.decls.resources,
      ∃ d, vars[v.index]? = some d ∧ d.role = .uniform b.group ∧
        Interning.Settled (Interning.std140 d.type) m.type r' := by
  obtain ⟨all, hgathers, hbind⟩ := plan_eq_ok h
  have hbuilt := built_bindAll Built.nil hbind
  rw [List.nil_append] at hbuilt
  obtain ⟨hb, hvisible⟩ := mem_visibleFrom.mp hb
  obtain ⟨-, htyped⟩ := typed_of_gathers hr htypes hgathers hbind
  obtain ⟨s, hs, howns, -, hrole, hsettled⟩ := hbuilt.owns_of_member hb (htyped b hb) hm
  obtain ⟨st, hst, hstage, v, hv, -, d, hd, -, -, htype, hrole'⟩ :=
    hbuilt.exists_resource hgathers hs hb howns hvisible
  exact ⟨st, hst, hstage, v, hv, d, hd, hrole'.trans hrole, htype ▸ hsettled⟩

/-- A block has a generated name. -/
theorem name_of_block (h : r.run (plan target vars stages) = (.ok p, r')) (hb : b ∈ p.records)
    (hblock : b.content.block?.isSome = true) : ∃ rest, b.name = "ublock_" ++ rest := by
  obtain ⟨all, hgathers, hbind⟩ := plan_eq_ok h
  have hbuilt := built_bindAll Built.nil hbind
  rcases hbuilt.origin hb with ⟨s, hs, hmakes⟩ | ⟨_, -, _, -, -, hgenerated, -⟩
  · cases hmakes with
    | block index type hrole => exact ⟨_, rfl⟩
    | own index hfits =>
        dsimp only at hblock
        rw [hfits.block?] at hblock
        cases hblock
  · obtain ⟨-, t, -, rfl⟩ := Record.sampler?_eq_some hgenerated
    cases hblock

/-- Samplers are only generated in WGSL. -/
theorem target_of_generated (h : r.run (plan target vars stages) = (.ok p, r'))
    (hb : b ∈ p.records) (hgenerated : b.isGenerated = true) : target = .webGPU := by
  obtain ⟨all, hgathers, hbind⟩ := plan_eq_ok h
  have hbuilt := built_bindAll Built.nil hbind
  rcases hbuilt.origin hb with ⟨s, hs, hmakes⟩ | ⟨_, -, _, -, -, hsampler, -⟩
  · rw [Record.isGenerated, hmakes.texture] at hgenerated
    cases hgenerated
  · exact (Record.sampler?_eq_some hsampler).1

end Plans

end Binding

/-! ## Resolution -/

section Resolution

variable {b : Builder} {plan : Binding.Plan} {st : BuiltStage} {s : ResolvedStage}

/-- What a stage is resolved to. -/
theorem Builder.resolve_eq_ok (h : b.resolve plan st = .ok s) :
    s.target = b.target ∧ s.vars = b.vars ∧ s.plan = plan ∧ s.decls = st.decls ∧
      List.Forall₂ (fun v c => b.resolveConstant v = .ok c) st.decls.constants s.constants ∧
      List.Forall₂ (fun f g => b.resolveFunction f = .ok g) st.decls.functions s.functions ∧
      Stmt.traverseBlock b.term st.main = .ok s.main := by
  simp only [Builder.resolve, bind_eq_ok_iff] at h
  obtain ⟨constants, hconstants, functions, hfunctions, main, hmain, h⟩ := h
  rw [← Except.ok.inj h]
  exact ⟨rfl, rfl, rfl, rfl, mapM_eq_ok_iff.mp hconstants, mapM_eq_ok_iff.mp hfunctions, hmain⟩

/-- The registry of a resolved stage is that of the builder. -/
theorem Builder.types_of_resolve (h : b.resolve plan st = .ok s) : s.types = b.types := by
  simp only [Builder.resolve, bind_eq_ok_iff] at h
  obtain ⟨constants, -, functions, -, main, -, h⟩ := h
  rw [← Except.ok.inj h]

/-- A function of a resolved stage is the one that was defined, with the trees of its body. -/
theorem Builder.resolveFunction_eq_ok {f : Function} {g : Function × List (Stmt Term)}
    (h : b.resolveFunction f = .ok g) : g.1 = f ∧ Stmt.traverseBlock b.term f.body = .ok g.2 := by
  simp only [Builder.resolveFunction, bind_eq_ok_iff] at h
  obtain ⟨body, hbody, h⟩ := h
  rw [← Except.ok.inj h]
  exact ⟨rfl, hbody⟩

/-- The functions of a resolved stage are those that were built. -/
theorem Builder.functions_of_resolve (h : b.resolve plan st = .ok s) :
    s.functions.map (·.1) = st.decls.functions := by
  obtain ⟨-, -, -, -, -, hfunctions, -⟩ := Builder.resolve_eq_ok h
  rw [← map_eq_map_of_forall₂ hfunctions (f := id) fun f g hg =>
    (Builder.resolveFunction_eq_ok hg).1.symm, List.map_id]

/-- A constant of a resolved stage is the variable that was declared. -/
theorem Builder.var_of_resolveConstant {v : VarId} {c : Variable × Term}
    (h : b.resolveConstant v = .ok c) : b.vars[v.index]? = some c.1 := by
  unfold Builder.resolveConstant Builder.var? at h
  split at h
  · cases h
  · rename_i d hd
    split at h
    · cases h
    · simp only [bind_eq_ok_iff] at h
      obtain ⟨e, -, h⟩ := h
      rw [← Except.ok.inj h]
      exact hd

/-- A sound stage is resolved with scopes that have names of their own. -/
theorem BuiltStage.Sound.hasLocals (h : st.Sound b.target b.vars)
    (hs : b.resolve plan st = .ok s) : s.HasLocals := by
  obtain ⟨-, hvars, -, -, -, hfunctions, hmain⟩ := Builder.resolve_eq_ok hs
  constructor
  · intro g hg scope hscope
    obtain ⟨f, hf, hresolved⟩ := exists_mem_of_forall₂ hfunctions g hg
    obtain ⟨rfl, hbody⟩ := Builder.resolveFunction_eq_ok hresolved
    rw [Stmt.blockScopes_of_traverse hbody] at hscope
    rw [hvars]
    exact h.decls.functions g.1 hf scope hscope
  · intro scope hscope
    rw [Stmt.blockScopes_of_traverse hmain] at hscope
    rw [hvars]
    exact h.main scope hscope

/-- A sound stage of a program is resolved into a sound one, if it is the only one of its kind. -/
theorem BuiltStage.Sound.isSound {stages : List BuiltStage} {r r' : Registry}
    (h : st.Sound b.target b.vars)
    (hplan : r.run (Binding.plan b.target b.vars stages) = (.ok plan, r'))
    (hs : b.resolve plan st = .ok s) (hst : st ∈ stages)
    (hunique : ∀ st' ∈ stages, st'.decls.stage = st.decls.stage → st' = st) : s.IsSound := by
  have hlocals := h.hasLocals hs
  obtain ⟨htarget, hvars, rfl, hdecls, hconstants, -, -⟩ := Builder.resolve_eq_ok hs
  have hrecords : s.records = s.plan.visibleFrom st.decls.stage := by
    rw [ResolvedStage.records, ResolvedStage.stage, hdecls]
  refine ⟨?_, hlocals, ?_, ⟨?_, ?_, ?_, ?_⟩⟩
  · rw [htarget, hvars, hdecls]
    exact h.decls
  · rw [hvars, hdecls]
    exact hconstants.imp fun v c hc => Builder.var_of_resolveConstant hc
  · rw [hvars, hdecls, hrecords]
    exact fun v hv d hd hrole => Binding.exists_record_of_plan hplan hst hv hd hrole
  · rw [hvars, hdecls, hrecords]
    intro c hc hown
    obtain ⟨st', hst', hstage, hresource⟩ := Binding.exists_resource_of_plan hplan hc hown
    rwa [hunique st' hst' hstage] at hresource
  · rw [hrecords]
    exact fun c hc => Binding.name_of_block hplan (Binding.mem_visibleFrom.mp hc).1
  · rw [hrecords, htarget]
    exact fun c hc => Binding.target_of_generated hplan (Binding.mem_visibleFrom.mp hc).1

/-- A text is the one of the source in the language of the target. -/
theorem ResolvedStage.text_eq_ok {s : ResolvedStage} {text : String} (h : s.text = .ok text) :
    (s.target = .webGPU ∧ ∃ m, Wgsl.module s = .ok m ∧ text = m.text s.indentWidth) ∨
      (s.target ≠ .webGPU ∧ ∃ m, Glsl.module s = .ok m ∧ text = m.text s.indentWidth) := by
  unfold ResolvedStage.text at h
  by_cases htarget : s.target = .webGPU
  · rw [if_pos htarget] at h
    cases hm : Wgsl.module s with
    | error e =>
        rw [hm] at h
        cases h
    | ok m =>
        rw [hm] at h
        exact Or.inl ⟨htarget, m, rfl, (Except.ok.inj h).symm⟩
  · rw [if_neg htarget] at h
    cases hm : Glsl.module s with
    | error e =>
        rw [hm] at h
        cases h
    | ok m =>
        rw [hm] at h
        exact Or.inr ⟨htarget, m, rfl, (Except.ok.inj h).symm⟩

/-- The source of a finished stage is the text of the stage resolved. -/
theorem Builder.source_eq_ok {src : StageSource} (h : b.source plan st = .ok src) :
    ∃ s, b.resolve plan st = .ok s ∧ s.text = .ok src.text := by
  simp only [Builder.source, bind_eq_ok_iff] at h
  obtain ⟨s, hs, h⟩ := h
  simp only [ResolvedStage.source, bind_eq_ok_iff] at h
  obtain ⟨text, htext, h⟩ := h
  rw [← Except.ok.inj h]
  exact ⟨s, hs, htext⟩

end Resolution

/-! ## Stages of programs -/

namespace Authoring

variable {σ : Type}

/-- The stages of a program that draws, authored one after the other from some state; the builder
that has bound their resources; and the bindings. -/
def RenderStages (vertex fragment : Authoring σ Unit) (s : Builder × σ) (v f : BuiltStage)
    (plan : Binding.Plan) (b : Builder) : Prop :=
  ∃ s₁ s₂, (stage .vertex [] vertex).runFrom s = (.ok v, s₁) ∧
    (stage .fragment v.decls.outputs fragment).runFrom s₁ = (.ok f, s₂) ∧
    s₂.1.run (Build.bindStages [v, f]) = (.ok plan, b)

/-- The stage of a program that computes, authored from some state; the builder that has bound its
resources; and the bindings. -/
def ComputeStage (body : Authoring σ Unit) (s : Builder × σ) (c : BuiltStage)
    (plan : Binding.Plan) (b : Builder) : Prop :=
  ∃ s₁, (stage .compute [] body).runFrom s = (.ok c, s₁) ∧
    s₁.1.run (Build.bindStages [c]) = (.ok plan, b)

/-- The stages of a program have been bound by a plan, whose types are registered. -/
theorem plan_of_bindStages {b b' : Builder} {stages : List BuiltStage} {plan : Binding.Plan}
    (h : b.run (Build.bindStages stages) = (.ok plan, b')) :
    b.types.run (Binding.plan b'.target b'.vars stages) = (.ok plan, b'.types) := by
  rw [Build.bindStages, Builder.run_bind, Builder.run_get] at h
  dsimp only at h
  rw [Builder.run_intern] at h
  obtain ⟨hplan, rfl⟩ := Prod.mk.inj h
  exact Prod.ext hplan rfl

/-- The stages are bound by the plan of their declarations. -/
theorem run_bindStages_eq_ok {b b' : Builder} {stages : List BuiltStage} {plan : Binding.Plan}
    (h : b.run (Build.bindStages stages) = (.ok plan, b')) :
    b'.target = b.target ∧ b'.vars = b.vars ∧
      ∃ r', b.types.run (Binding.plan b'.target b'.vars stages) = (.ok plan, r') := by
  rw [Build.bindStages, Builder.run_bind, Builder.run_get] at h
  dsimp only at h
  rw [Builder.run_intern] at h
  obtain ⟨hplan, rfl⟩ := Prod.mk.inj h
  exact ⟨rfl, rfl, _, Prod.ext hplan rfl⟩

/-- A program that draws has been written from the stages that were authored. -/
theorem renderStages_of_compileRender {label : String} {vertex fragment : Authoring σ Unit}
    {s s' : Builder × σ} {program : RenderProgram}
    (h : (compileRender label vertex fragment).runFrom s = (.ok program, s')) :
    ∃ v f plan b, RenderStages vertex fragment s v f plan b ∧
      b.source plan v = .ok program.vertex ∧ b.source plan f = .ok program.fragment := by
  obtain ⟨v, s₁, hvertex, h⟩ := runFrom_bind_eq_ok_iff.mp h
  obtain ⟨f, s₂, hfragment, h⟩ := runFrom_bind_eq_ok_iff.mp h
  obtain ⟨plan, s₃, hplan, h⟩ := runFrom_bind_eq_ok_iff.mp h
  obtain ⟨b, s₄, hcurrent, h⟩ := runFrom_bind_eq_ok_iff.mp h
  obtain ⟨vsrc, s₅, hvsrc, h⟩ := runFrom_bind_eq_ok_iff.mp h
  obtain ⟨fsrc, s₆, hfsrc, h⟩ := runFrom_bind_eq_ok_iff.mp h
  obtain ⟨layouts, s₇, -, hprogram⟩ := runFrom_bind_eq_ok_iff.mp h
  rw [runFrom_lift] at hplan
  rw [runFrom_current] at hcurrent
  rw [runFrom_except] at hvsrc hfsrc
  rw [runFrom_pure] at hprogram
  obtain rfl := Except.ok.inj (Prod.mk.inj hprogram).1
  obtain rfl := Except.ok.inj (Prod.mk.inj hcurrent).1
  obtain ⟨hresult, hs₃⟩ := Prod.mk.inj hplan
  have hbind : s₂.1.run (Build.bindStages [v, f]) = (.ok plan, s₃.1) :=
    Prod.ext hresult (congrArg Prod.fst hs₃)
  exact ⟨v, f, plan, _, ⟨s₁, s₂, hvertex, hfragment, hbind⟩, (Prod.mk.inj hvsrc).1,
    (Prod.mk.inj hfsrc).1⟩

/-- Only WGSL has programs that compute. -/
theorem target_of_require_compute {b : Builder}
    (h : (b.run (Build.require .compute)).1 = .ok ()) : b.target = .webGPU := by
  have hrun : b.run (Build.require .compute) = (b.target.require .compute, b) :=
    Builder.run_liftM b _
  rw [hrun] at h
  cases htarget : b.target with
  | webGPU => rfl
  | webGL | webGL2 =>
      rw [htarget] at h
      cases h

/-- A program that computes is one for WGSL, written from the stage that was authored. -/
theorem computeStage_of_compileCompute {label : String} {body : Authoring σ Unit}
    {s s' : Builder × σ} {program : ComputeProgram}
    (h : (compileCompute label body).runFrom s = (.ok program, s')) :
    s.1.target = .webGPU ∧ ∃ c plan b, ComputeStage body s c plan b ∧
      b.source plan c = .ok program.compute := by
  obtain ⟨_, s₀, hrequire, h⟩ := runFrom_bind_eq_ok_iff.mp h
  obtain ⟨c, s₁, hstage, h⟩ := runFrom_bind_eq_ok_iff.mp h
  obtain ⟨plan, s₂, hplan, h⟩ := runFrom_bind_eq_ok_iff.mp h
  obtain ⟨b, s₃, hcurrent, h⟩ := runFrom_bind_eq_ok_iff.mp h
  obtain ⟨src, s₄, hsrc, h⟩ := runFrom_bind_eq_ok_iff.mp h
  obtain ⟨layouts, s₅, -, hprogram⟩ := runFrom_bind_eq_ok_iff.mp h
  rw [runFrom_lift] at hrequire hplan
  rw [runFrom_current] at hcurrent
  rw [runFrom_except] at hsrc
  rw [runFrom_pure] at hprogram
  obtain rfl := Except.ok.inj (Prod.mk.inj hprogram).1
  obtain rfl := Except.ok.inj (Prod.mk.inj hcurrent).1
  obtain ⟨hrequired, rfl⟩ := Prod.mk.inj hrequire
  obtain ⟨hresult, hs₂⟩ := Prod.mk.inj hplan
  have hbind : s₁.1.run (Build.bindStages [c]) = (.ok plan, s₂.1) :=
    Prod.ext hresult (congrArg Prod.fst hs₂)
  exact ⟨target_of_require_compute hrequired, c, plan, _, ⟨s₁, hstage, hbind⟩,
    (Prod.mk.inj hsrc).1⟩

/-- What is built as a program was compiled from an idle builder. -/
theorem compiled_of_asProgram {α : Type} {compile : Authoring σ α} {s s' : Builder × σ}
    {program : α}
    (h : (asProgram compile).runFrom s = (.ok program, s')) :
    ∃ s₁, compile.runFrom ({ s.1 with phase := .building }, s.2) = (.ok program, s₁) := by
  obtain ⟨b, n⟩ := s
  rw [runFrom_asProgram] at h
  cases hphase : b.phase with
  | building | done =>
      rw [hphase] at h
      cases (Prod.mk.inj h).1
  | idle =>
      rw [hphase] at h
      exact ⟨_, Prod.ext (Prod.mk.inj h).1 rfl⟩

end Authoring

end WebShader
