import WebShader.Proofs.DeclaredStructs
import WebShader.Proofs.ResolvedStages
import WebShader.Proofs.StageContents

/-!
# Closed stages

A stage that a script has authored only involves variables of its own, and so it is resolved into a
stage that keeps to itself: the records that it sees are those of its own resources, whichever stage
has bound them first.
-/

namespace WebShader

/-! ## Stages that are built -/

/-- A stage that has been built and only involves its own variables. -/
structure BuiltStage.IsOwn (b : Builder) (st : BuiltStage) : Prop where
  globals : ∀ v ∈ st.decls.globals, b.Declares st.decls.stage v
  functions : ∀ f ∈ st.decls.functions,
    (∀ v ∈ f.params, b.Declares st.decls.stage v) ∧ b.Admits st.decls.stage f.body
  main : b.Admits st.decls.stage st.main

/-- A stage stays within its own variables as the builder grows. -/
theorem BuiltStage.IsOwn.grows {b b' : Builder} {st : BuiltStage} (h : st.IsOwn b)
    (hgrows : b.Grows b') : st.IsOwn b' where
  globals v hv := hgrows.declares (h.globals v hv)
  functions f hf := by
    obtain ⟨hparams, hbody⟩ := h.functions f hf
    exact ⟨fun v hv => hgrows.declares (hparams v hv), hgrows.admits hbody⟩
  main := hgrows.admits h.main

/-- A stage that has been opened has nothing yet. -/
theorem Builder.isOwn_opened (b : Builder) (which : Stage) : (b.opened which).IsOwn which := by
  intro s hs
  obtain rfl := Option.some.inj hs
  refine ⟨rfl, ?_, ?_, ?_, ?_⟩
  · simp [StageDecls.globals]
  · simp
  · simp
  · simp [Builder.admits_nil]

/-- Opening a stage only adds to the builder. -/
theorem Builder.grows_opened (b : Builder) (which : Stage) : b.Grows (b.opened which) :=
  { b.grows_refl with }

/-- Binding the stages only adds to the builder. -/
theorem Build.grows_bindStages {b b' : Builder} {stages : List BuiltStage} {plan : Binding.Plan}
    (h : b.run (bindStages stages) = (.ok plan, b')) : b.Grows b' := by
  have hb := follows_bindStages (R := Builder.Adds) stages b
  rw [h] at hb
  exact hb.grows

namespace Authoring

variable {σ : Type}

/-- A stage that has been authored only involves its own variables. -/
theorem stage_isOwn {which : Stage} {earlier : List VarId} {body : Authoring σ Unit}
    (h : Follows (Builder.Retains which) body) {s s' : Builder × σ} {built : BuiltStage}
    (hrun : (stage which earlier body).runFrom s = (.ok built, s')) :
    s.1.Grows s'.1 ∧ built.decls.stage = which ∧ built.IsOwn s'.1 := by
  have hopened : Builder.Retains which (s.1.opened which)
      ((s.1.opened which).run (Build.inputsFrom earlier)).2 :=
    Build.followsGlobally_inputsFrom earlier _ (s.1.takes_opened which)
  obtain ⟨b, t, main, hretains, ht, hmain, rfl, hclosed⟩ := exists_authored_of_stage hopened h hrun
  rw [hclosed]
  have hgrows : s.1.Grows b := by
    rcases hretains.1 with hkept | hlost
    · exact (s.1.grows_opened which).trans hkept.toGrows
    · exact absurd (ht.symm.trans hlost.stage) (by simp)
  -- only the stage is lost: the variables that it has declared stay
  have hclosing : b.Grows { b with stage := none } := { b.grows_refl with }
  have hown := hretains.2 (s.1.isOwn_opened which) t ht
  have hbuilt : BuiltStage.IsOwn b ⟨t.decls, main⟩ := by
    obtain rfl := hown.stage
    exact ⟨hown.globals, hown.functions, hown.main main hmain⟩
  exact ⟨hgrows.trans hclosing, hown.stage, hbuilt.grows hclosing⟩

end Authoring

/-! ## Stages that are resolved -/

section Resolution

variable {b b₀ : Builder} {callees : Callees} {stages : List BuiltStage} {plan : Binding.Plan}
  {st : BuiltStage} {s : ResolvedStage} {v : VarId}

/-- A variable that the builder has declared in the stage is one that the resolved stage owns. -/
theorem Builder.Declares.owns (h : b.Declares st.decls.stage v) (hs : b.resolve plan st = .ok s) :
    s.Owns v := by
  obtain ⟨d, hd, hstage, -⟩ := h
  obtain ⟨-, hvars, -, hdecls, -⟩ := Builder.resolve_eq_ok hs
  refine ⟨d, ?_, ?_⟩
  · rw [hvars]
    exact hd
  · rw [hstage, ResolvedStage.stage, hdecls]

/-- Statements that the builder admits are read back as statements that keep to the stage. -/
theorem Builder.Admits.traverse {body : Block} {body' : List (Stmt Term)}
    (h : b.Admits st.decls.stage body) (hb : b.Typed callees) (hs : b.resolve plan st = .ok s)
    (hbody : Stmt.traverseBlock b.term body = .ok body') :
    Stmt.BlockMeets s.Owns (·.IsPlace s.types s.vars) body' := by
  have hmeets := Stmt.BlockMeets.traverse body hbody h
  refine Stmt.BlockMeets.imp (fun v hv => hv.owns hs) (fun e he => ?_) body' hmeets
  obtain ⟨n, hplace, hterm⟩ := he
  rw [Builder.types_of_resolve hs, (Builder.resolve_eq_ok hs).2.1]
  exact hb.isPlace hplace hterm

/-- The types of what stages declare are registered before their resources are bound. -/
theorem Builder.HasSoundTypes.declarations (h : b.HasSoundTypes) :
    ∀ x ∈ Binding.declarations b.vars stages, x.2.type.index < b.types.size := by
  rintro ⟨v, d⟩ hx
  obtain ⟨found, stage, hfound, -, rfl⟩ := Binding.exists_var_of_mem_declarations hx
  exact h.vars v found hfound

/-- A stage that only involves its own variables is resolved into one that keeps to itself. -/
theorem Builder.isClosed_of_resolve (hb₀ : b₀.HasSoundTypes) (hb : b.Typed callees)
    (hbind : b₀.run (Build.bindStages stages) = (.ok plan, b)) (hown : ∀ st ∈ stages, st.IsOwn b)
    (hst : st ∈ stages) (hs : b.resolve plan st = .ok s) : s.IsClosed := by
  have hplan := Authoring.plan_of_bindStages hbind
  have htypes := Builder.types_of_resolve hs
  obtain ⟨-, hvars, hsplan, hdecls, hconstants, hfunctions, hmain⟩ := Builder.resolve_eq_ok hs
  have hstage : s.stage = st.decls.stage := by rw [ResolvedStage.stage, hdecls]
  have hrecords : s.records = plan.visibleFrom st.decls.stage := by
    rw [ResolvedStage.records, hsplan, hstage]
  -- a resource of whichever stage of that kind is one of this stage
  have hresource : ∀ st' ∈ stages, st'.decls.stage = st.decls.stage → ∀ v ∈ st'.decls.resources,
      ∀ d, b.vars[v.index]? = some d → d.type ∈ s.variableTypes ∧ b.LaysOut d.role d.type := by
    intro st' hst' hsame v hv d hd
    obtain ⟨d', hd', hdeclared, hlaid⟩ :=
      (hown st' hst').globals v (by simp [StageDecls.globals, hv])
    obtain rfl := Option.some.inj (hd'.symm.trans hd)
    refine ⟨ResolvedStage.mem_variableTypes (hvars ▸ hd) ?_, hlaid⟩
    rw [hdeclared, hsame, hstage]
  refine ⟨htypes ▸ hb.sound, ?_, ?_, ?_, ?_, ?_, ?_, ?_⟩
  · rw [hdecls]
    exact fun v hv => ((hown st hst).globals v hv).owns hs
  · intro c hc
    obtain ⟨v, hv, hresolved⟩ := exists_mem_of_forall₂ hconstants c hc
    have hglobal : v ∈ st.decls.globals := by simp [StageDecls.globals, hv]
    exact ⟨v, hvars ▸ Builder.var_of_resolveConstant hresolved,
      ((hown st hst).globals v hglobal).owns hs⟩
  · intro g hg v hv
    obtain ⟨f, hf, hresolved⟩ := exists_mem_of_forall₂ hfunctions g hg
    rw [(Builder.resolveFunction_eq_ok hresolved).1] at hv
    exact (((hown st hst).functions f hf).1 v hv).owns hs
  · intro g hg
    obtain ⟨f, hf, hresolved⟩ := exists_mem_of_forall₂ hfunctions g hg
    exact ((hown st hst).functions f hf).2.traverse hb hs
      (Builder.resolveFunction_eq_ok hresolved).2
  · exact (hown st hst).main.traverse hb hs hmain
  · rw [hrecords]
    intro c hc t readOnly hcontent
    obtain ⟨st', hst', hsame, v, hv, d, hd, rfl⟩ :=
      Binding.exists_resource_of_storage hplan hc hcontent
    exact (hresource st' hst' hsame v hv d hd).1
  · rw [hrecords, htypes]
    intro c hc t struct hcontent hstruct m hm
    have hvars₀ : b.vars = b₀.vars := (Authoring.run_bindStages_eq_ok hbind).2.1
    have hmember : m ∈ c.members b.types := by
      have hblock : c.content.block?.bind b.types.struct? = some struct := by
        rw [hcontent]
        exact Registry.struct?_eq_some_iff.mpr hstruct
      rw [Binding.Record.members, hblock]
      exact hm
    obtain ⟨st', hst', hsame, v, hv, d, hd, hrole, hsettled⟩ :=
      Binding.exists_uniform_of_member hb₀.sound (hvars₀ ▸ hb₀.declarations) hplan hc hmember
    obtain ⟨hmem, hlaid⟩ := hresource st' hst' hsame v hv d hd
    -- the copy of a uniform is the uniform itself, which is laid out already
    have hcopy := hsettled b.types hb.sound le_rfl
    rw [Interning.run_std140_of_holds hb.sound (hlaid.std140 c.group hrole hb.sound)] at hcopy
    rwa [← Except.ok.inj (Prod.mk.inj hcopy).1]

end Resolution

end WebShader
