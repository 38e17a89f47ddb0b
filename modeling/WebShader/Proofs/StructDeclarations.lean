import WebShader.Proofs.ClosedStages
import WebShader.Proofs.DeclarationTexts
import WebShader.Proofs.DeclaredNames
import WebShader.Proofs.GlslTypes
import WebShader.Proofs.TypedScripts
import WebShader.Proofs.WgslDeclarations

/-!
# The structs that programs declare

The source of every stage declares the structs that it spells, each of them once and after those
that it contains. In WGSL the wrappers that pad members under `std140` rules come before them.
-/

namespace WebShader

/-! ## Sources of stages -/

/-- A text that is the source of a stage declares the structs that it spells. They are read from the
text, under their names: in WGSL the wrappers come before those of the stage, and the structs that
hold what enters and leaves it come last. -/
inductive ResolvedStage.DeclaresSpelled (s : ResolvedStage) (text : String) : Prop
  | wgsl {m : Wgsl.Module} {ds held : List (ReadStruct Wgsl.ReadMember)} : s.target = .webGPU →
      Wgsl.module s = .ok m → text = m.text s.indentWidth → m.DeclaresStructs s →
      Wgsl.readStructs? text = some (ds ++ held) → ds = m.structs.map Wgsl.Struct.read →
      ds.map (·.name) = (Wgsl.declaredWrappers s).map Wgsl.wrapperName ++ s.structNames →
      held = (Wgsl.Module.declared m.input ++ Wgsl.Module.declared m.output).map Wgsl.Struct.read →
      DeclaresSpelled s text
  | glsl {m : Glsl.Module} {ds : List (ReadStruct Glsl.ReadField)} : s.target ≠ .webGPU →
      Glsl.module s = .ok m → text = m.text s.indentWidth → m.DeclaresStructs s →
      Glsl.readStructs? text = some ds → ds = m.structs.map Glsl.Struct.read →
      ds.map (·.name) = s.structNames → DeclaresSpelled s text

/-- The structs that the source of a stage tells of are all those that its text spells, each of them
once, under a name of its own and after the structs that it contains. -/
structure ResolvedStage.DeclaresStructs (s : ResolvedStage) (src : StageSource) : Prop where
  names : src.structs = s.structNames
  distinct : s.structTypes.Nodup
  distinctNames : s.structNames.Nodup
  ordered : s.types.Ordered s.structTypes
  spelled : s.DeclaresSpelled src.text

section Names

variable {s : ResolvedStage}

/-- The declarations of the structs of a stage have their names. -/
theorem ResolvedStage.names_of_structs {δ : Type} {name : δ → String} {ts : List TypeId}
    {ds : List δ} (h : List.Forall₂
      (fun t d => ∃ st, s.struct t = .ok st ∧ name d = st.name) ts ds) :
    ds.map name = ts.filterMap fun t => (s.types.struct? t).map (·.name) := by
  induction h with
  | nil => rfl
  | @cons t d ts ds hd _ ih =>
      obtain ⟨st, hst, hname⟩ := hd
      have hstruct := Registry.struct?_eq_some_iff.mpr (ResolvedStage.struct_eq_ok_iff.mp hst)
      rw [List.map_cons, List.filterMap_cons, hstruct, Option.map_some, hname, ih]

/-- A struct is declared under its registered name. -/
theorem Glsl.name_of_struct {t : TypeId} {d : Struct} (h : struct s t = .ok d) :
    ∃ st, s.struct t = .ok st ∧ d.name = st.name := by
  simp only [struct, bind_eq_ok_iff] at h
  obtain ⟨st, hst, fields, -, h⟩ := h
  exact ⟨st, hst, by rw [← Except.ok.inj h]⟩

/-- A struct is declared under its registered name. -/
theorem Wgsl.name_of_struct {t : TypeId} {d : Struct} (h : struct s t = .ok d) :
    ∃ st, s.struct t = .ok st ∧ d.name = st.name := by
  simp only [struct, bind_eq_ok_iff] at h
  obtain ⟨st, hst, h⟩ := h
  refine ⟨st, hst, ?_⟩
  split at h
  · obtain ⟨fields, -, h⟩ := bind_eq_ok_iff.mp h
    rw [← Except.ok.inj h]
  · obtain ⟨fields, -, h⟩ := bind_eq_ok_iff.mp h
    rw [← Except.ok.inj h]

end Names

/-- The source of a stage that keeps to itself declares the structs that it spells. -/
theorem ResolvedStage.IsClosed.declaresStructs {s : ResolvedStage} (h : s.IsClosed)
    (hs : s.HasNames (isName · = true)) {src : StageSource} (hsrc : s.source = .ok src) :
    s.DeclaresStructs src := by
  obtain ⟨htext, hnames⟩ := ResolvedStage.source_eq_ok hsrc
  have hwf := h.sound.wellFormed
  refine ⟨hnames, nodup_structTypes hwf, nodup_structNames h.sound,
    (s.types.collects_structsOf hwf s.usedTypes).ordered, ?_⟩
  rcases ResolvedStage.text_eq_ok htext with ⟨htarget, m, hm, heq⟩ | ⟨htarget, m, hm, heq⟩
  · obtain ⟨m', hm', hread⟩ := Wgsl.exists_structs htarget hs h.hasBranches htext
    obtain rfl := Except.ok.inj (hm.symm.trans hm')
    have hdeclares := Wgsl.declaresStructs_of_module h (by simp [htarget]) hm
    rw [List.map_append] at hread
    refine .wgsl htarget hm heq hdeclares hread rfl ?_ rfl
    obtain ⟨structs, hstructs, hall⟩ := hdeclares.structs
    rw [hstructs, List.map_map, List.map_append, List.map_map]
    exact congrArg _ (ResolvedStage.names_of_structs (hall.imp fun _ _ => Wgsl.name_of_struct))
  · obtain ⟨m', hm', hread⟩ := Glsl.exists_structs htarget hs h.hasBranches htext
    obtain rfl := Except.ok.inj (hm.symm.trans hm')
    have hdeclares := Glsl.declaresStructs_of_module h hm
    refine .glsl htarget hm heq hdeclares hread rfl ?_
    rw [List.map_map]
    exact ResolvedStage.names_of_structs (hdeclares.structs.imp fun _ _ => Glsl.name_of_struct)

/-- The source of a stage that has been built is the one of the stage resolved, and declares the
structs that it spells. -/
def Builder.DeclaresStructs (b : Builder) (plan : Binding.Plan) (st : BuiltStage)
    (src : StageSource) : Prop :=
  ∃ s, b.resolve plan st = .ok s ∧ s.DeclaresStructs src

/-! ## Programs -/

namespace Session

variable {s : Session} {n : Script.Notes}

/-- Binding the resources of stages leaves a typed builder. -/
theorem Reachable.typed_of_bindStages (hs : s.Reachable) {b : Builder} {plan : Binding.Plan}
    {stages : List BuiltStage} (hbind : s.builder.run (Build.bindStages stages) = (.ok plan, b)) :
    b.Typed s.resolved := by
  have hrearranges := Build.rearranges_bindStages stages s.builder
  rw [hbind] at hrearranges
  exact (Reachable.rearranged hs hrearranges).typed.builder

section Stages

variable (hs : s.Reachable) {b : Builder} {plan : Binding.Plan} {stages : List BuiltStage}
  (hbind : s.builder.run (Build.bindStages stages) = (.ok plan, b)) {st : BuiltStage}
include hs hbind

/-- A stage that has been authored in a session keeps to itself. -/
theorem Reachable.isClosed (hown : ∀ st ∈ stages, st.IsOwn s.builder) (hst : st ∈ stages)
    {resolved : ResolvedStage} (hresolve : b.resolve plan st = .ok resolved) : resolved.IsClosed :=
  have hgrows := Build.grows_bindStages hbind
  Builder.isClosed_of_resolve hs.typed.builder.toHasSoundTypes (hs.typed_of_bindStages hbind) hbind
    (fun st hst => (hown st hst).grows hgrows) hst hresolve

omit hs in
/-- A stage of a named builder has names. -/
theorem hasNames_of_isNamed (hnamed : s.builder.IsNamed) (hfunctions : st.NamesFunctions)
    {resolved : ResolvedStage} (hresolve : b.resolve plan st = .ok resolved) :
    resolved.HasNames (isName · = true) := by
  obtain ⟨htarget, hvars, r', hplan⟩ := Authoring.run_bindStages_eq_ok hbind
  have hb := Authoring.isNamed_of_bindStages hnamed hbind
  exact Builder.HasNames.resolve admits_isName
    ⟨fun d hd => isName_of_isIdentifier (hb.vars d hd), hb.structs.hasNames,
      fun f hf => isName_of_isIdentifier (hfunctions f hf)⟩ hplan hresolve

/-- Stages that have been authored in a session have sources that declare the structs that they
spell. -/
theorem Reachable.declaresStructs (hnamed : s.builder.IsNamed)
    (hown : ∀ st ∈ stages, st.IsOwn s.builder) (hfunctions : ∀ st ∈ stages, st.NamesFunctions)
    (hst : st ∈ stages) {src : StageSource} (hsrc : b.source plan st = .ok src) :
    b.DeclaresStructs plan st src := by
  obtain ⟨resolved, hresolve, hsource⟩ := bind_eq_ok_iff.mp hsrc
  exact ⟨resolved, hresolve, (hs.isClosed hbind hown hst hresolve).declaresStructs
    (hasNames_of_isNamed hbind hnamed (hfunctions st hst) hresolve) hsource⟩

end Stages

/-- A program is compiled in a session of its own. -/
theorem Reachable.building (hs : s.Reachable) :
    (s.after { s.builder with phase := .building } []).Reachable :=
  .rearranged hs ⟨.of_eq rfl rfl rfl rfl, fun _ he => he, id⟩

end Session

namespace Script

open Authoring Session

variable {s : Session} {n : Notes} {s' : Builder × Notes}

/-- The session after a stage that has been authored. -/
theorem session_of_stage (hs : s.Reachable) (hn : s.KnowsNames n) {which : Stage}
    (hwhich : which = .compute → s.builder.target.supports .compute = true)
    {earlier : List VarId} {act : Run Unit} (h : Simulates act) {built : BuiltStage}
    (hrun : (stage which earlier act).runFrom (s.builder, n) = (.ok built, s')) :
    ∃ t : Session, t.Reachable ∧ t.builder = s'.1 ∧ t.KnowsNames s'.2 := by
  obtain ⟨t, ht, -, hb, hnames, -⟩ := plays_stage hs hn which earlier hwhich h
  rw [hrun] at hb hnames
  exact ⟨t, ht, hb, hnames⟩

/-- The stages of a program that draws have names where its builder has, and leave a named
builder. -/
theorem isNamed_of_stages {vertex fragment : Run Unit} {v f : BuiltStage}
    {s₀ s₁ s₂ : Builder × Notes} (hv : Follows Builder.StaysNamed vertex)
    (hf : Follows Builder.StaysNamed fragment) (hs : s₀.1.IsNamed)
    (hvertex : (stage .vertex [] vertex).runFrom s₀ = (.ok v, s₁))
    (hfragment : (stage .fragment v.decls.outputs fragment).runFrom s₁ = (.ok f, s₂)) :
    s₂.1.IsNamed ∧ ∀ st ∈ [v, f], st.NamesFunctions := by
  obtain ⟨hs₁, hvnames⟩ := isNamed_of_stage hv hs hvertex
  obtain ⟨hs₂, hfnames⟩ := isNamed_of_stage hf hs₁ hfragment
  exact ⟨hs₂, List.forall_mem_cons.mpr ⟨hvnames, List.forall_mem_singleton.mpr hfnames⟩⟩

/-- The stages of a program that draws only involve their own variables, and their resources are
bound in the session that has authored them. -/
theorem session_of_compileRender (hs : s.Reachable) (hn : s.KnowsNames n) {label : String}
    {vertex fragment : Run Unit} {program : RenderProgram} (hv : Simulates vertex)
    (hf : Simulates fragment) (hvown : Follows (Builder.Retains .vertex) vertex)
    (hfown : Follows (Builder.Retains .fragment) fragment)
    (h : (compileRender label vertex fragment).runFrom (s.builder, n) = (.ok program, s')) :
    ∃ v f s₁ plan b, ∃ t : Session, t.Reachable ∧ (∀ st ∈ [v, f], st.IsOwn t.builder) ∧
      (stage .vertex [] vertex).runFrom (s.builder, n) = (.ok v, s₁) ∧
      (∃ n', (stage .fragment v.decls.outputs fragment).runFrom s₁ = (.ok f, (t.builder, n'))) ∧
      t.builder.run (Build.bindStages [v, f]) = (.ok plan, b) ∧
      b.source plan v = .ok program.vertex ∧ b.source plan f = .ok program.fragment := by
  obtain ⟨v, f, plan, b, hstages, hvsrc, hfsrc⟩ := renderStages_of_compileRender h
  obtain ⟨⟨b₁, n₁⟩, ⟨b₂, n₂⟩, hvertex, hfragment, hbind⟩ := hstages
  obtain ⟨-, -, hvown⟩ := stage_isOwn hvown hvertex
  obtain ⟨hgrows, -, hfown⟩ := stage_isOwn hfown hfragment
  -- the fragment stage is authored in the session that the vertex stage has left
  obtain ⟨t₁, ht₁, rfl, hn₁⟩ := session_of_stage hs hn (by simp) hv hvertex
  obtain ⟨t₂, ht₂, rfl, -⟩ := session_of_stage ht₁ hn₁ (by simp) hf hfragment
  have hown : ∀ st ∈ [v, f], st.IsOwn t₂.builder :=
    List.forall_mem_cons.mpr ⟨hvown.grows hgrows, List.forall_mem_singleton.mpr hfown⟩
  exact ⟨v, f, _, plan, b, t₂, ht₂, hown, hvertex, ⟨n₂, hfragment⟩, hbind, hvsrc, hfsrc⟩

/-- The stage of a program that computes only involves its own variables, and its resources are
bound in the session that has authored it. -/
theorem session_of_compileCompute (hs : s.Reachable) (hn : s.KnowsNames n) {label : String}
    {act : Run Unit} {program : ComputeProgram} (hact : Simulates act)
    (hown : Follows (Builder.Retains .compute) act)
    (h : (compileCompute label act).runFrom (s.builder, n) = (.ok program, s')) :
    ∃ c plan b, ∃ t : Session, t.Reachable ∧ (∀ st ∈ [c], st.IsOwn t.builder) ∧
      (∃ n', (stage .compute [] act).runFrom (s.builder, n) = (.ok c, (t.builder, n'))) ∧
      t.builder.run (Build.bindStages [c]) = (.ok plan, b) ∧
      b.source plan c = .ok program.compute := by
  obtain ⟨htarget, c, plan, b, ⟨⟨b₁, n₁⟩, hstage, hbind⟩, hsrc⟩ := computeStage_of_compileCompute h
  obtain ⟨-, -, hown⟩ := stage_isOwn hown hstage
  have hsupports : s.builder.target.supports .compute = true := by
    rw [htarget]
    rfl
  obtain ⟨t, ht, rfl, -⟩ := session_of_stage hs hn (fun _ => hsupports) hact hstage
  exact ⟨c, plan, b, t, ht, List.forall_mem_singleton.mpr hown, ⟨n₁, hstage⟩, hbind, hsrc⟩

/-- The sources of a program that draws declare the structs that they spell. -/
theorem structs_of_compileRender (hs : s.Reachable) (hn : s.KnowsNames n)
    (hnamed : s.builder.IsNamed) {label : String} {vertex fragment : Run Unit}
    {program : RenderProgram} (hv : Simulates vertex) (hf : Simulates fragment)
    (hvown : Follows (Builder.Retains .vertex) vertex)
    (hfown : Follows (Builder.Retains .fragment) fragment)
    (hvnamed : Follows Builder.StaysNamed vertex) (hfnamed : Follows Builder.StaysNamed fragment)
    (h : (compileRender label vertex fragment).runFrom (s.builder, n) = (.ok program, s')) :
    ∃ v f plan b, RenderStages vertex fragment (s.builder, n) v f plan b ∧
      b.DeclaresStructs plan v program.vertex ∧ b.DeclaresStructs plan f program.fragment := by
  obtain ⟨v, f, s₁, plan, b, t, ht, hown, hvertex, ⟨n', hfragment⟩, hbind, hvsrc, hfsrc⟩ :=
    session_of_compileRender hs hn hv hf hvown hfown h
  obtain ⟨hnamed, hfunctions⟩ := isNamed_of_stages hvnamed hfnamed hnamed hvertex hfragment
  exact ⟨v, f, plan, b, ⟨s₁, _, hvertex, hfragment, hbind⟩,
    ht.declaresStructs hbind hnamed hown hfunctions (by simp) hvsrc,
    ht.declaresStructs hbind hnamed hown hfunctions (by simp) hfsrc⟩

/-- The source of a program that computes declares the structs that it spells. -/
theorem structs_of_compileCompute (hs : s.Reachable) (hn : s.KnowsNames n)
    (hnamed : s.builder.IsNamed) {label : String} {act : Run Unit} {program : ComputeProgram}
    (hact : Simulates act) (hown : Follows (Builder.Retains .compute) act)
    (hactnamed : Follows Builder.StaysNamed act)
    (h : (compileCompute label act).runFrom (s.builder, n) = (.ok program, s')) :
    ∃ c plan b, ComputeStage act (s.builder, n) c plan b ∧
      b.DeclaresStructs plan c program.compute := by
  obtain ⟨c, plan, b, t, ht, hown, ⟨n', hstage⟩, hbind, hsrc⟩ :=
    session_of_compileCompute hs hn hact hown h
  obtain ⟨hnamed, hfunctions⟩ := isNamed_of_stage hactnamed hnamed hstage
  exact ⟨c, plan, b, ⟨_, hstage, hbind⟩, ht.declaresStructs hbind hnamed hown
    (List.forall_mem_singleton.mpr hfunctions) (by simp) hsrc⟩

/-- In every program that a script builds in a session, for every target, the source of each stage
declares the structs that it spells: each of them once, and after those that it contains. They are
read from its text. The names that the session has been given are identifiers, as those that scripts
declare always are. -/
theorem structs_declared (s : Session) (n : Notes) (hs : s.Reachable) (hn : s.KnowsNames n)
    (hnamed : s.builder.IsNamed) (label : String) (tolerant : Bool) :
    (∀ (vertex fragment : Script) (s' : Builder × Notes) (program : RenderProgram),
      (render label (body (runAll tolerant vertex)) (body (runAll tolerant fragment))).runFrom
          (s.builder, n) = (.ok program, s') →
        ∃ v f plan b, RenderStages (body (runAll tolerant vertex)) (body (runAll tolerant fragment))
            ({ s.builder with phase := .building }, n) v f plan b ∧
          b.DeclaresStructs plan v program.vertex ∧
          b.DeclaresStructs plan f program.fragment) ∧
    ∀ (steps : Script) (s' : Builder × Notes) (program : ComputeProgram),
      (compute label (body (runAll tolerant steps))).runFrom (s.builder, n) = (.ok program, s') →
        ∃ c plan b, ComputeStage (body (runAll tolerant steps))
            ({ s.builder with phase := .building }, n) c plan b ∧
          b.DeclaresStructs plan c program.compute := by
  have hsimulates : ∀ steps : Script, Simulates (body (runAll tolerant steps)) :=
    fun steps => traces_body (simulates_runAll tolerant steps)
  constructor
  · intro vertex fragment s' program h
    obtain ⟨s₁, hcompile⟩ := compiled_of_asProgram h
    exact structs_of_compileRender hs.building hn
      (IsPersistent.phase (R := Builder.StaysNamed) s.builder .building hnamed) (hsimulates vertex)
      (hsimulates fragment) (retains_body tolerant vertex) (retains_body tolerant fragment)
      (staysNamed_body tolerant vertex) (staysNamed_body tolerant fragment) hcompile
  · intro steps s' program h
    obtain ⟨s₁, hcompile⟩ := compiled_of_asProgram h
    exact structs_of_compileCompute hs.building hn
      (IsPersistent.phase (R := Builder.StaysNamed) s.builder .building hnamed) (hsimulates steps)
      (retains_body tolerant steps) (staysNamed_body tolerant steps) hcompile

/-- Lamps, padded under `std140` rules. -/
def lampShape : TypeShape :=
  .struct (some "Lamp") .std140 [("levels", .array (.scalar .i32) 2)]

/-- A room with lamps. -/
def roomShape : TypeShape :=
  .struct (some "Room") .std140 [("lamps", .array lampShape 3), ("count", .scalar .i32)]

/-- A vertex stage that takes a lamp of a room. -/
def roomVertex : Script :=
  [(false, .operation (.uniform "room" roomShape 0) none),
    (false, .main [
      (false, .operation (.member "room" "lamps") (some "lamps")),
      (false, .operation (.element "lamps" (.host (.int 1))) (some "second")),
      (false, .operation (.declareLocal "lamp" (.named "second")) none)])]

/-- A fragment stage that does nothing. -/
def restingFragment : Script := [(false, .main [])]

/-- A stage that computes, and sets a padded level of a lamp. -/
def roomSteps : Script :=
  [(false, .operation (.storage "room" roomShape 0 false) none),
    (false, .main [
      (false, .operation (.member "room" "lamps") (some "lamps")),
      (false, .operation (.element "lamps" (.host (.int 1))) (some "lamp")),
      (false, .operation (.member "lamp" "levels") (some "levels")),
      (false, .operation (.element "levels" (.host (.int 0))) (some "level")),
      (false, .operation (.assign "level" (.host (.int 7))) none)])]

/-- A program that draws with a room, built by a new builder. -/
def drawRoom : Except ShaderError RenderProgram × (Builder × Notes) :=
  (render "p" (body (runAll false roomVertex)) (body (runAll false restingFragment))).runFrom
    (Builder.new { target := .webGL2 }, {})

/-- A program that computes with a room, built by a new builder. -/
def computeRoom : Except ShaderError ComputeProgram × (Builder × Notes) :=
  (compute "p" (body (runAll false roomSteps))).runFrom (Builder.new { target := .webGPU }, {})

/-- The program of the room is built. -/
theorem isOk_drawRoom : drawRoom.1.isOk = true := by decide +kernel

/-- The computation of the room is built. -/
theorem isOk_computeRoom : computeRoom.1.isOk = true := by decide +kernel

/-- Both programs declare the structs of the room. -/
theorem room_structs_declared :
    (∃ program s', drawRoom = (.ok program, s') ∧ ∃ v f plan b,
      RenderStages (body (runAll false roomVertex)) (body (runAll false restingFragment))
        ({ Builder.new { target := .webGL2 } with phase := .building }, {}) v f plan b ∧
      b.DeclaresStructs plan v program.vertex ∧ b.DeclaresStructs plan f program.fragment) ∧
    ∃ program s', computeRoom = (.ok program, s') ∧ ∃ c plan b,
      ComputeStage (body (runAll false roomSteps))
        ({ Builder.new { target := .webGPU } with phase := .building }, {}) c plan b ∧
      b.DeclaresStructs plan c program.compute := by
  obtain ⟨program, s', hrender⟩ := exists_of_isOk isOk_drawRoom
  obtain ⟨program', s'', hcompute⟩ := exists_of_isOk isOk_computeRoom
  have hknows : ∀ config, KnowsNames { builder := .new config } {} := by simp [KnowsNames]
  constructor
  · exact ⟨program, s', hrender, (structs_declared _ {} (.new { target := .webGL2 }) (hknows _)
      (Builder.isNamed_new _) "p" false).1 roomVertex restingFragment s' program hrender⟩
  · exact ⟨program', s'', hcompute, (structs_declared _ {} (.new { target := .webGPU }) (hknows _)
      (Builder.isNamed_new _) "p" false).2 roomSteps s'' program' hcompute⟩

end Script

end WebShader
