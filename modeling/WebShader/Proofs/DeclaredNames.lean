import WebShader.Proofs.IndifferentRelations
import WebShader.Proofs.ResolvedStages

/-!
# Declared names

Whatever is declared is declared under an identifier: variables, which parameters and counters are
too, functions, structs and their members. Not even the steps of a script that fail leave another
name behind. No more is asked of a name, so that the keywords of the target languages are names like
any other.
-/

namespace WebShader

/-! ## Named builders -/

/-- The variables of a builder, the structs among its types with their members, and the functions of
the stage at hand have identifiers for names. -/
structure Builder.IsNamed (b : Builder) : Prop where
  vars : ∀ d ∈ b.vars, isIdentifier d.name = true
  structs : b.types.NamesStructs
  functions : ∀ s, b.stage = some s → ∀ f ∈ s.decls.functions, isIdentifier f.name = true

/-- The functions of a stage that has been built have identifiers for names. -/
def BuiltStage.NamesFunctions (s : BuiltStage) : Prop :=
  ∀ f ∈ s.decls.functions, isIdentifier f.name = true

namespace Builder

variable {b b' : Builder}

/-- A new builder has declared nothing. -/
theorem isNamed_new (config : Config) : (new config).IsNamed where
  vars d hd := absurd hd (Array.not_mem_empty d)
  structs := Registry.namesStructs_empty
  functions s hs := by cases hs

/-- Nothing is declared after a reset. -/
theorem IsNamed.reset (b : Builder) : b.reset.IsNamed :=
  ⟨(isNamed_new b.config).vars, (isNamed_new b.config).structs, (isNamed_new b.config).functions⟩

/-- A stage without functions may take the place of another. -/
theorem IsNamed.withStage (hb : b.IsNamed) {stage : Option OpenStage}
    (h : ∀ s, stage = some s → ∀ f ∈ s.decls.functions, isIdentifier f.name = true) :
    IsNamed { b with stage } := ⟨hb.vars, hb.structs, h⟩

/-- A builder stays named if another one is. -/
def StaysNamed (b b' : Builder) : Prop := b.IsNamed → b'.IsNamed

instance : IsAdditive StaysNamed where
  refl _ := id
  trans _ _ _ h h' hb := h' (h hb)
  of_adds b b' h hb := by
    refine ⟨h.vars ▸ hb.vars, h.names hb.structs, fun s' hs' => ?_⟩
    have hstage := h.stage
    rw [hs'] at hstage
    generalize hs : b.stage = stage at hstage
    cases hstage with
    | @some s _ hadds =>
        have hfunctions : s'.decls.functions = s.decls.functions :=
          (congrArg (fun s : OpenStage => s.decls.functions) hadds.stem :)
        exact hfunctions ▸ hb.functions s hs

end Builder

namespace Build

open Builder (StaysNamed)

/-! ## Declarations -/

/-- A change of the stage keeps the names of functions. -/
theorem staysNamed_modifyStage {f : OpenStage → OpenStage}
    (hf : ∀ s, (∀ g ∈ s.decls.functions, isIdentifier g.name = true) →
      ∀ g ∈ (f s).decls.functions, isIdentifier g.name = true) :
    Follows StaysNamed (modifyStage f) := by
  intro b hb
  cases hs : b.stage with
  | none =>
      rw [Builder.run_modifyStage_of_none hs]
      exact hb
  | some s =>
      rw [Builder.run_modifyStage_of_some hs]
      refine hb.withStage fun s' hs' => ?_
      rw [← Option.some.inj hs']
      exact hf s (hb.functions s hs)

/-- A variable whose name is an identifier can be added. -/
theorem staysNamed_pushVar {d : Variable} (hname : isIdentifier d.name = true) :
    Follows StaysNamed (pushVar d) := by
  intro b hb
  refine ⟨fun d' hd' => ?_, hb.structs, hb.functions⟩
  rcases Array.mem_push.mp hd' with hd' | rfl
  · exact hb.vars d' hd'
  · exact hname

/-- The name of a variable is checked before the variable is recorded. -/
theorem staysNamed_newVar (name : String) (t : TypeId) (role : Role) (init : Option NodeId) :
    Follows StaysNamed (newVar name t role init) := by
  have hsame : ∀ e : Expr, Follows StaysNamed (declareSymbol name e) := by
    intro e
    have hframe : ∀ f : Frame, Follows StaysNamed (setFrame f) :=
      fun f => staysNamed_modifyStage fun _ h => h
    unfold declareSymbol
    grind
  intro b
  rw [newVar, Builder.run_bind, Builder.run_liftM]
  cases hname : checkIdentifier name with
  | error e => exact id
  | ok _ =>
      have hrest : Follows StaysNamed (do
          let s ← stage
          let v ← pushVar { name, type := t, role, stage := s.decls.stage, init }
          let e ← pushNode t (.var v)
          declareSymbol name e
          return (v, e)) :=
        .bind follows_stage fun s =>
          .bind (staysNamed_pushVar (checkIdentifier_eq_ok_iff.mp hname)) fun v =>
            .bind (follows_pushNode _ _ rfl) fun e => .bind (hsame e) fun _ => .pure _
      exact hrest b

/-- A function whose name is an identifier can be added. -/
theorem staysNamed_addFunction {f : Function} (hname : isIdentifier f.name = true) :
    Follows StaysNamed (addFunction f) := by
  refine .bind follows_stage fun _ => .bind ?_ fun _ => .pure _
  refine staysNamed_modifyStage fun s hs g hg => ?_
  rcases List.mem_append.mp hg with hg | hg
  · exact hs g hg
  · rwa [List.mem_singleton.mp hg]

instance : IsFullyIndifferent StaysNamed where
  newVar := staysNamed_newVar
  modifyStage _ hfunctions := staysNamed_modifyStage fun s hs => hfunctions s ▸ hs
  addFunction := staysNamed_addFunction

/-- A stage begins without functions. -/
instance : IsPersistent StaysNamed where
  opened b which hb := hb.withStage fun s hs f hf => by
    rw [← Option.some.inj hs] at hf
    cases hf
  closed b hb := hb.withStage fun s hs => by cases hs
  phase b phase hb := ⟨hb.vars, hb.structs, hb.functions⟩

end Build

/-! ## Programs and scripts -/

namespace Authoring

variable {σ : Type} {s s' : Builder × σ}

/-- The functions of a stage are those that it has defined when it is closed. -/
theorem isNamed_of_stage {which : Stage} {earlier : List VarId} {body : Authoring σ Unit}
    {built : BuiltStage} (h : Follows Builder.StaysNamed body) (hs : s.1.IsNamed)
    (hrun : (stage which earlier body).runFrom s = (.ok built, s')) :
    s'.1.IsNamed ∧ built.NamesFunctions := by
  have hs₁ : (s.1.opened which).IsNamed :=
    IsPersistent.opened (R := Builder.StaysNamed) s.1 which hs
  obtain ⟨b, t, main, hb, ht, -, rfl, hclosed⟩ := exists_authored_of_stage
    (Build.indifferent_inputsFrom (R := Builder.StaysNamed) earlier _) h hrun
  rw [hclosed]
  exact ⟨IsPersistent.closed (R := Builder.StaysNamed) b (hb hs₁), (hb hs₁).functions t ht⟩

/-- A named builder is one after the resources of a program have been bound. -/
theorem isNamed_of_bindStages {b b' : Builder} {stages : List BuiltStage} {plan : Binding.Plan}
    (hb : b.IsNamed) (h : b.run (Build.bindStages stages) = (.ok plan, b')) : b'.IsNamed := by
  have hbound := Build.follows_bindStages (R := Builder.StaysNamed) stages b hb
  rwa [h] at hbound

end Authoring

namespace Script

open Authoring

/-- A builder stays named along all that scripts do. -/
theorem holdsAlong_staysNamed : HoldsAlong Builder.StaysNamed fun _ => True where
  toRespected := respected_of_indifferent
  operation {_ op _} _ h := by
    by_cases hop : op = .reset
    · subst hop
      rw [← Except.ok.inj h]
      exact .bind (follows_modifyNotes _) fun _ => follows_quietly fun b _ => .reset b
    · exact indifferent_operation _ hop h
  render := holdsAlong_of_persistent.render
  compute := holdsAlong_of_persistent.compute

/-- A script only declares under names that are identifiers. -/
theorem staysNamed_runAll (tolerant : Bool) (steps : Script) :
    Follows Builder.StaysNamed (runAll tolerant steps) :=
  follows_runAll_of holdsAlong_staysNamed tolerant steps fun _ _ => trivial

/-- A body only declares under names that are identifiers. -/
theorem staysNamed_body (tolerant : Bool) (steps : Script) :
    Follows Builder.StaysNamed (body (runAll tolerant steps)) :=
  follows_body (staysNamed_runAll tolerant steps)

/-- **Declared names are identifiers.** A new builder is named, and stays so along every script,
whichever of its steps fail. In every program that a script then builds, the variables, the structs
and their members, and the functions of every stage have identifiers for names. -/
theorem declares_identifiers :
    (∀ config, (Builder.new config).IsNamed) ∧
    (∀ (tolerant : Bool) (steps : Script) (s : Builder × Notes), s.1.IsNamed →
      ((runAll tolerant steps).runFrom s).2.1.IsNamed) ∧
    ∀ (label : String) (tolerant : Bool) (s : Builder × Notes), s.1.IsNamed →
      (∀ (vertex fragment : Script) (s' : Builder × Notes) (program : RenderProgram),
        (render label (body (runAll tolerant vertex)) (body (runAll tolerant fragment))).runFrom s =
            (.ok program, s') →
          ∃ v f plan b, RenderStages (body (runAll tolerant vertex))
              (body (runAll tolerant fragment)) ({ s.1 with phase := .building }, s.2) v f plan b ∧
            b.IsNamed ∧ v.NamesFunctions ∧ f.NamesFunctions) ∧
      ∀ (steps : Script) (s' : Builder × Notes) (program : ComputeProgram),
        (compute label (body (runAll tolerant steps))).runFrom s = (.ok program, s') →
          ∃ c plan b, ComputeStage (body (runAll tolerant steps))
              ({ s.1 with phase := .building }, s.2) c plan b ∧
            b.IsNamed ∧ c.NamesFunctions := by
  refine ⟨Builder.isNamed_new, fun tolerant steps s hs => staysNamed_runAll tolerant steps s hs,
    fun label tolerant s hs => ⟨?_, ?_⟩⟩
  · intro vertex fragment s' program h
    obtain ⟨_, hcompile⟩ := compiled_of_asProgram h
    obtain ⟨v, f, plan, b, ⟨s₁, s₂, hv, hf, hbind⟩, -⟩ := renderStages_of_compileRender hcompile
    have hstart := IsPersistent.phase (R := Builder.StaysNamed) s.1 .building hs
    obtain ⟨hs₁, hvnames⟩ := isNamed_of_stage (staysNamed_body tolerant vertex) hstart hv
    obtain ⟨hs₂, hfnames⟩ := isNamed_of_stage (staysNamed_body tolerant fragment) hs₁ hf
    exact ⟨v, f, plan, b, ⟨s₁, s₂, hv, hf, hbind⟩, isNamed_of_bindStages hs₂ hbind, hvnames,
      hfnames⟩
  · intro steps s' program h
    obtain ⟨_, hcompile⟩ := compiled_of_asProgram h
    obtain ⟨-, c, plan, b, ⟨s₁, hc, hbind⟩, -⟩ := computeStage_of_compileCompute hcompile
    have hstart := IsPersistent.phase (R := Builder.StaysNamed) s.1 .building hs
    obtain ⟨hs₁, hnames⟩ := isNamed_of_stage (staysNamed_body tolerant steps) hstart hc
    exact ⟨c, plan, b, ⟨s₁, hc, hbind⟩, isNamed_of_bindStages hs₁ hbind, hnames⟩

-- a keyword and the name that WGSL gives to what is discarded are identifiers as well
example : isIdentifier "if" = true ∧ isIdentifier "_" = true := by decide

end Script

end WebShader
