import WebShader.Proofs.AuthoredScopes

/-!
# Scopes of programs and scripts

Building a program leaves the stage at hand alone or takes it away, so whatever a script does it
keeps what it should. A stage that a script has built then has scopes with names of their own.
-/

namespace WebShader

/-! ## Stages that have been built -/

/-- A stage that has been built has sound declarations, and the variables of each scope of its entry
point have names of their own. -/
structure BuiltStage.Sound (target : Target) (vars : Array Variable) (s : BuiltStage) : Prop where
  decls : s.decls.Sound target vars
  main : ∀ scope ∈ Stmt.blockScopes [] s.main, Locals vars scope

/-- A stage stays sound as variables are added. -/
theorem BuiltStage.Sound.extends {target : Target} {vars vars' : Array Variable} {s : BuiltStage}
    (h : s.Sound target vars) (hvars : Extends vars vars') : s.Sound target vars' :=
  ⟨h.decls.extends hvars, fun scope hscope => (h.main scope hscope).extends hvars⟩

/-- A stage that has just been opened is sound. -/
theorem sound_opened (target : Target) (vars : Array Variable) (which : Stage) :
    OpenStage.Sound target vars { decls := { stage := which } } := by
  refine ⟨⟨⟨?_, ?_, ?_, ?_⟩, List.nodup_nil, ?_⟩, ?_, ?_⟩
  all_goals
    intro x hx
    cases hx

namespace Build

theorem keeps_inputsFrom (b : Builder) (which : Stage) (earlier : List VarId) :
    (b.opened which).Keeps ((b.opened which).run (inputsFrom earlier)).2 := by
  exact followsGlobally_inputsFrom earlier _ (b.takes_opened which)

end Build

namespace Authoring

variable {σ α : Type}

/-- A stage that has been authored is sound, and keeps the options and the earlier variables. -/
theorem stage_sound {which : Stage} {earlier : List VarId} {body : Authoring σ Unit}
    (h : Follows Builder.Keeps body) {s s' : Builder × σ} {built : BuiltStage}
    (hrun : (stage which earlier body).runFrom s = (.ok built, s')) :
    s'.1.config = s.1.config ∧ built.decls.stage = which ∧ built.Sound s.1.target s'.1.vars ∧
      Extends s.1.vars s'.1.vars := by
  obtain ⟨b, t, main, hkeeps, ht, hmain, rfl, hclosed⟩ :=
    exists_authored_of_stage (Build.keeps_inputsFrom s.1 which earlier) h hrun
  rw [hclosed]
  rcases hkeeps.grows _ rfl (by simp) with hlost | ⟨t', ht', hgrows⟩
  · exact absurd (ht.symm.trans hlost) (by simp)
  · obtain rfl := Option.some.inj (ht.symm.trans ht')
    have hsound := hgrows.sound (sound_opened s.1.target s.1.vars which)
    exact ⟨hkeeps.config, hgrows.stage, ⟨hsound.decls, hsound.main main hmain⟩,
      hkeeps.vars.resolve_left (by simp [ht])⟩

end Authoring

/-! ## Scripts -/

namespace Script

open Authoring

/-- Whatever a script does, it keeps what it should. -/
theorem respected_keeps : Respected Builder.Keeps where
  func := follows_func
  main := follows_main
  scope := follows_scope
  ifThen := follows_ifThen
  elseIf := follows_elseIf
  otherwise := follows_otherwise
  forRange := follows_forRange
  whileDo := follows_whileDo
  doWhile := follows_doWhile

theorem keeps_body (tolerant : Bool) (steps : Script) :
    Follows Builder.Keeps (body (runAll tolerant steps)) :=
  follows_body (follows_runAll respected_keeps tolerant steps)

end Script

end WebShader
