import WebShader.Proofs.ConstantSessions
import WebShader.Proofs.PrintedConstants
import WebShader.Proofs.ScriptCalls

/-!
# Scripts that declare constants

Whatever a script does in a stage, the constants of the stage that is built can be evaluated in the
order of their declarations, and its source prints them in that order.
-/

namespace WebShader

/-- The constants of a stage are resolved to the same trees when the builder has grown. -/
theorem BuiltStage.FoldsConstants.constants_eq {b b' : Builder} {st : BuiltStage}
    {trees : List (Variable × Term)} {plan : Binding.Plan} {s : ResolvedStage}
    (h : st.FoldsConstants b trees) (hnodes : b.nodes.toList <+: b'.nodes.toList)
    (hvars : b.vars.toList <+: b'.vars.toList) (hs : b'.resolve plan st = .ok s) :
    s.constants = trees := by
  obtain ⟨-, -, -, -, hconstants, -⟩ := Builder.resolve_eq_ok hs
  have htrees := (mapM_eq_ok_iff.mp h.resolved).imp fun v c hc =>
    Builder.resolveConstant_of_starts hnodes hvars hc
  exact Except.ok.inj ((mapM_eq_ok_iff.mpr hconstants).symm.trans (mapM_eq_ok_iff.mpr htrees))

namespace Script

open Authoring Session

section Stages

variable {s : Session} {n n' : Notes} {which : Stage} {earlier : List VarId} {tolerant : Bool}
  {steps : Script} {built : BuiltStage} {b : Builder}

/-- In every stage that a script builds, each constant is initialized with what is made of the
constants before it, and of none that the stage has declared later. -/
theorem initializesInOrder_of_stage (hs : s.Reachable) (hn : s.KnowsNames n)
    (hrun : (stage which earlier (body (runAll tolerant steps))).runFrom (s.builder, n) =
      (.ok built, (b, n'))) :
    b.InitializesInOrder s.builder.vars.size built.decls.constants ∧
      ∃ callees, b.Typed callees := by
  have hbody : PlaysAlong (KeepsConstants s.builder.vars.size) (body (runAll tolerant steps)) :=
    playsAlong_body (playsAlong_runAll tolerant steps)
  obtain ⟨authored, st, main, hauthored, hkeeps, hst, -, rfl, hclosed, hreachable⟩ :=
    exists_session_of_stage hs hn hbody hrun
  have hordered : authored.OrdersConstants s.builder.vars.size :=
    hkeeps.2 fun _ => s.builder.ordersConstants_opened which _
  have hinit := (hordered (by simp [hst])).initializes hauthored.typed.builder hst
  rw [← hclosed] at hinit
  exact ⟨hinit, _, hreachable.typed.builder⟩

/-- A stage owns what its constants read if no constant had been declared before it was opened. -/
theorem ownsConstants_of_stage (hs : s.Reachable) (hn : s.KnowsNames n)
    (hrun : (stage which earlier (body (runAll tolerant steps))).runFrom (s.builder, n) =
      (.ok built, (b, n'))) (hnone : ∀ d ∈ s.builder.vars, d.role ≠ .constant) :
    built.OwnsConstants b s.builder.vars.size := by
  obtain ⟨-, -, -, hextends⟩ := stage_sound (Script.keeps_body tolerant steps) hrun
  exact (initializesInOrder_of_stage hs hn hrun).1.ownsConstants hextends hnone

end Stages

/-- In every stage that a script builds, whichever of its steps fail, if the variables that the
initializers of its constants read have been declared since the stage was opened: initializers are
made of parts of constants and lead, directly or through other constants, to nothing but constants
of the stage that have been declared before, so that none leads back to itself. The constants are
resolved to trees that have values in the order of their declarations, whatever literals, accesses,
operators and constructors are taken for, where no other variable has a value than the constants
before. And the stage is resolved with these trees, whatever has been recorded by then, so that its
source prints the constants in that order and names none before it is declared. -/
theorem constants_closed (s : Session) (n : Notes) (hs : s.Reachable) (hn : s.KnowsNames n)
    (which : Stage) (earlier : List VarId) (tolerant : Bool) (steps : Script) :
    ∀ built b n', (stage which earlier (body (runAll tolerant steps))).runFrom (s.builder, n) =
        (.ok built, (b, n')) →
      built.OwnsConstants b s.builder.vars.size →
      built.ClosesConstants b ∧ ∃ trees, built.FoldsConstants b trees ∧
        ∀ (b' : Builder) plan resolved, b.nodes.toList <+: b'.nodes.toList →
          b.vars.toList <+: b'.vars.toList → b'.resolve plan built = .ok resolved →
          resolved.constants = trees ∧
          ∀ text, resolved.text = .ok text → built.PrintsInOrderIn b resolved text := by
  intro built b n' hrun hown
  obtain ⟨-, -, hsound, -⟩ := stage_sound (Script.keeps_body tolerant steps) hrun
  obtain ⟨hinit, callees, hb⟩ := initializesInOrder_of_stage hs hn hrun
  obtain ⟨trees, hfolds⟩ := hinit.foldsConstants hb hown
  refine ⟨hinit.closesConstants hown, trees, hfolds, fun b' plan resolved hnodes hvars hres => ?_⟩
  have hsame := hfolds.constants_eq hnodes hvars hres
  refine ⟨hsame, fun text htext => ?_⟩
  refine hinit.printsInOrderIn hown hsound.decls.nodup ?_ ?_ htext
  · rw [hsame]
    exact mapM_eq_ok_iff.mp hfolds.resolved
  · obtain ⟨-, hvars', -⟩ := Builder.resolve_eq_ok hres
    rwa [hvars']

/-- A chain of constants, through a constructor, a swizzle, an index and an operator. On the way, a
constant is refused whose name is taken, and one that would read what only a run knows. -/
def chained : Script :=
  [(false, .operation (.constant "unit" (.host (.int 2))) none),
    (false, .operation (.construct (.primitive (.vector .i32 2)) [.named "unit", .host (.int 3)])
      (some "pair")),
    (false, .operation (.constant "corner" (.named "pair")) none),
    (false, .operation (.swizzle "corner" "yx") (some "flipped")),
    (false, .operation (.element "flipped" (.host (.int 1))) (some "side")),
    (true, .operation (.constant "unit" (.named "side")) (some "again")),
    (false, .operation (.binary .add (.named "side") (.named "unit")) (some "sum")),
    (false, .operation (.constant "reach" (.named "sum")) none),
    (false, .operation (.builtin .fragCoord) (some "coord")),
    (true, .operation (.constant "dark" (.named "coord")) none),
    (false, .main [(false, .operation (.declareLocal "edge" (.named "reach")) none)])]

/-- The fragment stage after the vertex stage. -/
def chainedStage : Except ShaderError BuiltStage × (Builder × Notes) :=
  (stage .fragment [] (body (runAll false chained))).runFrom afterVertex

/-- The stage bound by the builder it leaves, resolved, and its source. -/
def chainedSource : Except ShaderError (Binding.Plan × ResolvedStage × String) := do
  let built ← chainedStage.1
  let plan ← (chainedStage.2.1.run (Build.bindStages [built])).1
  let resolved ← (chainedStage.2.1.run (Build.bindStages [built])).2.resolve plan built
  return (plan, resolved, ← resolved.text)

/-- The source with the chained constants is printed. -/
theorem isOk_chainedSource : chainedSource.isOk = true := by decide +kernel

/-- The last constant reads the second one, which reads the first one. -/
theorem reads_chained : Relation.TransGen (Builder.InitReads chainedStage.2.1) ⟨4⟩ ⟨1⟩ := by
  have hoperand : ∀ n ms, (chainedStage.2.1.node? n).map (·.kind.operands) = some ms →
      ∀ m ∈ ms, Builder.HasOperand chainedStage.2.1 n m := by
    intro n ms h m hm
    obtain ⟨node, hnode, rfl⟩ := Option.map_eq_some_iff.mp h
    exact ⟨node, hnode, hm⟩
  have hinit : ∀ v n, (chainedStage.2.1.var? v).bind (·.init) = some n →
      ∃ d, chainedStage.2.1.var? v = some d ∧ d.init = some n :=
    fun v n h => Option.bind_eq_some_iff.mp h
  have hlast : Builder.InitReads chainedStage.2.1 ⟨4⟩ ⟨2⟩ := by
    obtain ⟨d, hd, hn⟩ := hinit ⟨4⟩ ⟨11⟩ (by decide +kernel)
    have hsum := hoperand ⟨11⟩ [⟨9⟩, ⟨3⟩] (by decide +kernel) ⟨9⟩ (by simp)
    have hside := hoperand ⟨9⟩ [⟨7⟩, ⟨8⟩] (by decide +kernel) ⟨7⟩ (by simp)
    have hflipped := hoperand ⟨7⟩ [⟨6⟩] (by decide +kernel) ⟨6⟩ (by simp)
    exact ⟨d, ⟨11⟩, ⟨6⟩, hd, hn, .head hsum (.head hside (.single hflipped)), by decide +kernel⟩
  have hsecond : Builder.InitReads chainedStage.2.1 ⟨2⟩ ⟨1⟩ := by
    obtain ⟨d, hd, hn⟩ := hinit ⟨2⟩ ⟨5⟩ (by decide +kernel)
    have hpair := hoperand ⟨5⟩ [⟨3⟩, ⟨4⟩] (by decide +kernel) ⟨3⟩ (by simp)
    exact ⟨d, ⟨5⟩, ⟨3⟩, hd, hn, .single hpair, by decide +kernel⟩
  exact .head hlast (.single hsecond)

/-- The refused constants are left out, and the others stand in the source in their order. -/
theorem chained_prints : ∃ (built : BuiltStage) (b b' : Builder) (n : Notes) (plan : Binding.Plan)
    (resolved : ResolvedStage) (text : String) (trees : List (Variable × Term)),
    chainedStage = (.ok built, (b, n)) ∧ afterVertex.1.vars.size = 1 ∧
    built.decls.constants.map (nameIn b.vars) = ["unit", "corner", "reach"] ∧
    Relation.TransGen b.InitReads ⟨4⟩ ⟨1⟩ ∧ built.OwnsConstants b afterVertex.1.vars.size ∧
    b.nodes.toList <+: b'.nodes.toList ∧ b.vars.toList <+: b'.vars.toList ∧
    b'.resolve plan built = .ok resolved ∧ resolved.text = .ok text ∧
    built.ClosesConstants b ∧ built.FoldsConstants b trees ∧
    built.PrintsInOrderIn b resolved text := by
  have hsource := isOk_chainedSource
  cases hrun : chainedSource with
  | error e =>
      rw [hrun] at hsource
      cases hsource
  | ok x =>
      simp only [chainedSource, bind_eq_ok_iff] at hrun
      obtain ⟨built, hbuilt, plan, -, resolved, hresolved, text, htext, -⟩ := hrun
      obtain ⟨s, hs, hb, hn⟩ := reachable_afterVertex
      have hstage : chainedStage = (.ok built, (chainedStage.2.1, chainedStage.2.2)) :=
        Prod.ext hbuilt rfl
      have hnames : (chainedStage.1.toOption.map fun built =>
          built.decls.constants.map (nameIn chainedStage.2.1.vars)) =
            some ["unit", "corner", "reach"] := by
        decide +kernel
      rw [hbuilt] at hnames
      have hnone : ∀ d ∈ s.builder.vars, d.role ≠ .constant := by
        rw [hb]
        decide +kernel
      have hrun : (stage .fragment [] (body (runAll false chained))).runFrom
          (s.builder, afterVertex.2) = (.ok built, (chainedStage.2.1, chainedStage.2.2)) := by
        rw [hb]
        exact hstage
      have hown := ownsConstants_of_stage hs hn hrun hnone
      have hkept := (Build.rearranges_bindStages [built] chainedStage.2.1).extends
      obtain ⟨hcloses, trees, hfolds, hprints⟩ := constants_closed s afterVertex.2 hs hn .fragment
        [] false chained built chainedStage.2.1 chainedStage.2.2 hrun hown
      rw [hb] at hown
      exact ⟨built, _, _, _, plan, resolved, text, trees, hstage, by decide +kernel,
        Option.some.inj hnames, reads_chained, hown, hkept.nodes, hkept.vars, hresolved, htext,
        hcloses, hfolds, (hprints _ plan resolved hkept.nodes hkept.vars hresolved).2 text htext⟩

end Script

end WebShader
