import WebShader.Proofs.PrintedCalls
import WebShader.Proofs.ScriptResults

/-!
# Functions are declared before they are called

In every stage that a script builds with expressions of its own, functions only call those that were
defined before, and so does the entry point. There is no recursion, and the source of the stage
declares every function before it is called.
-/

namespace WebShader

/-! ## Scopes that are left -/

namespace Builder

variable {b b' b₁ b₂ : Builder} {f : Frame} {kind : ScopeKind} {start : Nat}

/-- A new scope is empty. -/
theorem ordered_withScope {s : OpenStage} (hs : b.stage = some s) (kind : ScopeKind) :
    b.StaysOrdered start (b.withFrame s { kind } s.frames) :=
  ordered_withStage hs rfl rfl fun h =>
    ⟨List.forall_mem_cons.mpr ⟨by simp [Records, Stmt.blockExprs], h.frames⟩, h.main, rfl⟩

/-- A scope that is left holds statements of recorded expressions. -/
theorem Leaves.records (h : b.Leaves (StaysOrdered start) kind f b') (hb : b.CallsBack start) :
    b'.CallsBack start ∧ b'.Records f.body := by
  obtain ⟨-, s, b₁, hs, hbody, hpop⟩ := h
  have hb₁ : b₁.CallsBack start := hbody (ordered_withScope hs kind hb)
  rcases Authoring.run_popScope_cases b₁ with ⟨e, hrun, -⟩ | ⟨s₁, f', g, rest, hs₁, hframes, hrun⟩
  · cases (Prod.mk.inj (hrun.symm.trans hpop)).1
  · obtain ⟨hf, rfl⟩ := Prod.mk.inj (hrun.symm.trans hpop)
    obtain rfl := Except.ok.inj hf
    have hrecorded := (hb₁ s₁ hs₁).frames
    rw [hframes, List.forall_mem_cons] at hrecorded
    refine ⟨ordered_withStage hs₁ rfl rfl (fun h => ⟨hrecorded.2, h.main, rfl⟩) hb₁, ?_⟩
    exact hrecorded.1.of_starts (List.prefix_refl _)

/-- A builder from which no scope can be left has not changed where that is tried. -/
theorem ordered_of_stuck {s : OpenStage} (hs : b.stage = some s)
    (hbody : (b.withFrame s { kind } s.frames).StaysOrdered start b₁) : b.StaysOrdered start b₁ :=
  fun hb => hbody (ordered_withScope hs kind hb)

/-- The statement that closes a scope is made of recorded expressions. -/
theorem ordered_construct {st : Stmt NodeId} (hleaves : b.Leaves (StaysOrdered start) kind f b₁)
    (h : b₁.StaysOrdered start b₂) (hsize : b₁.nodes.size ≤ b₂.nodes.size ∨ b₂.stage = none)
    (hst : ∀ n ∈ st.exprs, n ∈ Stmt.blockExprs f.body ∨ n.index < b₂.nodes.size) :
    b.StaysOrdered start (b₂.run (Build.emit st)).2 := by
  intro hb
  obtain ⟨hb₁, hbody⟩ := hleaves.records hb
  rcases hsize with hsize | hnone
  · refine Build.ordered_emit (fun n hn => ?_) (h hb₁)
    rcases hst n hn with hn | hn
    · exact Nat.lt_of_lt_of_le (hbody n hn) hsize
    · exact hn
  · -- without a stage, no statement is emitted
    rcases Build.run_emit_cases b₂ st with ⟨e, hrun⟩ | ⟨s, f, rest, hs, -⟩
    · rw [hrun]
      exact h hb₁
    · cases hnone.symm.trans hs

/-- A branch is joined to a conditional with what its scope has recorded. -/
theorem ordered_join {g : Stmt NodeId → Option (Stmt NodeId)} (failure : InternalFault)
    (hleaves : b.Leaves (StaysOrdered start) kind f b₁)
    (hg : ∀ st st', g st = some st' → ∀ n ∈ st'.exprs,
      n ∈ st.exprs ∨ n ∈ Stmt.blockExprs f.body ∨ n.index < b₁.nodes.size) :
    b.StaysOrdered start (b₁.run (Build.extendLast failure g)).2 := by
  intro hb
  obtain ⟨hb₁, hbody⟩ := hleaves.records hb
  refine Build.ordered_extendLast (fun st st' hst n hn => ?_) hb₁
  rcases hg st st' hst n hn with hn | hn | hn
  · exact Or.inl hn
  · exact Or.inr (hbody n hn)
  · exact Or.inr hn

end Builder

/-! ## Whatever runs -/

/-- Showing a result leaves the builder to what gives it. -/
theorem Script.builder_runFrom_showResult (act : Build Expr) (s : Builder × Notes) :
    ((showResult act).runFrom s).2.1 = (s.1.run act).2 := by
  unfold showResult
  rw [Authoring.runFrom_bind, Authoring.runFrom_lift]
  rcases s.1.run act with ⟨_ | _, b⟩ <;> rfl

namespace Session

open Script

variable {s : Session} {n n' : Notes} {op : Operation} {act : Run Reply} {start : Nat}

/-- Operations on handles that the author knows only call functions that have been defined, and
emit statements of recorded expressions. -/
theorem ordered_operation (hs : s.Reachable) (hn : s.KnowsNames n) (hop : op ≠ .reset)
    (h : op.action n = .ok act) :
    s.builder.StaysOrdered start (act.runFrom (s.builder, n')).2.1 := by
  have hb := hs.typed.builder
  have hexpr : ∀ {name e}, exprOf n name = .ok e → s.builder.Carries e :=
    fun he => hs.typed.known _ (holds_of_exprOf hn he)
  have hvalue : ∀ {o v}, Operand.value n o = .ok v → s.builder.Knows v :=
    fun hv => hs.typed.knows (holds_of_value hn hv)
  cases op with
  | declareLocal name value =>
      obtain ⟨v, hv, h⟩ := bind_eq_ok_iff.mp h
      rw [← Except.ok.inj h, builder_runFrom_showResult]
      exact Build.ordered_declareLocal hb name (hvalue hv)
  | declareVar name shape =>
      rw [← Except.ok.inj h, builder_runFrom_showResult]
      exact Build.ordered_declareVar name shape
  | assignNamed name value =>
      obtain ⟨v, hv, h⟩ := bind_eq_ok_iff.mp h
      rw [← Except.ok.inj h, builder_runFrom_showResult]
      exact Build.ordered_assignNamed hb name (hvalue hv)
  | assign target value =>
      obtain ⟨e, he, h⟩ := bind_eq_ok_iff.mp h
      obtain ⟨v, hv, h⟩ := bind_eq_ok_iff.mp h
      rw [← Except.ok.inj h, builder_runFrom_quietly]
      exact Build.ordered_assign hb (hexpr he) (hvalue hv)
  | assignOp target op value =>
      obtain ⟨e, he, h⟩ := bind_eq_ok_iff.mp h
      obtain ⟨v, hv, h⟩ := bind_eq_ok_iff.mp h
      rw [← Except.ok.inj h, builder_runFrom_quietly]
      exact Build.ordered_assignOp hb (hexpr he) op (hvalue hv)
  | assignBuiltin x value =>
      obtain ⟨v, hv, h⟩ := bind_eq_ok_iff.mp h
      rw [← Except.ok.inj h, builder_runFrom_quietly]
      exact Build.ordered_assignBuiltin hb x (hvalue hv)
  | eval target =>
      obtain ⟨e, he, h⟩ := bind_eq_ok_iff.mp h
      rw [← Except.ok.inj h, builder_runFrom_quietly]
      exact Build.ordered_eval (hexpr he)
  | call name args =>
      obtain ⟨vs, -, h⟩ := bind_eq_ok_iff.mp h
      rw [← Except.ok.inj h, builder_runFrom_showResult]
      exact Build.ordered_call name vs
  | returnValue value =>
      obtain ⟨v, hv, h⟩ := bind_eq_ok_iff.mp h
      rw [← Except.ok.inj h, builder_runFrom_quietly]
      exact Build.ordered_returnValue hb (hvalue hv)
  | returnVoid =>
      rw [← Except.ok.inj h, builder_runFrom_quietly]
      exact Build.ordered_returnVoid
  | breakLoop | continueLoop =>
      rw [← Except.ok.inj h, builder_runFrom_quietly]
      exact Build.ordered_jump rfl s.builder
  | discard =>
      rw [← Except.ok.inj h, builder_runFrom_quietly]
      exact Build.ordered_discard s.builder
  | _ =>
      exact (follows_operation_of_not_emits (R := Builder.NestsOrdered start) hop rfl h
        (s.builder, n')).2

end Session

/-- Whatever a script does, functions only call earlier ones. -/
instance {start : Nat} : IsTraced (Builder.StaysOrdered start) where
  newVar := Build.ordered_newVar
  inherit _ := Build.ordered_modifyStage fun _ => ⟨rfl, rfl, rfl⟩
  operation := Session.ordered_operation
  reset b _ := Builder.callsBack_of_none rfl
  leave h hb := (h.records hb).1
  stuck _ hs hbody _ := Builder.ordered_of_stuck hs hbody
  construct hleaves h _ := Builder.ordered_construct hleaves h
  extend failure hleaves _ := Builder.ordered_join failure hleaves
  func {name b f b₁ b₂ t} fn hleaves hrun _ hbody hb := by
    obtain ⟨hb₁, hrecorded⟩ := hleaves.records hb
    have hadds : b₁.Adds b₂ := (Build.follows_resultType name f).of_run hrun
    refine Build.ordered_addFunction ?_ (Builder.ordered_of_adds hadds hb₁)
    rw [hbody]
    exact hrecorded.of_starts hadds.nodes
  main hleaves hb := by
    obtain ⟨hb₁, hrecorded⟩ := hleaves.records hb
    exact Build.ordered_setMain hrecorded hb₁
  finish b _ := Builder.callsBack_of_none rfl
  stage _ _ _ := Builder.callsBack_of_none rfl

namespace Script

open Authoring Session

/-- In every stage that a script builds, whichever of its steps fail, functions only call those that
have been defined before them, and the entry point calls functions of the stage, if the calls that
their bodies lead to have been recorded since the stage was opened. So no function leads back to
itself; and the source that the stage is resolved to, whatever has been recorded by then, declares
each function before it is called. -/
theorem functions_precede_calls (s : Session) (n : Notes) (hs : s.Reachable) (hn : s.KnowsNames n)
    (which : Stage) (earlier : List VarId) (tolerant : Bool) (steps : Script) :
    ∀ built b n', (stage which earlier (body (runAll tolerant steps))).runFrom (s.builder, n) =
        (.ok built, (b, n')) →
      built.OwnsCalls b s.builder.nodes.size →
      built.CallsBack b ∧
      ∀ (b' : Builder) plan resolved text, b.nodes.toList <+: b'.nodes.toList →
        b'.resolve plan built = .ok resolved → resolved.text = .ok text →
        built.DeclaresFirstIn b resolved text := by
  intro built b n' hrun hown
  have hbody : Traces (Builder.StaysOrdered s.builder.nodes.size) (body (runAll tolerant steps)) :=
    traces_body (traces_runAll tolerant steps)
  -- the stage is closed in the session that its body has left
  obtain ⟨authored, st, main, hauthored, hleads, hst, hmain, rfl, hclosed, hreachable⟩ :=
    exists_session_of_stage hs hn hbody hrun
  obtain rfl : b = { authored.builder with stage := none } := hclosed
  have hback := hleads.2 (s.builder.callsBack_opened which)
  have hcalls := hback.built hauthored.typed.builder hst hmain hown
  refine ⟨hcalls, fun b' plan resolved text hnodes hresolved htext => ?_⟩
  refine hcalls.declaresFirstIn hreachable.typed.builder hnodes (fun fn hfn => ?_) ?_ hresolved
    htext
  · obtain ⟨k, hk⟩ := List.mem_iff_getElem?.mp hfn
    exact ((hback st hst).functions k fn hk).records
  · exact (hback st hst).main main hmain

/-- A vertex stage that records expressions and calls nothing. -/
def callingVertex : Script :=
  [(false, .main [(false, .operation (.declareLocal "x" (.host (.int 1))) none)])]

/-- A function, a call of it outside of all functions, and a second function and an entry point that
both use what that call gives. -/
def sharedCall : Script :=
  [(false, .func "double" [("x", .scalar .i32)] [
      (false, .operation (.binary .mul (.named "x") (.host (.int 2))) (some "twice")),
      (false, .operation (.returnValue (.named "twice")) none)]),
    (false, .operation (.call "double" [.host (.int 3)]) (some "six")),
    (false, .func "shifted" [("x", .scalar .i32)] [
      (false, .operation (.binary .add (.named "x") (.named "six")) (some "sum")),
      (false, .operation (.returnValue (.named "sum")) none)]),
    (false, .main [
      (false, .operation (.call "shifted" [.named "six"]) (some "y")),
      (false, .operation (.declareLocal "z" (.named "y")) none)])]

/-- The builder and the notes after the vertex stage. -/
def afterVertex : Builder × Notes :=
  ((stage .vertex [] (body (runAll false callingVertex))).runFrom
    (Builder.new { target := .webGPU }, {})).2

/-- The fragment stage after it. -/
def sharedCallStage : Except ShaderError BuiltStage × (Builder × Notes) :=
  (stage .fragment [] (body (runAll false sharedCall))).runFrom afterVertex

/-- The stage bound by the builder it leaves, resolved, and its source. -/
def sharedCallSource : Except ShaderError (Binding.Plan × ResolvedStage × String) := do
  let built ← sharedCallStage.1
  let plan ← (sharedCallStage.2.1.run (Build.bindStages [built])).1
  let resolved ← (sharedCallStage.2.1.run (Build.bindStages [built])).2.resolve plan built
  return (plan, resolved, ← resolved.text)

/-- The source with the shared call is printed. -/
theorem isOk_sharedCallSource : sharedCallSource.isOk = true := by decide +kernel

/-- The second function uses an expression that calls the first one. -/
theorem calls_sharedCall {built : BuiltStage} (h : sharedCallStage.1 = .ok built) :
    built.Calls sharedCallStage.2.1 1 0 := by
  have hbody : (sharedCallStage.1.toOption.bind fun built =>
      built.decls.functions[1]?.map fun fn => Stmt.blockExprs fn.body) = some [⟨8⟩] := by
    decide +kernel
  have hsum : (sharedCallStage.2.1.node? ⟨8⟩).map (·.kind.operands) = some [⟨7⟩, ⟨6⟩] := by
    decide +kernel
  have hcall : (sharedCallStage.2.1.node? ⟨6⟩).map (·.kind.callee?) = some (some ⟨0⟩) := by
    decide +kernel
  rw [h] at hbody
  obtain ⟨fn, hfn, hbody⟩ := Option.map_eq_some_iff.mp hbody
  obtain ⟨sum, hsum, hoperands⟩ := Option.map_eq_some_iff.mp hsum
  obtain ⟨call, hcall, hcallee⟩ := Option.map_eq_some_iff.mp hcall
  have hoperand : Builder.HasOperand sharedCallStage.2.1 ⟨8⟩ ⟨6⟩ :=
    ⟨sum, hsum, by rw [hoperands]; simp⟩
  have hleads : ∃ root ∈ Stmt.blockExprs fn.body,
      Relation.ReflTransGen (Builder.HasOperand sharedCallStage.2.1) root ⟨6⟩ :=
    ⟨⟨8⟩, by rw [hbody]; simp, .single hoperand⟩
  exact ⟨fn, ⟨6⟩, ⟨0⟩, hfn, ⟨hleads, call, hcall, hcallee⟩, rfl⟩

/-- The builder after the vertex stage is reached in a session. -/
theorem reachable_afterVertex : ∃ s : Session, s.Reachable ∧ s.builder = afterVertex.1 ∧
    s.KnowsNames afterVertex.2 := by
  obtain ⟨s, hs, -, hb, hn, -⟩ := plays_stage (R := fun _ _ => True)
    (.new { target := .webGPU }) (n := {}) (by simp [KnowsNames]) .vertex [] (by simp)
    (traces_body (traces_runAll false callingVertex))
  exact ⟨s, hs, hb, hn⟩

/-- Both functions are defined, and stand in the source in their order. -/
theorem sharedCall_goes_back : ∃ (built : BuiltStage) (b b' : Builder) (n : Notes)
    (plan : Binding.Plan) (resolved : ResolvedStage) (text : String),
    sharedCallStage = (.ok built, (b, n)) ∧
    built.decls.functions.map (·.name) = ["double", "shifted"] ∧ built.Calls b 1 0 ∧
    built.OwnsCalls b afterVertex.1.nodes.size ∧ b.nodes.toList <+: b'.nodes.toList ∧
    b'.resolve plan built = .ok resolved ∧ resolved.text = .ok text ∧
    built.CallsBack b ∧ built.DeclaresFirstIn b resolved text := by
  have hsource := isOk_sharedCallSource
  cases hrun : sharedCallSource with
  | error e =>
      rw [hrun] at hsource
      cases hsource
  | ok x =>
      simp only [sharedCallSource, bind_eq_ok_iff] at hrun
      obtain ⟨built, hbuilt, plan, -, resolved, hresolved, text, htext, -⟩ := hrun
      obtain ⟨s, hs, hb, hn⟩ := reachable_afterVertex
      have hstage : sharedCallStage = (.ok built, (sharedCallStage.2.1, sharedCallStage.2.2)) :=
        Prod.ext hbuilt rfl
      have hnames : (sharedCallStage.1.toOption.map fun built =>
          built.decls.functions.map (·.name)) = some ["double", "shifted"] := by
        decide +kernel
      rw [hbuilt] at hnames
      have hown : built.OwnsCalls sharedCallStage.2.1 afterVertex.1.nodes.size :=
        Builder.ownsCalls_of_take (by decide +kernel) built
      have hnodes := (Build.rearranges_bindStages [built] sharedCallStage.2.1).extends.nodes
      have hkept := functions_precede_calls s afterVertex.2 hs hn .fragment [] false sharedCall
        built sharedCallStage.2.1 sharedCallStage.2.2
      rw [hb] at hkept
      obtain ⟨hback, hprinted⟩ := hkept hstage hown
      exact ⟨built, _, _, _, plan, resolved, text, hstage, Option.some.inj hnames,
        calls_sharedCall hbuilt, hown, hnodes, hresolved, htext, hback,
        hprinted _ plan resolved text hnodes hresolved htext⟩

end Script

end WebShader
