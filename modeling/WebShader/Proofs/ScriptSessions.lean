import WebShader.Proofs.SessionParts

/-!
# Scripts are sessions

Whatever a script does is a part of a session: it only works on handles that it has been given, and
the bodies of its stages, functions and statements open and close by the finer steps of sessions. So
every builder that a script leaves is typed.
-/

namespace WebShader

namespace Script

open Authoring Session

/-- A run that is a part of every session, whatever it has been given, and keeps a relation. -/
abbrev Traces {α : Type} (R : Builder → Builder → Prop) (act : Run α) : Prop :=
  PlaysAlong (Leads R) act

/-- A run that is a part of every session. -/
abbrev Simulates {α : Type} (act : Run α) : Prop := Traces (fun _ _ => True) act

variable {α : Type} {L : Session → Session → Prop} {R : Builder → Builder → Prop}
variable {s : Session} {n : Notes} {body : Run Unit}

/-! ## Control flow -/

section ControlFlow

variable [IsStepped L]

section Conditions

variable (hs : s.Reachable) (hn : s.KnowsNames n)

include hs hn

/-- The first branch plays its condition and its body. -/
theorem plays_ifThen {cond : Value} (hcond : s.Knows cond) (hbody : PlaysAlong L body) :
    Plays L (ifThen cond body) s n fun _ s' => s.Grows s' := by
  refine (plays_reads hs hn (Build.reads_requireFunction _)).bind ?_
  rintro _ _ n₁ hs₁ hn₁ - ⟨rfl, -⟩
  refine (plays_condition hs₁ hn₁ hcond).bind fun c s₂ n₂ hs₂ hn₂ _ ⟨hgrows, hc⟩ => ?_
  refine (IsStepped.construct hs₂ hn₂ (.conditional c) (fun block e he => ?_) hbody).mono ?_
  · have he : e = c ∨ e ∈ Stmt.blockExprs block := by simpa [Stmt.exprs, Stmt.branchExprs] using he
    rcases he with rfl | he
    · exact Or.inr hc
    · exact Or.inl he
  exact fun _ _ _ h => hgrows.trans h

/-- A later branch plays its condition and its body. -/
theorem plays_elseIf {cond : Value} (hcond : s.Knows cond) (hbody : PlaysAlong L body) :
    Plays L (elseIf cond body) s n fun _ s' => s.Grows s' := by
  refine (plays_condition hs hn hcond).bind fun c s₁ n₁ hs₁ hn₁ _ ⟨hgrows, hc⟩ => ?_
  have hbranch : ∀ block, Stmt.Joins block (Stmt.addBranch? c block) := fun _ => .branch c
  refine (IsStepped.join hs₁ hn₁ hbranch _ (fun block st st' hst e he => ?_) hbody).mono ?_
  · rw [Stmt.exprs_addBranch hst, List.mem_append, List.mem_cons] at he
    rcases he with he | rfl | he
    · exact Or.inl he
    · exact Or.inr (Or.inr hc)
    · exact Or.inr (Or.inl he)
  exact fun _ _ _ h => hgrows.trans h

/-- A loop plays its condition and its body. -/
theorem plays_whileDo {cond : Value} (hcond : s.Knows cond) (hbody : PlaysAlong L body) :
    Plays L (whileDo cond body) s n fun _ _ => True := by
  refine (plays_reads hs hn (Build.reads_requireFunction _)).bind ?_
  rintro _ _ n₁ hs₁ hn₁ - ⟨rfl, -⟩
  refine (plays_condition hs₁ hn₁ hcond).bind fun c s₂ n₂ hs₂ hn₂ _ ⟨_, hc⟩ => ?_
  refine (IsStepped.construct hs₂ hn₂ (.whileDo c) (fun block e he => ?_) hbody).mono
    fun _ _ _ _ => trivial
  rw [Stmt.exprs, List.mem_cons] at he
  rcases he with rfl | he
  · exact Or.inr hc
  · exact Or.inl he

end Conditions

/-- The last branch plays its body. -/
theorem playsAlong_otherwise (hbody : PlaysAlong L body) : PlaysAlong L (otherwise body) := by
  intro s n hs hn
  have hotherwise : ∀ block, Stmt.Joins block (Stmt.addElse? block) := fun _ => .otherwise
  refine (IsStepped.join hs hn hotherwise _ (fun block st st' hst e he => ?_) hbody).mono
    fun _ _ _ _ => trivial
  rw [Stmt.exprs_addElse hst, List.mem_append] at he
  exact he.imp_right Or.inl

/-- A block plays its body. -/
theorem playsAlong_scope (hbody : PlaysAlong L body) : PlaysAlong L (scope body) := by
  intro s n hs hn
  refine (plays_reads hs hn (Build.reads_requireFunction _)).bind ?_
  rintro _ _ n₁ hs₁ hn₁ - ⟨rfl, -⟩
  refine (IsStepped.construct hs₁ hn₁ .block (fun block e he => ?_) hbody).mono
    fun _ _ _ _ => trivial
  rw [Stmt.exprs] at he
  exact Or.inl he

/-- The body of a loop is given its counter. -/
theorem plays_counted (hs : s.Reachable) (hn : s.KnowsNames n) (counter : String) {t : TypeId}
    (ht : t.index < s.builder.types.size) {body : Expr → Run Unit}
    (hbody : ∀ e s n, s.Reachable → s.KnowsNames n → e ∈ s.known →
      Plays L (body e) s n fun _ _ => True) :
    Plays L (do
      let (v, e) ← (Build.newVar counter t .localVar : Run (VarId × Expr))
      body e
      return v) s n fun _ _ => True := by
  refine (IsStepped.newVar hs hn counter .localVar nofun none ht).bind ?_
  rintro ⟨v, e⟩ s₁ n₁ hs₁ hn₁ - ⟨-, he⟩
  exact (hbody e s₁ n₁ hs₁ hn₁ he).bind fun _ s₂ n₂ hs₂ hn₂ _ _ => .pure hs₂ hn₂ trivial

/-- The body of a function is given its parameters. -/
theorem plays_parameterized (hs : s.Reachable) (hn : s.KnowsNames n)
    {params : List (String × TypeId)} (hparams : ∀ p ∈ params, p.2.index < s.builder.types.size)
    {body : List Expr → Run Unit}
    (hbody : ∀ es s n, s.Reachable → s.KnowsNames n → (∀ e ∈ es, e ∈ s.known) →
      Plays L (body es) s n fun _ _ => True) :
    Plays L (do
      let declared ← (Build.declareParams params : Run (List (VarId × Expr)))
      body (declared.map (·.2))
      return declared.map (·.1)) s n fun _ _ => True := by
  refine (plays_declareParams hs hn hparams).bind ?_
  rintro declared s₁ n₁ hs₁ hn₁ - ⟨-, hknown⟩
  have hgiven : ∀ e ∈ declared.map (·.2), e ∈ s₁.known := by
    intro e he
    obtain ⟨x, hx, rfl⟩ := List.mem_map.mp he
    exact hknown x hx
  refine (hbody _ s₁ n₁ hs₁ hn₁ hgiven).bind fun _ s₂ n₂ hs₂ hn₂ _ _ => ?_
  exact .pure hs₂ hn₂ trivial

end ControlFlow

section Traces

variable [IsTraced R]

/-! ## Loops -/

/-- The author is given the counter of a loop. -/
theorem plays_forRange (hs : s.Reachable) (hn : s.KnowsNames n) (counter : String)
    {first last : Value} {body : Expr → Run Unit} (hfirst : s.Knows first) (hlast : s.Knows last)
    (hbody : ∀ e s n, s.Reachable → s.KnowsNames n → e ∈ s.known →
      Plays (Leads R) (body e) s n fun _ _ => True) :
    Plays (Leads R) (forRange counter first last body) s n fun _ _ => True := by
  refine (plays_reads hs hn (Build.reads_requireFunction _)).bind ?_
  rintro _ _ n₁ hs₁ hn₁ - ⟨rfl, -⟩
  refine (plays_lowerPair hs₁ hn₁ hfirst hlast).bind ?_
  rintro ⟨first, last⟩ s₂ n₂ hs₂ hn₂ - ⟨-, hfirst, hlast⟩
  refine (plays_reads hs₂ hn₂ (Build.reads_requireBounds first last)).bind ?_
  rintro _ s₃ n₃ hs₃ hn₃ - ⟨rfl, hbounds⟩
  have ht : first.type.index < s₃.builder.types.size := Build.lt_size_of_run_requireBounds hbounds
  refine (plays_inScope hs₃ hn₃ .loop rfl fun s' n' hs' hn' hgrows' => ?_).bind_from
    (refl_of R s₃.builder) ?_
  · have ht' := Nat.lt_of_lt_of_le ht hgrows'.builder.types_size_le
    exact plays_counted hs' hn' counter ht' hbody
  · rintro ⟨result, frame⟩ s₄ n₄ hs₄ hn₄ - ⟨hgrows, hleaves⟩
    cases result with
    | ok v =>
        have hexprs : ∀ e ∈ (Stmt.forRange v first.node last.node frame.body).exprs,
            e ∈ Stmt.blockExprs frame.body ∨ e.index < s₄.builder.nodes.size := by
          intro e he
          rw [Stmt.exprs, List.mem_cons, List.mem_cons] at he
          rcases he with rfl | rfl | he
          · exact Or.inr (hgrows.lt_size hfirst)
          · exact Or.inr (hgrows.lt_size hlast)
          · exact Or.inl he
        have hemit := IsTraced.construct hleaves (refl_of R s₄.builder)
          (.forRange v first.node last.node frame.body) (Or.inl le_rfl) hexprs
        exact (Plays.rearranges_from hs₄ hn₄ (Build.rearranges_emit _) hemit).mono
          fun _ _ _ _ => trivial
    | error e => exact .throw_from hs₄ hn₄ (IsTraced.leave hleaves) e

/-- The condition of a loop that tests it at the end is known once the loop has run. -/
theorem traces_doWhile {cond : Run Value} (hbody : Traces R body)
    (hcond : ∀ s n, s.Reachable → s.KnowsNames n →
      Plays (Leads R) cond s n fun v s' => s'.Knows v) :
    Traces R (doWhile body cond) := by
  intro s n hs hn
  refine (plays_reads hs hn (Build.reads_requireFunction _)).bind ?_
  rintro _ _ n₁ hs₁ hn₁ - ⟨rfl, -⟩
  refine (plays_collect hs₁ hn₁ .loop rfl fun s' n' hs' hn' _ => hbody s' n' hs' hn').bind_from
    (refl_of R _) ?_
  rintro _ s₂ n₂ hs₂ hn₂ - ⟨-, f, rfl, hleaves⟩
  have hleave := IsTraced.leave hleaves
  -- the loop has been left while its condition is built
  refine (hcond s₂ n₂ hs₂ hn₂).bind_from hleave fun v s₃ n₃ hs₃ hn₃ hleads hv => ?_
  refine (plays_condition hs₃ hn₃ hv).bind_from (trans_of R hleave hleads.2) ?_
  rintro c s₄ n₄ hs₄ hn₄ hleads' ⟨-, hc⟩
  have hexprs : ∀ e ∈ (Stmt.doWhile f.body c).exprs,
      e ∈ Stmt.blockExprs f.body ∨ e.index < s₄.builder.nodes.size := by
    intro e he
    rw [Stmt.exprs, List.mem_append, List.mem_singleton] at he
    rcases he with he | rfl
    · exact Or.inl he
    · exact Or.inr hc
  have hlater := trans_of Later hleads.1 hleads'.1
  have hemit := IsTraced.construct hleaves (trans_of R hleads.2 hleads'.2) (.doWhile c f.body)
    (hlater.grows.imp_left Grows.size_le) hexprs
  exact (Plays.rearranges_from hs₄ hn₄ (Build.rearranges_emit _) hemit).mono fun _ _ _ _ => trivial

/-! ## Functions -/

/-- The author is given the parameters of a function. -/
theorem plays_func (hs : s.Reachable) (hn : s.KnowsNames n) (name : String)
    (params : List (String × TypeShape)) {body : List Expr → Run Unit}
    (hbody : ∀ es s n, s.Reachable → s.KnowsNames n → (∀ e ∈ es, e ∈ s.known) →
      Plays (Leads R) (body es) s n fun _ _ => True) :
    Plays (Leads R) (func name params body) s n fun _ _ => True := by
  refine (plays_reads hs hn (Build.reads_checkFunctionName name)).bind ?_
  rintro _ s₁ n₁ hs₁ hn₁ - ⟨rfl, -⟩
  refine (plays_rearranges hs₁ hn₁ (Build.rearranges_paramTypes name params)
    (Build.follows_paramTypes name params)).bind ?_
  rintro types s₂ n₂ hs₂ hn₂ - ⟨-, hparams⟩
  have htypes := (Build.ensures_paramTypes hs₁.typed.builder name params).2.2 _ _ hparams
  refine (plays_reads hs₂ hn₂ Build.reads_stage).bind ?_
  rintro stage s₃ n₃ hs₃ hn₃ - ⟨rfl, -⟩
  refine (plays_reads hs₃ hn₃ (Build.reads_requireNewParams _ _ _)).bind ?_
  rintro _ s₄ n₄ hs₄ hn₄ - ⟨rfl, -⟩
  refine (plays_inScope hs₄ hn₄ (.function false none) rfl
    fun s' n' hs' hn' hgrows' => ?_).bind_from (refl_of R _) ?_
  · have hregistered : ∀ p ∈ (params.map (·.1)).zip types, p.2.index < s'.builder.types.size :=
      fun p hp => Nat.lt_of_lt_of_le (htypes p.2 (List.of_mem_zip hp).2)
        hgrows'.builder.types_size_le
    exact plays_parameterized hs' hn' hregistered hbody
  · rintro ⟨outcome, scope⟩ s₅ n₅ hs₅ hn₅ - ⟨-, hleaves⟩
    have hleave := IsTraced.leave hleaves
    cases outcome with
    | error e => exact .throw_from hs₅ hn₅ hleave e
    | ok vars =>
        refine (plays_rearranges hs₅ hn₅ (Build.rearranges_resultType name scope)
          (Build.follows_resultType name scope)).bind_from hleave ?_
        rintro result s₆ n₆ hs₆ hn₆ - ⟨-, hresult⟩
        have hadd := IsTraced.func
          ⟨name, vars, types, result, scope.body, (stage.decls.overloads name).length⟩
          hleaves hresult rfl rfl
        exact (Plays.rearranges_from hs₆ hn₆ (Build.rearranges_addFunction _) hadd).mono
          fun _ _ _ _ => trivial

/-- The main function traces its body. -/
theorem traces_main (hbody : Traces R body) : Traces R (main body) := by
  intro s n hs hn
  refine (plays_reads hs hn (Build.reads_requireGlobal _)).bind ?_
  rintro _ s₁ n₁ hs₁ hn₁ - ⟨rfl, -⟩
  refine (plays_reads hs₁ hn₁ Build.reads_stage).bind ?_
  rintro stage s₂ n₂ hs₂ hn₂ - ⟨rfl, -⟩
  have hdefine : Plays (Leads R) (do
      let block ← collect (.function true none) body
      Build.modifyStage fun s => { s with main := some block }) s₂ n₂ fun _ _ => True := by
    refine (plays_collect hs₂ hn₂ _ rfl fun s' n' hs' hn' _ => hbody s' n' hs' hn').bind_from
      (refl_of R _) ?_
    rintro _ s₃ n₃ hs₃ hn₃ - ⟨-, f, rfl, hleaves⟩
    refine (Plays.rearranges_from hs₃ hn₃ ?_ (IsTraced.main hleaves)).mono fun _ _ _ _ => trivial
    exact Build.rearranges_modifyStage fun _ _ he => he
  dsimp only
  split
  · exact .throw_bind hs₂ hn₂ _
  · exact hdefine

/-! ## Programs -/

/-- Closing a stage only loses it. -/
theorem finished_run_closeStage (b : Builder) (which : Stage) :
    (b.run (Build.closeStage which)).2.finished = b.finished := by
  unfold Build.closeStage
  rw [Builder.run_bind, Builder.run_get]
  dsimp only
  cases b.stage with
  | none => rfl
  | some s =>
      dsimp only
      rw [Builder.run_bind, Builder.run_modify]
      dsimp only
      split
      · rfl
      · cases s.main <;> rfl

/-- A stage that has been opened is authored. -/
theorem plays_authored [IsStepped L] (hs : s.Reachable) (hn : s.KnowsNames n) (which : Stage)
    (earlier : List VarId) (hbody : PlaysAlong L body) :
    Plays L (Build.inputsFrom earlier >>= fun _ => body : Run Unit)
      (s.after (s.builder.opened which) []) n fun _ _ => True :=
  (plays_inputsFrom (.opened which hs) hn earlier).bind
    fun _ s₁ n₁ hs₁ hn₁ _ _ => hbody s₁ n₁ hs₁ hn₁

/-- A stage that has been built was authored in a session, which goes on when it is closed. -/
theorem exists_session_of_stage [IsStepped L] (hs : s.Reachable) (hn : s.KnowsNames n)
    {which : Stage} {earlier : List VarId} (hbody : PlaysAlong L body) {built : BuiltStage}
    {closed : Builder × Notes}
    (hrun : (stage which earlier body).runFrom (s.builder, n) = (.ok built, closed)) :
    ∃ (authored : Session) (st : OpenStage) (main : Block), authored.Reachable ∧
      L (s.after (s.builder.opened which) []) authored ∧ authored.builder.stage = some st ∧
      st.main = some main ∧ built = ⟨st.decls, main⟩ ∧
      closed.1 = { authored.builder with stage := none } ∧
      (authored.after closed.1 []).Reachable := by
  obtain ⟨authored, hauthored, hL, hb, -⟩ := plays_authored hs hn which earlier hbody
  change authored.builder = (runFrom _ (s.builder.opened which, n)).2.1 at hb
  rw [runFrom_stage] at hrun
  obtain ⟨_, s₁, hinputs, hrun⟩ := runFrom_bind_eq_ok_iff.mp hrun
  obtain ⟨_, s₂, hsteps, hclose⟩ := runFrom_bind_eq_ok_iff.mp hrun
  rw [runFrom_bind_eq_ok_iff.mpr ⟨_, s₁, hinputs, hsteps⟩] at hb
  change authored.builder = s₂.1 at hb
  have hclose := run_of_runFrom hclose
  rw [← hb] at hclose
  have hreachable := Session.Reachable.rearranged hauthored
    (Build.rearranges_closeStage which authored.builder)
  rcases Build.run_closeStage_cases authored.builder which with
    ⟨e, b, herror, -⟩ | ⟨st, main, hst, hmain, hok⟩
  · rw [herror] at hclose
    cases (Prod.mk.inj hclose).1
  · obtain ⟨hbuilt, hclosed⟩ := Prod.mk.inj (hclose.symm.trans hok)
    rw [hok, ← hclosed] at hreachable
    exact ⟨authored, st, main, hauthored, hL, hst, hmain, Except.ok.inj hbuilt, hclosed, hreachable⟩

/-- A stage is opened, authored and closed. -/
theorem plays_stage (hs : s.Reachable) (hn : s.KnowsNames n) (which : Stage) (earlier : List VarId)
    (hwhich : which = .compute → s.builder.target.supports .compute = true)
    (hbody : Traces R body) :
    Plays (Continues R) (stage which earlier body) s n fun _ _ => True := by
  obtain ⟨s₂, hs₂, hleads, hb, hn₂, -⟩ := plays_authored hs hn which earlier hbody
  have hR : R s.builder.finished s₂.builder.finished := IsTraced.stage hwhich hleads.2
  have hstage : (stage which earlier body).runFrom (s.builder, n) = runFrom (do
      let _ ← (Build.inputsFrom earlier >>= fun _ => body : Run Unit)
      Build.closeStage which) (s.builder.opened which, n) := by
    rw [runFrom_stage, bind_assoc]
  unfold Plays
  rw [hstage, runFrom_bind]
  change s₂.builder = (runFrom (Build.inputsFrom earlier >>= fun _ => body : Run Unit)
    (s.builder.opened which, n)).2.1 at hb
  change s₂.KnowsNames (runFrom (Build.inputsFrom earlier >>= fun _ => body : Run Unit)
    (s.builder.opened which, n)).2.2 at hn₂
  rcases hrun : runFrom (Build.inputsFrom earlier >>= fun _ => body : Run Unit)
      (s.builder.opened which, n) with ⟨e | _, b₂, n₂⟩
  · rw [hrun] at hb hn₂
    exact ⟨s₂, hs₂, hR, hb, hn₂, fun _ h => by cases h⟩
  · rw [hrun] at hb hn₂
    obtain rfl : s₂.builder = b₂ := hb
    have hclose := Build.rearranges_closeStage which s₂.builder
    have hgrows := grows_after hclose.extends []
    refine ⟨_, .rearranged hs₂ hclose, ?_, rfl, hgrows.knowsNames hn₂, fun _ _ => trivial⟩
    exact (congrArg (R s.builder.finished) (finished_run_closeStage s₂.builder which)).mpr hR

/-- The resources of stages are bound. -/
theorem plays_bindStages (hs : s.Reachable) (hn : s.KnowsNames n) (stages : List BuiltStage) :
    Plays (Continues R) (Build.bindStages stages : Run Binding.Plan) s n fun _ _ => True := by
  have hbind := Build.rearranges_bindStages stages s.builder
  have hgrows := grows_after hbind.extends []
  refine ⟨_, .rearranged hs hbind, ?_, rfl, hgrows.knowsNames hn, fun _ _ => trivial⟩
  -- only types are registered
  have hfinished : ((s.builder.finished).run (Build.bindStages stages)).2 =
      (s.builder.run (Build.bindStages stages)).2.finished := by
    unfold Build.bindStages
    rw [Builder.run_bind, Builder.run_bind, Builder.run_get, Builder.run_get]
    dsimp only
    rw [Builder.run_intern, Builder.run_intern]
    rfl
  have hR := Build.follows_bindStages (R := R) stages s.builder.finished
  rw [hfinished] at hR
  exact hR

/-- A program leaves no stage, whether it is built or not. -/
theorem traces_asProgram {compile : Run α} (h : ∀ s n, s.Reachable → s.KnowsNames n →
    Plays (Continues R) compile s n fun _ _ => True) : Traces R (asProgram compile) := by
  intro s n hs hn
  unfold Plays
  rw [runFrom_asProgram]
  cases s.builder.phase with
  | building => exact ⟨s, hs, refl_of (Leads R) s, rfl, hn, fun _ _ => trivial⟩
  | done => exact ⟨s, hs, refl_of (Leads R) s, rfl, hn, fun _ _ => trivial⟩
  | idle =>
      have hstart : s.builder.Rearranges { s.builder with phase := .building } :=
        ⟨.of_eq rfl rfl rfl rfl, fun _ he => he, id⟩
      obtain ⟨s', hs', hcontinues, hb, hn', -⟩ := h _ n (.rearranged hs hstart) hn
      have hfinish := s'.builder.rearranges_withoutStage .done
      have hR : R s.builder s'.builder.finished :=
        trans_of R (IsTraced.finish s.builder) hcontinues
      refine ⟨_, .rearranged hs' hfinish, ⟨⟨fun _ => rfl, Or.inr rfl⟩, hR⟩, ?_, hn',
        fun _ _ => trivial⟩
      show { s'.builder with stage := none, phase := .done } = _
      rw [hb]
      rfl

/-- A render program traces its two bodies. -/
theorem traces_render (label : String) {vertex fragment : Run Unit} (hv : Traces R vertex)
    (hf : Traces R fragment) : Traces R (render label vertex fragment) := by
  refine traces_asProgram fun s n hs hn => ?_
  refine (plays_stage hs hn .vertex [] (by simp) hv).bind fun v s₁ n₁ hs₁ hn₁ _ _ => ?_
  refine (plays_stage hs₁ hn₁ .fragment v.decls.outputs (by simp) hf).bind ?_
  intro f s₂ n₂ hs₂ hn₂ _ _
  refine (plays_bindStages hs₂ hn₂ [v, f]).bind fun plan s₃ n₃ hs₃ hn₃ _ _ => ?_
  refine (plays_reads hs₃ hn₃ (Build.Follows.get (R := Eq))).bind fun b s₄ n₄ hs₄ hn₄ _ _ => ?_
  refine (plays_except hs₄ hn₄ _).bind fun vertex s₅ n₅ hs₅ hn₅ _ _ => ?_
  refine (plays_except hs₅ hn₅ _).bind fun fragment s₆ n₆ hs₆ hn₆ _ _ => ?_
  refine (plays_except hs₆ hn₆ _).bind fun layouts s₇ n₇ hs₇ hn₇ _ _ => ?_
  exact .pure hs₇ hn₇ trivial

/-- A compute program traces its body. -/
theorem traces_compute (label : String) (hbody : Traces R body) :
    Traces R (compute label body) := by
  refine traces_asProgram fun s n hs hn => ?_
  refine (plays_reads hs hn (Build.reads_require .compute)).bind ?_
  rintro _ s₁ n₁ hs₁ hn₁ - ⟨rfl, hrequire⟩
  have hsupports : s₁.builder.target.supports .compute = true := by
    rw [Build.require, Builder.run_bind, Builder.run_get] at hrequire
    dsimp only at hrequire
    rw [Builder.run_liftM] at hrequire
    exact Target.require_eq_ok_iff.mp (Prod.mk.inj hrequire).1
  refine (plays_stage hs₁ hn₁ .compute [] (fun _ => hsupports) hbody).bind ?_
  intro c s₂ n₂ hs₂ hn₂ _ _
  refine (plays_bindStages hs₂ hn₂ [c]).bind fun plan s₃ n₃ hs₃ hn₃ _ _ => ?_
  refine (plays_reads hs₃ hn₃ (Build.Follows.get (R := Eq))).bind fun b s₄ n₄ hs₄ hn₄ _ _ => ?_
  refine (plays_except hs₄ hn₄ _).bind fun compute s₅ n₅ hs₅ hn₅ _ _ => ?_
  refine (plays_except hs₅ hn₅ _).bind fun layouts s₆ n₆ hs₆ hn₆ _ _ => ?_
  exact .pure hs₆ hn₆ trivial

end Traces

end Script

end WebShader
