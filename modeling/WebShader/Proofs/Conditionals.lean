import WebShader.Proofs.Bodies

/-!
# Conditionals

The later branches of a conditional are added to the last statement of the innermost scope. Whatever
the bodies of the branches do, that statement is the conditional: looking for it cannot fail.
-/

namespace WebShader

/-- The innermost scope ends with a conditional that has no last branch. -/
def OpenStage.IsExtendable (s : OpenStage) : Prop :=
  ∃ f rest body branches, s.frames = f :: rest ∧ f.body = body ++ [.conditional branches none]

/-- If a stage is open, its innermost scope ends with a conditional that has no last branch. -/
def Builder.IsExtendable (b : Builder) : Prop := ∀ s, b.stage = some s → s.IsExtendable

section Extendable

variable {s s' : OpenStage} {b b' : Builder} {cond : NodeId} {block : Block}
  {branches : List (NodeId × Block)}

/-- The conditional is still there once everything is restored. -/
theorem OpenStage.Restores.isExtendable (h : s.Restores s') (hs : s.IsExtendable) :
    s'.IsExtendable := by
  obtain ⟨f, rest, body, branches, hframes, hbody⟩ := hs
  obtain ⟨f', rest', hframes', hf, -⟩ := exists_cons_of_map_outline (hframes ▸ h.map_outline.symm)
  exact ⟨f', rest', body, branches, hframes', (Frame.body_of_outline hf).symm.trans hbody⟩

/-- There is a scope whose last statement can be extended. -/
theorem Builder.IsExtendable.hasScope (h : b.IsExtendable) : b.HasScope := by
  intro t ht
  obtain ⟨f, rest, _, _, hframes, -⟩ := h t ht
  rw [hframes]
  exact List.cons_ne_nil f rest

/-- A scope that has just been given a conditional can be extended. -/
theorem Builder.isExtendable_withFrame {f : Frame} {rest : List Frame} {body : Block}
    (hf : f.body = body ++ [.conditional branches none]) :
    (b.withFrame s f rest).IsExtendable := by
  intro t ht
  obtain rfl := Option.some.inj ht
  exact ⟨f, rest, body, branches, rfl, hf⟩

/-- A conditional that has just been recorded can be extended. -/
theorem Build.isExtendable_of_emit {u : Unit}
    (h : b.run (Build.emit (.conditional branches none)) = (.ok u, b')) : b'.IsExtendable := by
  rcases Build.run_emit_cases b (.conditional branches none) with
    ⟨e, hrun⟩ | ⟨t, f, rest, -, -, hrun⟩
  · rw [hrun] at h
    cases h
  · rw [hrun] at h
    obtain rfl := (Prod.mk.inj h).2
    exact Builder.isExtendable_withFrame rfl

/-- A conditional that has just been extended can be extended again. -/
theorem Build.isExtendable_of_addBranch {failure : InternalFault} {u : Unit}
    (h : b.run (Build.extendLast failure (Stmt.addBranch? cond block)) = (.ok u, b')) :
    b'.IsExtendable := by
  unfold Build.extendLast at h
  rw [Builder.run_bind] at h
  rcases Build.run_frame_cases b with ⟨e, hframe⟩ | ⟨t, f, rest, ht, hframes, hframe⟩
  · rw [hframe] at h
    cases h
  · rw [hframe] at h
    dsimp only at h
    split at h
    · rename_i body hreplaced
      obtain ⟨init, st, st', -, hst, rfl⟩ := replaceLast?_eq_some_iff.mp hreplaced
      obtain ⟨branches, -, rfl⟩ := Stmt.addBranch?_eq_some_iff.mp hst
      rw [Build.run_setFrame_of_cons ht hframes] at h
      obtain rfl := (Prod.mk.inj h).2
      exact Builder.isExtendable_withFrame rfl
    · cases h

/-- The conditional is still there once everything is restored. -/
theorem Builder.IsExtendable.restored (hb : b.IsExtendable) (h : b.Kept OpenStage.Restores b') :
    b'.IsExtendable := by
  intro t' ht'
  obtain ⟨t, ht, hrestores⟩ := h.exists_of_some ht'
  exact hrestores.isExtendable (hb t ht)

/-- The conditional is there to be extended. -/
theorem Builder.IsExtendable.eq_noStage (hb : b.IsExtendable) {failure : InternalFault}
    {change : Stmt NodeId → Option (Stmt NodeId)} {e : ShaderError}
    (h : b.run (Build.extendLast failure change) = (.error e, b'))
    (hchange : ∀ branches, ∃ st, change (.conditional branches none) = some st) :
    e = .internal .noStage := by
  unfold Build.extendLast at h
  rw [Builder.run_bind] at h
  cases hs : b.stage with
  | none =>
      rw [Build.frame, Builder.run_bind, Builder.run_stage_of_none hs] at h
      cases h
      rfl
  | some s =>
      obtain ⟨f, rest, body, branches, hframes, hbody⟩ := hb s hs
      obtain ⟨st, hst⟩ := hchange branches
      have hreplaced : replaceLast? change f.body = some (body ++ [st]) :=
        replaceLast?_eq_some_iff.mpr ⟨body, _, st, hbody, hst, rfl⟩
      rw [Build.run_frame_of_cons hs hframes] at h
      dsimp only at h
      rw [hreplaced] at h
      dsimp only at h
      rw [Build.run_setFrame_of_cons hs hframes] at h
      cases h

end Extendable

/-! ## Internal errors -/

namespace Build

variable {α β : Type}

/-- An operation that does not fail with an internal error. -/
def NeverBreaks (act : Build α) : Prop :=
  ∀ (b : Builder) fault b', b.run act ≠ (.error (.internal fault), b')

namespace NeverBreaks

/-- Nothing goes wrong in doing nothing. -/
protected theorem pure (a : α) : NeverBreaks (pure a : Build α) := fun _ _ _ h => by cases h

/-- An error that is not internal is none of these. -/
theorem throw {e : ShaderError} (he : ∀ fault, e ≠ .internal fault) :
    NeverBreaks (throw e : Build α) :=
  fun _ fault _ h => he fault (Except.error.inj (congrArg (·.1) h))

/-- One after the other. -/
theorem bind {act : Build α} {f : α → Build β} (h : NeverBreaks act) (hf : ∀ a, NeverBreaks (f a)) :
    NeverBreaks (act >>= f) := by
  intro b fault b' hrun
  rw [Builder.run_bind] at hrun
  rcases hact : b.run act with ⟨e | a, b₁⟩
  · rw [hact] at hrun
    cases hrun
    exact h b fault _ hact
  · rw [hact] at hrun
    exact hf a b₁ fault b' hrun

/-- The builder can always be looked at. -/
theorem get : NeverBreaks (get : Build Builder) := fun _ _ _ h => by cases h

end NeverBreaks

/-- A feature may be missing, which is no internal error. -/
theorem neverBreaks_require (f : Feature) : NeverBreaks (require f) := by
  refine .bind .get fun b b' fault b'' hrun => ?_
  rw [Builder.run_liftM, Target.require] at hrun
  split at hrun <;> cases hrun

/-- A scalar type can always be registered. -/
theorem neverBreaks_scalar (k : ScalarKind) : NeverBreaks (intern (Interning.scalar k)) := by
  intro b fault b' hrun
  rw [Builder.run_intern, Interning.scalar, Interning.primitive, Interning.insert,
    Registry.run_bind, Registry.run_get] at hrun
  dsimp only at hrun
  split at hrun <;> cases hrun

/-- A literal fails at most for a feature. -/
theorem neverBreaks_literal (l : Literal) : NeverBreaks (literal l) := by
  have hpush : NeverBreaks (do pushNode (← intern (Interning.scalar l.scalar)) (.literal l)) :=
    .bind (neverBreaks_scalar _) fun t b fault b' hrun => by cases hrun
  unfold literal
  split
  · exact .bind (neverBreaks_require _) fun _ => hpush
  · exact .bind (neverBreaks_require _) fun _ => hpush
  · exact hpush

/-- A condition fails at most for its type. -/
theorem neverBreaks_condition (v : Value) : NeverBreaks (condition v) := by
  have hlower : NeverBreaks (lower v (some .bool)) := by
    unfold lower
    split
    · exact .pure _
    · split
      · exact neverBreaks_literal _
      · exact .throw fun _ h => by cases h
  refine .bind hlower fun e => .bind .get fun b => ?_
  dsimp only
  split
  · exact .bind (.throw fun _ h => by cases h) fun _ => .pure _
  · exact .pure _

/-- Statements outside of functions are refused, with no internal error but for a lost stage. -/
theorem eq_noStage_of_requireFunction {b b' : Builder} {what : String} {fault : InternalFault}
    (h : b.run (requireFunction what) = (.error (.internal fault), b')) : fault = .noStage := by
  unfold requireFunction inGlobalScope at h
  cases hs : b.stage with
  | none =>
      rw [Builder.run_bind, Builder.run_bind, Builder.run_stage_of_none hs] at h
      cases h
      rfl
  | some s =>
      rw [Builder.run_bind, Builder.run_bind, Builder.run_stage_of_some hs] at h
      dsimp only [Builder.run_pure] at h
      split at h <;> cases h

/-- A statement can be recorded in any scope of a function. -/
theorem eq_noStage_of_emit {b b' : Builder} (hb : b.HasScope) {st : Stmt NodeId}
    {fault : InternalFault} (h : b.run (emit st) = (.error (.internal fault), b')) :
    fault = .noStage := by
  unfold emit at h
  rw [Builder.run_bind] at h
  rcases hguard : b.run (requireFunction "statements") with ⟨e | _, b₁⟩
  · rw [hguard] at h
    cases h
    exact eq_noStage_of_requireFunction hguard
  · rw [hguard] at h
    obtain rfl := (congrArg (·.2) hguard).symm.trans (run_requireFunction_snd b "statements")
    dsimp only at h
    cases hs : b₁.stage with
    | none =>
        rw [Builder.run_bind, frame, Builder.run_bind, Builder.run_stage_of_none hs] at h
        cases h
        rfl
    | some s =>
        obtain ⟨f, rest, hframes⟩ := List.exists_cons_of_ne_nil (hb s hs)
        rw [Builder.run_bind, run_frame_of_cons hs hframes] at h
        dsimp only at h
        rw [run_setFrame_of_cons hs hframes] at h
        cases h

end Build

/-! ## Branches -/

namespace Authoring

variable {σ α : Type} {body : Authoring σ Unit} {s s' : Builder × σ} {fault : InternalFault}

/-- From some state with a scope, a run fails with an internal error. -/
def Breaks (act : Authoring σ α) (fault : InternalFault) : Prop :=
  ∃ s s', s.1.HasScope ∧ act.runFrom s = (.error (.internal fault), s')

/-- A body with a scope of its own fails as the body does. -/
theorem breaks_of_collect (kind : ScopeKind) (h : Follows Builder.Nests body) (hs : s.1.HasScope)
    (hrun : (collect kind body).runFrom s = (.error (.internal fault), s')) :
    fault = .noStage ∨ Breaks body fault := by
  rcases runFrom_collect_cases kind h hs with
    ⟨e, s₁, hrun', -, he⟩ | ⟨scope, s₁, hrun', -, -⟩
  · rw [hrun] at hrun'
    cases hrun'
    rcases he with he | ⟨s₂, hran⟩
    · cases he
      exact Or.inl rfl
    · exact Or.inr ⟨_, s₂, hasScope_pushScope hs kind, hran⟩
  · rw [hrun] at hrun'
    cases hrun'

/-- A body with a scope of its own leaves the conditional before it there. -/
theorem isExtendable_of_collect (kind : ScopeKind) (h : Follows Builder.Nests body)
    (hopen : s.1.IsExtendable) {block : Block}
    (hrun : (collect kind body).runFrom s = (.ok block, s')) : s'.1.IsExtendable := by
  rcases runFrom_collect_cases kind h hopen.hasScope with
    ⟨e, t, hrun', -, -⟩ | ⟨scope, t, hrun', hkept, -⟩
  · rw [hrun] at hrun'
    cases hrun'
  · rw [hrun] at hrun'
    cases hrun'
    exact hopen.restored hkept

/-- The condition of a branch and its body. -/
theorem breaks_of_branch (v : Value) (h : Follows Builder.Nests body) (hs : s.1.HasScope)
    {f : NodeId → Block → Authoring σ Unit}
    (hf : ∀ c scope s₁, s.1.Kept OpenStage.Restores s₁.1 →
      (f c scope).runFrom s₁ = (.error (.internal fault), s') → fault = .noStage)
    (hrun : (do
      let c ← Build.condition v
      let block ← collect .branch body
      f c block : Authoring σ Unit).runFrom s = (.error (.internal fault), s')) :
    fault = .noStage ∨ Breaks body fault := by
  have hcondition := Build.follows_condition (R := Builder.Spares) v s.1
  rcases runFrom_bind_eq_error_iff.mp hrun with hcond | ⟨c, s₁, hcond, hrun⟩
  · exact absurd (run_of_runFrom hcond) (Build.neverBreaks_condition v s.1 fault s'.1)
  · rw [run_of_runFrom hcond] at hcondition
    have hkept : s.1.Kept OpenStage.Restores s₁.1 := hcondition.mono IsStageOrder.of_adds
    have hs₁ : s₁.1.HasScope := hkept.hasScope hs
    rcases runFrom_bind_eq_error_iff.mp hrun with hcollect | ⟨block, s₂, hcollect, hrun⟩
    · exact breaks_of_collect .branch h hs₁ hcollect
    · rcases runFrom_collect_cases .branch h hs₁ with
        ⟨e, s₃, hrun', -, -⟩ | ⟨scope, s₃, hrun', hkept', -⟩
      · rw [hcollect] at hrun'
        cases hrun'
      · rw [hcollect] at hrun'
        cases hrun'
        exact Or.inl (hf c scope.body s₂ (hkept.trans hkept') hrun)

/-- The first branch fails as its body does. -/
theorem breaks_of_ifThen (v : Value) (h : Follows Builder.Nests body) (hs : s.1.HasScope)
    (hrun : (ifThen v body).runFrom s = (.error (.internal fault), s')) :
    fault = .noStage ∨ Breaks body fault := by
  rcases runFrom_bind_eq_error_iff.mp hrun with hguard | ⟨_, s₁, hguard, hrun⟩
  · exact Or.inl (Build.eq_noStage_of_requireFunction (run_of_runFrom hguard))
  · have hsame : s₁.1 = s.1 :=
      (congrArg (·.2) (run_of_runFrom hguard)).symm.trans (Build.run_requireFunction_snd s.1 _)
    have hs₁ : s₁.1.HasScope := hsame ▸ hs
    refine breaks_of_branch v h hs₁ (fun c scope s₂ hkept hemit => ?_) hrun
    exact Build.eq_noStage_of_emit (hkept.hasScope hs₁) (run_of_runFrom hemit)

/-- A later branch fails as its body does, since there is a conditional to extend. -/
theorem breaks_of_elseIf (v : Value) (h : Follows Builder.Nests body) (hs : s.1.HasScope)
    (hopen : s.1.IsExtendable)
    (hrun : (elseIf v body).runFrom s = (.error (.internal fault), s')) :
    fault = .noStage ∨ Breaks body fault := by
  refine breaks_of_branch v h hs (fun c scope s₂ hkept hextend => ?_) hrun
  have hfault := (hopen.restored hkept).eq_noStage (run_of_runFrom hextend) fun _ => ⟨_, rfl⟩
  cases hfault
  rfl

/-- The last branch fails as its body does, since there is a conditional to extend. -/
theorem breaks_of_otherwise (h : Follows Builder.Nests body) (hs : s.1.HasScope)
    (hopen : s.1.IsExtendable)
    (hrun : (otherwise body).runFrom s = (.error (.internal fault), s')) :
    fault = .noStage ∨ Breaks body fault := by
  rcases runFrom_bind_eq_error_iff.mp hrun with hcollect | ⟨block, s₂, hcollect, hrun⟩
  · exact breaks_of_collect .branch h hs hcollect
  · have hopen₂ := isExtendable_of_collect .branch h hopen hcollect
    have hfault := hopen₂.eq_noStage (run_of_runFrom hrun) fun _ => ⟨_, rfl⟩
    cases hfault
    exact Or.inl rfl

/-- The first branch leaves a conditional to extend. -/
theorem isExtendable_of_ifThen {v : Value} (hrun : (ifThen v body).runFrom s = (.ok (), s')) :
    s'.1.IsExtendable := by
  obtain ⟨_, s₁, -, hrun⟩ := runFrom_bind_eq_ok_iff.mp hrun
  obtain ⟨c, s₂, -, hrun⟩ := runFrom_bind_eq_ok_iff.mp hrun
  obtain ⟨block, s₃, -, hemit⟩ := runFrom_bind_eq_ok_iff.mp hrun
  exact Build.isExtendable_of_emit (run_of_runFrom hemit)

/-- A later branch leaves a conditional to extend. -/
theorem isExtendable_of_elseIf {v : Value} (hrun : (elseIf v body).runFrom s = (.ok (), s')) :
    s'.1.IsExtendable := by
  obtain ⟨c, s₁, -, hrun⟩ := runFrom_bind_eq_ok_iff.mp hrun
  obtain ⟨block, s₂, -, hextend⟩ := runFrom_bind_eq_ok_iff.mp hrun
  exact Build.isExtendable_of_addBranch (run_of_runFrom hextend)

end Authoring

namespace Script

open Authoring

variable {branches : List (Value × Run Outcome)} {s s' : Builder × Notes} {fault : InternalFault}

/-- The branches of a conditional leave it there, or fail as one of them does. -/
theorem breaks_of_branches (h : ∀ p ∈ branches, Follows Builder.Nests (body p.2))
    (hs : s.1.HasScope) (hopen : s.1.IsExtendable) {x : Except ShaderError PUnit}
    (hrun : (branches.forM fun p => elseIf p.1 (body p.2)).runFrom s = (x, s')) :
    (∀ fault, x = .error (.internal fault) →
      fault = .noStage ∨ ∃ p ∈ branches, Breaks (body p.2) fault) ∧
    (x = .ok ⟨⟩ → s'.1.HasScope ∧ s'.1.IsExtendable) := by
  induction branches generalizing s with
  | nil =>
      cases hrun
      exact ⟨fun _ hx => by (cases hx), fun _ => ⟨hs, hopen⟩⟩
  | cons p branches ih =>
      obtain ⟨hp, hrest⟩ := List.forall_mem_cons.mp h
      rw [List.forM, runFrom_bind] at hrun
      have hnests := nests_elseIf p.1 hp s
      rcases hfirst : (elseIf p.1 (body p.2)).runFrom s with ⟨e | _, s₁⟩
      · rw [hfirst] at hrun
        cases hrun
        refine ⟨fun fault hx => ?_, fun hx => by cases hx⟩
        cases hx
        exact (breaks_of_elseIf p.1 hp hs hopen hfirst).imp_right fun hbreaks =>
          ⟨p, List.mem_cons_self, hbreaks⟩
      · rw [hfirst] at hrun hnests
        obtain ⟨hbreaks, hok⟩ := ih hrest (hnests.hasScope hs)
          (isExtendable_of_elseIf hfirst) hrun
        refine ⟨fun fault hx => (hbreaks fault hx).imp_right ?_, hok⟩
        rintro ⟨q, hq, hbreaks⟩
        exact ⟨q, List.mem_cons_of_mem p hq, hbreaks⟩

/-- A conditional only fails with an internal error that one of its bodies fails with, unless the
stage is lost. -/
theorem breaks_of_conditional (v : Value) {steps : Run Outcome} {otherwise : Option (Run Outcome)}
    (hsteps : Follows Builder.Nests (body steps))
    (hbranches : ∀ p ∈ branches, Follows Builder.Nests (body p.2))
    (hotherwise : ∀ last, otherwise = some last → Follows Builder.Nests (body last))
    (hs : s.1.HasScope)
    (hrun : (conditional v steps branches otherwise).runFrom s = (.error (.internal fault), s')) :
    fault = .noStage ∨
      ∃ act ∈ steps :: (branches.map (·.2) ++ otherwise.toList), Breaks (body act) fault := by
  have hfirst := nests_ifThen v hsteps s
  rcases runFrom_bind_eq_error_iff.mp hrun with hthen | ⟨_, s₁, hthen, hrun⟩
  · exact (breaks_of_ifThen v hsteps hs hthen).imp_right fun hbreaks =>
      ⟨steps, List.mem_cons_self, hbreaks⟩
  · rw [hthen] at hfirst
    have hopen := isExtendable_of_ifThen hthen
    rcases runFrom_bind_eq_error_iff.mp hrun with hrest | ⟨_, s₂, hrest, hrun⟩
    · have hbreaks := (breaks_of_branches hbranches (hfirst.hasScope hs) hopen hrest).1 fault rfl
      refine hbreaks.imp_right ?_
      rintro ⟨p, hp, hbreaks⟩
      refine ⟨p.2, List.mem_cons_of_mem _ (List.mem_append_left _ ?_), hbreaks⟩
      exact List.mem_map_of_mem hp
    · obtain ⟨hs₂, hopen₂⟩ :=
        (breaks_of_branches hbranches (hfirst.hasScope hs) hopen hrest).2 rfl
      cases otherwise with
      | none => cases hrun
      | some last =>
          refine (breaks_of_otherwise (hotherwise last rfl) hs₂ hopen₂ hrun).imp_right ?_
          intro hbreaks
          refine ⟨last, List.mem_cons_of_mem _ (List.mem_append_right _ ?_), hbreaks⟩
          exact List.mem_singleton_self last

/-- The branches of a conditional run the steps they are made of. -/
theorem exists_of_mem_branchValues {tolerant : Bool} {n : Notes}
    {branches : List (Operand × Script)}
    {values : List (Value × Run Outcome)}
    (h : branchValues n (runBranches tolerant branches) = .ok values) {p : Value × Run Outcome}
    (hp : p ∈ values) : ∃ steps ∈ branches.map (·.2), p.2 = runAll tolerant steps := by
  induction branches generalizing values with
  | nil =>
      rw [← Except.ok.inj h] at hp
      cases hp
  | cons branch branches ih =>
      obtain ⟨value, -, h⟩ := bind_eq_ok_iff.mp h
      obtain ⟨rest, hrest, h⟩ := bind_eq_ok_iff.mp h
      rw [← Except.ok.inj h] at hp
      rcases List.mem_cons.mp hp with rfl | hp
      · exact ⟨branch.2, List.mem_cons_self, rfl⟩
      · obtain ⟨steps, hsteps, hp⟩ := ih hrest hp
        exact ⟨steps, List.mem_cons_of_mem _ hsteps, hp⟩

/-- A conditional of a script fails internally only as one of its bodies does. -/
theorem breaks_of_run_conditional {tolerant : Bool} {n : Notes} {cond : Operand} {steps : Script}
    {branches : List (Operand × Script)} {otherwise : Option Script} {act : Run Reply}
    (h : (Action.conditional cond steps branches otherwise).run tolerant n = .ok act)
    (hs : s.1.HasScope) (hrun : act.runFrom s = (.error (.internal fault), s')) :
    fault = .noStage ∨ ∃ steps' ∈ steps :: (branches.map (·.2) ++ otherwise.toList),
      Breaks (body (runAll tolerant steps')) fault := by
  obtain ⟨v, -, h⟩ := bind_eq_ok_iff.mp h
  obtain ⟨values, hvalues, h⟩ := bind_eq_ok_iff.mp h
  obtain rfl := Except.ok.inj h
  rcases runFrom_bind_eq_error_iff.mp hrun with hrun | ⟨_, _, _, hrun⟩
  · refine (breaks_of_conditional v (nests_body _ _) ?_ ?_ hs hrun).imp_right ?_
    · intro p hp
      obtain ⟨steps', -, hp⟩ := exists_of_mem_branchValues hvalues hp
      exact hp ▸ nests_body tolerant steps'
    · intro last hlast
      cases otherwise with
      | none => cases hlast
      | some steps' =>
          obtain rfl := Option.some.inj hlast
          exact nests_body tolerant steps'
    · rintro ⟨act, hact, hbreaks⟩
      rcases List.mem_cons.mp hact with rfl | hact
      · exact ⟨steps, List.mem_cons_self, hbreaks⟩
      · rcases List.mem_append.mp hact with hact | hact
        · obtain ⟨p, hp, rfl⟩ := List.mem_map.mp hact
          obtain ⟨steps', hsteps', hp⟩ := exists_of_mem_branchValues hvalues hp
          refine ⟨steps', List.mem_cons_of_mem _ (List.mem_append_left _ hsteps'), ?_⟩
          rwa [← hp]
        · cases otherwise with
          | none => cases hact
          | some steps' =>
              obtain rfl := List.mem_singleton.mp hact
              refine ⟨steps', List.mem_cons_of_mem _ (List.mem_append_right _ ?_), hbreaks⟩
              exact List.mem_singleton_self steps'
  · cases hrun

end Script

end WebShader
