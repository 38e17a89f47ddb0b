import WebShader.Proofs.FailedOperations

/-!
# Bodies

The body of an operation runs in a scope of its own, which is left whether the body fails or not. If
the operation succeeds, it records one thing that holds the statements of that scope: a statement at
the end of the innermost scope, a branch of the conditional there, a function, or the entry point.
Nothing else changes in the scopes around the body, and nothing at all if the operation fails.
-/

namespace WebShader

/-! ## What is recorded -/

/-- What an operation with a body records. -/
inductive Recording where
  | statement (st : Stmt NodeId)
  | branch (cond : NodeId) (block : Block)
  | lastBranch (block : Block)
  | main (block : Block)
  | function (f : Function)

/-- A stage and the one in which something has been recorded. -/
inductive OpenStage.Records (s : OpenStage) : Recording → OpenStage → Prop
  | statement {f rest} (hframes : s.frames = f :: rest) (st) :
      s.Records (.statement st) { s with frames := { f with body := f.body ++ [st] } :: rest }
  | branch {f rest body branches} (hframes : s.frames = f :: rest)
      (hbody : f.body = body ++ [.conditional branches none]) (cond block) :
      s.Records (.branch cond block) { s with
        frames := { f with body := body ++ [.conditional (branches ++ [(cond, block)]) none] } ::
          rest }
  | lastBranch {f rest body branches} (hframes : s.frames = f :: rest)
      (hbody : f.body = body ++ [.conditional branches none]) (block) :
      s.Records (.lastBranch block) { s with
        frames := { f with body := body ++ [.conditional branches (some block)] } :: rest }
  | main (hglobal : s.frames.length = 1) (block) :
      s.Records (.main block) { s with main := some block }
  | function (hglobal : s.frames.length = 1) (f) :
      s.Records (.function f) { s with decls :=
        { s.decls with functions := s.decls.functions ++ [f] } }

/-- A stage in which something has been recorded, and that is the same otherwise. -/
def OpenStage.Gains (r : Recording) (s s' : OpenStage) : Prop := ∃ t, s.Records r t ∧ t.Restores s'

/-- A builder in whose stage something has been recorded, and that only grows otherwise. -/
abbrev Builder.Gains (r : Recording) : Builder → Builder → Prop := Builder.Kept (OpenStage.Gains r)

section Recordings

variable {s s' t : OpenStage} {r : Recording} {b b' b'' : Builder}

/-- Scopes that look the same can take the place of those of a stage. -/
theorem OpenStage.Restores.of_frames (h : s.Restores s') {frames frames' : List Frame}
    (hframes : frames'.map Frame.outline = frames.map Frame.outline) :
    OpenStage.Restores { s with frames } { s' with frames := frames' } := by
  refine ⟨?_, h.builtins, h.extensions⟩
  have hdecls : s'.decls.outline = s.decls.outline := congrArg OpenStage.decls h.outline
  have hmain : s'.main = s.main := by
    show s'.outline.main = s.outline.main
    rw [h.outline]
  simp only [OpenStage.outline, hdecls, hmain, hframes]

/-- The outlines of the scopes are restored. -/
theorem OpenStage.Restores.map_outline (h : s.Restores s') :
    s'.frames.map Frame.outline = s.frames.map Frame.outline :=
  congrArg OpenStage.frames h.outline

/-- As many scopes are open as before. -/
theorem OpenStage.Restores.length_eq (h : s.Restores s') :
    s'.frames.length = s.frames.length := by
  simpa using congrArg List.length h.map_outline

/-- Scopes that look the same are as many, and look the same one by one. -/
theorem exists_cons_of_map_outline {frames : List Frame} {f' : Frame} {rest' : List Frame}
    (h : (f' :: rest').map Frame.outline = frames.map Frame.outline) :
    ∃ f rest, frames = f :: rest ∧
      f'.outline = f.outline ∧ rest'.map Frame.outline = rest.map Frame.outline := by
  cases frames with
  | nil => cases h
  | cons f rest => exact ⟨f, rest, rfl, (List.cons.inj h).1, (List.cons.inj h).2⟩

/-- Statements that look the same in scopes that look the same. -/
theorem Frame.outline_withBody {f f' : Frame} (h : f'.outline = f.outline) (body : Block) :
    Frame.outline { f' with body } = Frame.outline { f with body } :=
  congrArg (fun g : Frame => { g with body }) h

/-- Scopes with one outline have the same statements. -/
theorem Frame.body_of_outline {f f' : Frame} (h : f'.outline = f.outline) : f'.body = f.body := by
  show f'.outline.body = f.outline.body
  rw [h]

/-- What can be recorded in a stage can be recorded in one that looks the same. -/
theorem OpenStage.Restores.records (h : s.Restores s') (hrecords : s'.Records r t) :
    ∃ u, s.Records r u ∧ u.Restores t := by
  cases hrecords with
  | statement hframes st =>
      obtain ⟨f, rest, hframes', hf, hrest⟩ := exists_cons_of_map_outline (hframes ▸ h.map_outline)
      refine ⟨_, .statement hframes' st, h.of_frames ?_⟩
      rw [List.map_cons, List.map_cons, hrest, Frame.body_of_outline hf,
        Frame.outline_withBody hf]
  | branch hframes hbody cond block =>
      obtain ⟨f, rest, hframes', hf, hrest⟩ := exists_cons_of_map_outline (hframes ▸ h.map_outline)
      refine ⟨_, .branch hframes' ((Frame.body_of_outline hf).symm.trans hbody) cond block,
        h.of_frames ?_⟩
      rw [List.map_cons, List.map_cons, hrest, Frame.outline_withBody hf]
  | lastBranch hframes hbody block =>
      obtain ⟨f, rest, hframes', hf, hrest⟩ := exists_cons_of_map_outline (hframes ▸ h.map_outline)
      refine ⟨_, .lastBranch hframes' ((Frame.body_of_outline hf).symm.trans hbody) block,
        h.of_frames ?_⟩
      rw [List.map_cons, List.map_cons, hrest, Frame.outline_withBody hf]
  | main hglobal block =>
      refine ⟨_, .main (h.length_eq.symm.trans hglobal) block, ?_, h.builtins, h.extensions⟩
      exact congrArg (fun o : OpenStage => { o with main := some block }) h.outline
  | function hglobal f =>
      refine ⟨_, .function (h.length_eq.symm.trans hglobal) f, ?_, h.builtins, h.extensions⟩
      exact congrArg (fun o : OpenStage => { o with decls :=
        { o.decls with functions := o.decls.functions ++ [f] } }) h.outline

/-- What is recorded after everything was restored is recorded on the whole. -/
theorem Builder.Kept.gains (h : b.Kept OpenStage.Restores b') (h' : b'.Gains r b'') :
    b.Gains r b'' := by
  refine ⟨h.toGrows.trans h'.toGrows, Builder.rel_comp h.stage h'.stage ?_⟩
  rintro s s' s'' hrestores ⟨t, hrecords, ht⟩
  obtain ⟨u, hrecords', hu⟩ := hrestores.records hrecords
  exact ⟨u, hrecords', trans_of OpenStage.Restores hu ht⟩

/-- Recording something changes the innermost scope or the declarations of the global one. -/
theorem OpenStage.Gains.order {P : OpenStage → OpenStage → Prop} [IsScopeOrder P]
    (h : s.Gains r s') : P s s' := by
  obtain ⟨t, hrecords, ht⟩ := h
  refine trans_of P ?_ (IsScopeOrder.of_restores _ _ ht)
  cases hrecords with
  | statement hframes _ | branch hframes _ _ _ | lastBranch hframes _ _ =>
      exact IsScopeOrder.emits _ hframes
  | main hglobal _ | function hglobal _ => exact IsScopeOrder.declares hglobal rfl rfl rfl

end Recordings

/-! ## Changes of the last statement -/

/-- The last item is changed. -/
theorem replaceLast?_concat {α : Type} (f : α → Option α) (init : List α) (x : α) :
    replaceLast? f (init ++ [x]) = (f x).map (init ++ [·]) := by
  induction init with
  | nil => rfl
  | cons a init ih =>
      have hrest : replaceLast? f (a :: (init ++ [x])) =
          (replaceLast? f (init ++ [x])).map (a :: ·) := by
        cases init <;> rfl
      rw [List.cons_append, hrest, ih, Option.map_map]
      rfl

/-- A list whose last item has been changed. -/
theorem replaceLast?_eq_some_iff {α : Type} {f : α → Option α} {xs ys : List α} :
    replaceLast? f xs = some ys ↔
      ∃ init x y, xs = init ++ [x] ∧ f x = some y ∧ ys = init ++ [y] := by
  constructor
  · intro h
    rcases List.eq_nil_or_concat' xs with rfl | ⟨init, x, rfl⟩
    · cases h
    · rw [replaceLast?_concat] at h
      obtain ⟨y, hy, rfl⟩ := Option.map_eq_some_iff.mp h
      exact ⟨init, x, y, rfl, hy, rfl⟩
  · rintro ⟨init, x, y, rfl, hy, rfl⟩
    rw [replaceLast?_concat, hy]
    rfl

/-- A branch is added to a conditional without a last branch, and to nothing else. -/
theorem Stmt.addBranch?_eq_some_iff {ε : Type} {cond : ε} {block : List (Stmt ε)} {s s' : Stmt ε} :
    addBranch? cond block s = some s' ↔ ∃ branches, s = .conditional branches none ∧
      s' = .conditional (branches ++ [(cond, block)]) none := by
  unfold addBranch?
  split <;> simp_all [eq_comm]

/-- A last branch is added to a conditional without one, and to nothing else. -/
theorem Stmt.addElse?_eq_some_iff {ε : Type} {block : List (Stmt ε)} {s s' : Stmt ε} :
    addElse? block s = some s' ↔ ∃ branches, s = .conditional branches none ∧
      s' = .conditional branches (some block) := by
  unfold addElse?
  split <;> simp_all [eq_comm]

/-! ## Checks -/

namespace Build

/-- Asking for a function changes nothing. -/
theorem run_requireFunction_snd (b : Builder) (what : String) :
    (b.run (requireFunction what)).2 = b := by
  rcases run_requireFunction_cases b what with ⟨e, hrun⟩ | hrun <;> rw [hrun]

/-- Asking for the global scope changes nothing. -/
theorem run_requireGlobal_snd (b : Builder) (what : String) :
    (b.run (requireGlobal what)).2 = b := by
  rcases run_requireGlobal_cases b what with ⟨e, hrun⟩ | ⟨hrun, -⟩ <;> rw [hrun]

/-- A check that the global scope is at hand. -/
theorem takes_of_requireGlobal {b b' : Builder} {what : String}
    (h : b.run (requireGlobal what) = (.ok (), b')) : b.Takes .param := by
  rcases run_requireGlobal_cases b what with ⟨e, hrun⟩ | ⟨-, hglobal⟩
  · rw [hrun] at h
    cases h
  · exact ⟨hglobal, fun hrole => by cases hrole⟩

/-- A function is named in the global scope only. -/
theorem takes_of_checkFunctionName {b b' : Builder} {name : String}
    (h : b.run (checkFunctionName name) = (.ok (), b')) : b.Takes .param := by
  rcases run_checkFunctionName_cases b name with ⟨e, hrun⟩ | ⟨-, hglobal⟩
  · rw [hrun] at h
    cases h
  · exact ⟨hglobal, fun hrole => by cases hrole⟩

/-- Checking the name of a function changes nothing. -/
theorem run_checkFunctionName_snd (b : Builder) (name : String) :
    (b.run (checkFunctionName name)).2 = b := by
  rcases run_checkFunctionName_cases b name with ⟨e, hrun⟩ | ⟨hrun, -⟩ <;> rw [hrun]

/-- Looking for the stage changes nothing. -/
theorem run_stage_snd (b : Builder) : (b.run stage).2 = b := by
  cases hs : b.stage with
  | none => rw [Builder.run_stage_of_none hs]
  | some s => rw [Builder.run_stage_of_some hs]

end Build

/-! ## Runs that record -/

namespace Authoring

variable {σ α β : Type}

/-- What runs in a new scope succeeds with a result, and leaves the scope as told. -/
def Leaves (kind : ScopeKind) (act : Authoring σ α) (s : Builder × σ) (a : α) (scope : Frame) :
    Prop :=
  ∃ s' t rest, act.runFrom ((s.1.run (Build.pushScope kind)).2, s.2) = (.ok a, s') ∧
    s'.1.stage = some t ∧ t.frames = scope :: rest

/-- How a run ends that records one thing if it succeeds, and nothing if it fails. -/
def Ends (made : α → Recording → Prop) (b : Builder) : Except ShaderError α × (Builder × σ) → Prop
  | (.ok a, s) => ∃ r, made a r ∧ b.Gains r s.1
  | (.error _, s) => b.Restores s.1

/-- From a state, a run records one thing, which is as told, if it succeeds, and nothing if it
fails. -/
def RecordsOne (made : α → Recording → Prop) (act : Authoring σ α) (s : Builder × σ) : Prop :=
  s.1.HasScope → Ends made s.1 (act.runFrom s)

/-- What has run in a new scope was the body, and the scope is left afterwards. -/
theorem runFrom_of_inScope {kind : ScopeKind} {act : Authoring σ α} {s s' : Builder × σ}
    {x : Except ShaderError α} {scope : Frame}
    (h : (inScope kind act).runFrom s = (.ok (x, scope), s')) : ∃ s₁ t rest,
      act.runFrom ((s.1.run (Build.pushScope kind)).2, s.2) = (x, s₁) ∧ s₁.1.stage = some t ∧
        t.frames = scope :: rest ∧
          s' = ({ s₁.1 with stage := some { t with frames := rest } }, s₁.2) := by
  unfold inScope at h
  obtain ⟨_, ⟨b₁, n₁⟩, hpush, h⟩ := runFrom_bind_eq_ok_iff.mp h
  obtain ⟨x', ⟨b₂, n₂⟩, hact, h⟩ := runFrom_bind_eq_ok_iff.mp h
  obtain ⟨scope', ⟨b₃, n₃⟩, hpop, h⟩ := runFrom_bind_eq_ok_iff.mp h
  rw [runFrom_pure] at h
  cases h
  rw [← Prod.eta s, runFrom_lift] at hpush
  rw [runFrom_attempt] at hact
  rw [runFrom_lift] at hpop
  rcases run_popScope_cases b₂ with ⟨e, hpop', -⟩ | ⟨t, f, g, rest, ht, hframes, hpop'⟩
  · rw [hpop'] at hpop
    cases hpop
  · rw [hpop'] at hpop
    cases hpop
    obtain ⟨hx, hstate⟩ := Prod.mk.inj hact
    rw [← (Prod.mk.inj hpush).2] at hx hstate
    exact ⟨(b₂, n₂), t, g :: rest, Prod.ext (Except.ok.inj hx) hstate, ht, hframes, rfl⟩

/-- Without a stage no scope can be left. -/
theorem run_popScope_of_none {b : Builder} (h : b.stage = none) :
    b.run Build.popScope = (.error (.internal .noStage), b) := by
  unfold Build.popScope
  rw [Builder.run_bind, Builder.run_stage_of_none h]

/-- A new scope can be left, unless the stage has been lost in it. -/
theorem eq_noStage_of_inScope {kind : ScopeKind} {act : Authoring σ α} {s s' : Builder × σ}
    {e : ShaderError} (h : Follows Builder.Nests act) (hs : s.1.HasScope)
    (hrun : (inScope kind act).runFrom s = (.error e, s')) : e = .internal .noStage := by
  unfold inScope at hrun
  rw [runFrom_bind, ← Prod.eta s, runFrom_lift] at hrun
  cases ht : s.1.stage with
  | none =>
      rw [show s.1.run (Build.pushScope kind) = (.error (.internal .noStage), s.1) from
        Builder.run_modifyStage_of_none ht _] at hrun
      cases hrun
      rfl
  | some t =>
      have hact := h (s.1.withFrame t { kind } t.frames, s.2)
      rw [run_pushScope_of_some ht] at hrun
      dsimp only at hrun
      rw [runFrom_bind, runFrom_attempt] at hrun
      rcases hran : act.runFrom (s.1.withFrame t { kind } t.frames, s.2) with ⟨x, b, n⟩
      rw [hran] at hrun hact
      dsimp only at hrun hact
      rw [runFrom_bind, runFrom_lift] at hrun
      rcases run_popScope_cases b with ⟨e', hpop, hshort⟩ | ⟨_, _, _, _, _, _, hpop⟩
      · rcases hact with hkept | hlost
        · have hstage := hkept.stage
          cases ht' : b.stage with
          | none => rw [ht'] at hstage; cases hstage
          | some t' =>
              -- the new scope and the one around it are still there
              rw [ht'] at hstage
              cases hstage with
              | some hnests =>
                  have hlength := hnests.length_eq (by simp)
                  have hpos := List.length_pos_iff.mpr (hs t ht)
                  have hle := hshort t' ht'
                  rw [List.length_cons] at hlength
                  omega
        · rw [run_popScope_of_none hlost.stage] at hrun
          cases hrun
          rfl
      · rw [hpop] at hrun
        cases hrun

/-- There still is a scope after one has been entered. -/
theorem hasScope_pushScope {b : Builder} (hb : b.HasScope) (kind : ScopeKind) :
    (b.run (Build.pushScope kind)).2.HasScope := by
  cases hs : b.stage with
  | none =>
      rw [Build.pushScope, Builder.run_modifyStage_of_none hs]
      exact hb
  | some s =>
      rw [run_pushScope_of_some hs]
      intro s' hs' hnil
      rw [← Option.some.inj hs'] at hnil
      cases hnil

section Runs

variable {made : α → Recording → Prop} {s s' : Builder × σ}

/-- Running something in a new scope fails because the stage has been lost there, or restores the
stage and gives the outcome and the scope. -/
theorem runFrom_inScope_cases (kind : ScopeKind) {act : Authoring σ β}
    (h : Follows Builder.Nests act) (hs : s.1.HasScope) :
    (∃ s', (inScope kind act).runFrom s = (.error (.internal .noStage), s') ∧ s.1.Restores s'.1) ∨
      ∃ x scope s', (inScope kind act).runFrom s = (.ok (x, scope), s') ∧
        s.1.Kept OpenStage.Restores s'.1 ∧
        ∃ s₁ t rest, act.runFrom ((s.1.run (Build.pushScope kind)).2, s.2) = (x, s₁) ∧
          s₁.1.stage = some t ∧ t.frames = scope :: rest := by
  have hrestores := restores_inScope kind h s hs
  rcases hrun : (inScope kind act).runFrom s with ⟨e | ⟨x, scope⟩, s'⟩
  · rw [hrun] at hrestores
    obtain rfl := eq_noStage_of_inScope h hs hrun
    exact Or.inl ⟨s', rfl, hrestores⟩
  · rw [hrun] at hrestores
    obtain ⟨s₁, t, rest, hran, ht, hframes, rfl⟩ := runFrom_of_inScope hrun
    rcases hrestores with hkept | hlost
    · exact Or.inr ⟨x, scope, _, rfl, hkept, s₁, t, rest, hran, ht, hframes⟩
    · cases hlost.stage

/-- What ends after everything was restored ends on the whole. -/
theorem Ends.of_restores {b b' : Builder} {x : Except ShaderError α × (Builder × σ)}
    (h : b.Kept OpenStage.Restores b') (hx : Ends made b' x) : Ends made b x := by
  rcases x with ⟨e | a, s⟩
  · exact trans_of Builder.Restores (Or.inl h) hx
  · obtain ⟨r, hmade, hr⟩ := hx
    exact ⟨r, hmade, h.gains hr⟩

/-- Running a body in a new scope fails because the body does or the stage has been lost there, or
restores the stage and gives the statements of the scope. -/
theorem runFrom_collect_cases (kind : ScopeKind) {body : Authoring σ Unit}
    (h : Follows Builder.Nests body) (hs : s.1.HasScope) :
    (∃ e s', (collect kind body).runFrom s = (.error e, s') ∧ s.1.Restores s'.1 ∧
      (e = .internal .noStage ∨
        ∃ s₁, body.runFrom ((s.1.run (Build.pushScope kind)).2, s.2) = (.error e, s₁))) ∨
      ∃ scope s', (collect kind body).runFrom s = (.ok scope.body, s') ∧
        s.1.Kept OpenStage.Restores s'.1 ∧ Leaves kind body s () scope := by
  unfold collect
  rw [runFrom_bind]
  rcases runFrom_inScope_cases kind h hs with
    ⟨s', hrun, hrestores⟩ | ⟨e | _, scope, s', hrun, hkept, s₁, t, rest, hran, ht, hframes⟩
  · rw [hrun]
    exact Or.inl ⟨_, s', rfl, hrestores, Or.inl rfl⟩
  · rw [hrun]
    exact Or.inl ⟨e, s', rfl, Or.inl hkept, Or.inr ⟨s₁, hran⟩⟩
  · rw [hrun]
    exact Or.inr ⟨scope, s', rfl, hkept, s₁, t, rest, hran, ht, hframes⟩

/-- What ends has kept the scopes around it, or lost the stage. -/
theorem Ends.order {P : OpenStage → OpenStage → Prop} [IsScopeOrder P] {b : Builder}
    {x : Except ShaderError α × (Builder × σ)} (h : Ends made b x) : b.KeptOrLost P x.2.1 := by
  rcases x with ⟨e | a, s⟩
  · exact h.imp_left (·.mono IsScopeOrder.of_restores)
  · obtain ⟨r, -, hgains⟩ := h
    exact Or.inl (hgains.mono fun _ _ => OpenStage.Gains.order)

namespace RecordsOne

/-- What comes after operations without bodies. -/
theorem lift_bind {guard : Build β} {f : β → Authoring σ α}
    (hguard : Build.Follows Builder.Spares guard)
    (hf : ∀ a b, s.1.run guard = (.ok a, b) → s.1.Spares b → RecordsOne made (f a) (b, s.2)) :
    RecordsOne made ((guard : Authoring σ β) >>= f) s := by
  intro hs
  have hspares := hguard s.1
  rw [runFrom_bind, ← Prod.eta s, runFrom_lift]
  rcases hrun : s.1.run guard with ⟨e | a, b⟩
  all_goals
    rw [hrun] at hspares
    have hkept : s.1.Kept OpenStage.Restores b := hspares.mono IsStageOrder.of_adds
  · exact Or.inl hkept
  · exact .of_restores hkept (hf a b hrun hspares (hkept.hasScope hs))

/-- What comes after a check that leaves the builder as it is. -/
theorem check_bind {check : Build β} {f : β → Authoring σ α} (hcheck : (s.1.run check).2 = s.1)
    (hf : ∀ a, s.1.run check = (.ok a, s.1) → RecordsOne made (f a) s) :
    RecordsOne made ((check : Authoring σ β) >>= f) s := by
  intro hs
  rw [runFrom_bind, ← Prod.eta s, runFrom_lift, hcheck]
  cases hrun : (s.1.run check).1 with
  | error e => exact refl_of Builder.Restores s.1
  | ok a => exact hf a (Prod.ext hrun hcheck) hs

/-- What follows a scope records one thing, which may use what the scope has left. -/
theorem inScope_bind (kind : ScopeKind) {act : Authoring σ β}
    {f : Except ShaderError β × Frame → Authoring σ α} (h : Follows Builder.Nests act)
    (herror : ∀ e scope, f (.error e, scope) = throw e)
    (hf : ∀ a scope s', Leaves kind act s a scope → s.1.Kept OpenStage.Restores s'.1 →
      RecordsOne made (f (.ok a, scope)) s') :
    RecordsOne made (inScope kind act >>= f) s := by
  intro hs
  rw [runFrom_bind]
  rcases runFrom_inScope_cases kind h hs with
    ⟨s', hrun, hrestores⟩ | ⟨e | a, scope, s', hrun, hkept, s₁, t, rest, hran, ht, hframes⟩
  · rw [hrun]
    exact hrestores
  · rw [hrun]
    dsimp only
    rw [herror]
    exact Or.inl hkept
  · rw [hrun]
    have hleaves : Leaves kind act s a scope := ⟨s₁, t, rest, hran, ht, hframes⟩
    exact .of_restores hkept (hf a scope s' hleaves hkept (hkept.hasScope hs))

/-- What follows a body records one thing, which may use the statements of the body. -/
theorem collect_bind (kind : ScopeKind) {body : Authoring σ Unit} {f : Block → Authoring σ α}
    (h : Follows Builder.Nests body)
    (hf : ∀ scope s', Leaves kind body s () scope → s.1.Kept OpenStage.Restores s'.1 →
      RecordsOne made (f scope.body) s') :
    RecordsOne made (collect kind body >>= f) s := by
  unfold collect
  rw [bind_assoc]
  exact inScope_bind kind h (fun _ _ => rfl) fun _ => hf

/-- A statement goes to the end of the innermost scope. -/
theorem emit {made : Unit → Recording → Prop} {st : Stmt NodeId} (h : made () (.statement st)) :
    RecordsOne made (Build.emit st : Authoring σ Unit) s := by
  intro _
  rw [← Prod.eta s, runFrom_lift]
  rcases Build.run_emit_cases s.1 st with ⟨e, hrun⟩ | ⟨t, f, rest, ht, hframes, hrun⟩
  · rw [hrun]
    exact refl_of Builder.Restores s.1
  · rw [hrun]
    refine ⟨_, h, .of_some { s.1.grows_refl with } ht rfl ?_⟩
    exact ⟨_, .statement hframes st, refl_of OpenStage.Restores _⟩

/-- A change of the stage at hand that records something. -/
theorem modifyStage {made : Unit → Recording → Prop} {r : Recording}
    {change : OpenStage → OpenStage}
    (h : made () r) (hrecords : ∀ t, s.1.stage = some t → t.Records r (change t)) :
    RecordsOne made (Build.modifyStage change : Authoring σ Unit) s := by
  intro _
  rw [← Prod.eta s, runFrom_lift]
  cases ht : s.1.stage with
  | none =>
      rw [Builder.run_modifyStage_of_none ht]
      exact refl_of Builder.Restores s.1
  | some t =>
      rw [Builder.run_modifyStage_of_some ht]
      refine ⟨r, h, .of_some { s.1.grows_refl with } ht rfl ?_⟩
      exact ⟨_, hrecords t ht, refl_of OpenStage.Restores _⟩

/-- A change of the last statement of the innermost scope that records something. -/
theorem extendLast {made : Unit → Recording → Prop} {r : Recording} {failure : InternalFault}
    {change : Stmt NodeId → Option (Stmt NodeId)} (h : made () r)
    (hrecords : ∀ (t : OpenStage) f rest body st st', t.frames = f :: rest → f.body = body ++ [st] →
      change st = some st' →
        t.Records r { t with frames := { f with body := body ++ [st'] } :: rest }) :
    RecordsOne made (Build.extendLast failure change : Authoring σ Unit) s := by
  intro _
  rw [← Prod.eta s, runFrom_lift]
  unfold Build.extendLast
  rw [Builder.run_bind]
  rcases Build.run_frame_cases s.1 with ⟨e, hframe⟩ | ⟨t, f, rest, ht, hframes, hframe⟩
  · rw [hframe]
    exact refl_of Builder.Restores s.1
  · rw [hframe]
    dsimp only
    cases hbody : replaceLast? change f.body with
    | none => exact refl_of Builder.Restores s.1
    | some body' =>
        dsimp only
        rw [Build.run_setFrame_of_cons ht hframes]
        obtain ⟨body, st, st', hf, hst, rfl⟩ := replaceLast?_eq_some_iff.mp hbody
        refine ⟨r, h, .of_some { s.1.grows_refl with } ht rfl ?_⟩
        exact ⟨_, hrecords t f rest body st st' hframes hf hst, refl_of OpenStage.Restores _⟩

/-- A function is recorded in the global scope. -/
theorem addFunction {made : FunctionId → Recording → Prop} {f : Function}
    (h : ∀ i, made i (.function f)) (hglobal : ∀ t, s.1.stage = some t → t.frames.length = 1) :
    RecordsOne made (Build.addFunction f : Authoring σ FunctionId) s := by
  intro _
  rw [← Prod.eta s, runFrom_lift]
  unfold Build.addFunction
  rw [Builder.run_bind]
  cases ht : s.1.stage with
  | none =>
      rw [Builder.run_stage_of_none ht]
      exact refl_of Builder.Restores s.1
  | some t =>
      rw [Builder.run_stage_of_some ht]
      dsimp only
      rw [Builder.run_bind, Build.modifyDecls, Builder.run_modifyStage_of_some ht]
      refine ⟨_, h _, .of_some { s.1.grows_refl with } ht rfl ?_⟩
      exact ⟨_, .function (hglobal t ht) f, refl_of OpenStage.Restores _⟩

end RecordsOne

/-! ## Operations with bodies -/

variable {body : Authoring σ Unit}

/-- A block records its statements as one. -/
theorem records_scope (h : Follows Builder.Nests body) (s : Builder × σ) :
    RecordsOne (fun _ r => ∃ scope, Leaves .block body s () scope ∧
      r = .statement (.block scope.body)) (scope body) s := by
  refine .check_bind (Build.run_requireFunction_snd _ _) fun _ _ => ?_
  exact .collect_bind .block h fun scope _ hleaves _ => .emit ⟨scope, hleaves, rfl⟩

/-- A conditional starts with one branch. -/
theorem records_ifThen (v : Value) (h : Follows Builder.Nests body) (s : Builder × σ) :
    RecordsOne (fun _ r => ∃ c b scope, s.1.run (Build.condition v) = (.ok c, b) ∧
      Leaves .branch body (b, s.2) () scope ∧
        r = .statement (.conditional [(c, scope.body)] none)) (ifThen v body) s := by
  refine .check_bind (Build.run_requireFunction_snd _ _) fun _ _ => ?_
  refine .lift_bind (Build.follows_condition v) fun c b hrun _ => ?_
  exact .collect_bind .branch h fun scope _ hleaves _ => .emit ⟨c, b, scope, hrun, hleaves, rfl⟩

/-- A loop with a condition in front records it with its body. -/
theorem records_whileDo (v : Value) (h : Follows Builder.Nests body) (s : Builder × σ) :
    RecordsOne (fun _ r => ∃ c b scope, s.1.run (Build.condition v) = (.ok c, b) ∧
      Leaves .loop body (b, s.2) () scope ∧ r = .statement (.whileDo c scope.body))
      (whileDo v body) s := by
  refine .check_bind (Build.run_requireFunction_snd _ _) fun _ _ => ?_
  refine .lift_bind (Build.follows_condition v) fun c b hrun _ => ?_
  exact .collect_bind .loop h fun scope _ hleaves _ => .emit ⟨c, b, scope, hrun, hleaves, rfl⟩

/-- A branch is added to the conditional before it. -/
theorem records_elseIf (v : Value) (h : Follows Builder.Nests body) (s : Builder × σ) :
    RecordsOne (fun _ r => ∃ c b scope, s.1.run (Build.condition v) = (.ok c, b) ∧
      Leaves .branch body (b, s.2) () scope ∧ r = .branch c scope.body) (elseIf v body) s := by
  refine .lift_bind (Build.follows_condition v) fun c b hrun _ => ?_
  refine .collect_bind .branch h fun scope _ hleaves _ => ?_
  refine .extendLast ⟨c, b, scope, hrun, hleaves, rfl⟩ ?_
  intro t f rest body st st' hframes hf hst
  obtain ⟨branches, rfl, rfl⟩ := Stmt.addBranch?_eq_some_iff.mp hst
  exact .branch hframes hf c scope.body

/-- The last branch is added to the conditional before it. -/
theorem records_otherwise (h : Follows Builder.Nests body) (s : Builder × σ) :
    RecordsOne (fun _ r => ∃ scope, Leaves .branch body s () scope ∧ r = .lastBranch scope.body)
      (otherwise body) s := by
  refine .collect_bind .branch h fun scope _ hleaves _ => ?_
  refine .extendLast ⟨scope, hleaves, rfl⟩ ?_
  intro t f rest body st st' hframes hf hst
  obtain ⟨branches, rfl, rfl⟩ := Stmt.addElse?_eq_some_iff.mp hst
  exact .lastBranch hframes hf scope.body

/-- A loop over a range declares its counter in the scope of its body. -/
theorem records_forRange (counter : String) (first last : Value) {body : Expr → Authoring σ Unit}
    (h : ∀ e, Follows Builder.Nests (body e)) (s : Builder × σ) :
    RecordsOne (fun _ r => ∃ ends b b' v scope,
      s.1.run (Build.lowerPair first last) = (.ok ends, b) ∧ b.Spares b' ∧
      Leaves .loop (do
        let (v, e) ← Build.newVar counter ends.1.type .localVar
        body e
        return v) (b', s.2) v scope ∧
      r = .statement (.forRange v ends.1.node ends.2.node scope.body))
      (forRange counter first last body) s := by
  refine .check_bind (Build.run_requireFunction_snd _ _) fun _ _ => ?_
  refine .lift_bind (Build.follows_lowerPair _ _) fun ends b hrun _ => ?_
  refine .lift_bind (Build.follows_requireBounds _ _) fun _ b' _ hspares => ?_
  refine .inScope_bind .loop (nests_loop counter ends.1.type h) (fun _ _ => rfl) ?_
  exact fun v scope _ hleaves _ => .emit ⟨ends, b, b', v, scope, hrun, hspares, hleaves, rfl⟩

/-- The main function is recorded with its statements. -/
theorem records_main (h : Follows Builder.Nests body) (s : Builder × σ) :
    RecordsOne (fun _ r => ∃ scope, Leaves (.function true none) body s () scope ∧
      r = .main scope.body) (main body) s := by
  refine .check_bind (Build.run_requireGlobal_snd _ _) fun _ hglobal => ?_
  have htakes := Build.takes_of_requireGlobal hglobal
  refine .check_bind (Build.run_stage_snd _) fun st _ => ?_
  have hrest : RecordsOne (fun _ r => ∃ scope, Leaves (.function true none) body s () scope ∧
      r = .main scope.body) (do
        let block ← collect (.function true none) body
        Build.modifyStage fun s => { s with main := some block }) s :=
    .collect_bind _ h fun scope s' hleaves hkept =>
      .modifyStage ⟨scope, hleaves, rfl⟩ fun t ht =>
        .main ((hkept.takes htakes).isGlobal t ht) scope.body
  dsimp only
  split
  · exact fun _ => refl_of Builder.Restores s.1
  · exact hrest

/-- A function is recorded with its parameters, which its body declares. -/
theorem records_func (name : String) (params : List (String × TypeShape))
    {body : List Expr → Authoring σ Unit} (h : ∀ es, Follows Builder.Nests (body es))
    (s : Builder × σ) :
    RecordsOne (fun _ r => ∃ types b b' vars scope f,
      s.1.run (Build.paramTypes name params) = (.ok types, b) ∧ b.Spares b' ∧
      Leaves (.function false none) (do
        let declared ← Build.declareParams ((params.map (·.1)).zip types)
        body (declared.map (·.2))
        return declared.map (·.1)) (b', s.2) vars scope ∧
      f.name = name ∧ f.params = vars ∧ f.paramTypes = types ∧ f.body = scope.body ∧
      r = .function f) (func name params body) s := by
  refine .check_bind (Build.run_checkFunctionName_snd _ _) fun _ hglobal => ?_
  have htakes := Build.takes_of_checkFunctionName hglobal
  refine .lift_bind (Build.follows_paramTypes _ _) fun types b hrun hb => ?_
  refine .check_bind (Build.run_stage_snd _) fun st _ => ?_
  refine .lift_bind (Build.follows_requireNewParams _ _ _) fun _ b' _ hb' => ?_
  refine .inScope_bind _ (nests_params _ h) (fun _ _ => rfl) fun vars scope s' hleaves hkept => ?_
  refine .lift_bind (Build.follows_resultType _ _) fun result b'' _ hb'' => ?_
  refine .addFunction (fun _ => ⟨types, b, b', vars, scope, _, hrun, hb', hleaves, rfl, rfl,
    rfl, rfl,
    rfl⟩) ?_
  exact (hb''.takes (hkept.takes (hb'.takes (hb.takes htakes)))).isGlobal

/-! ## Loops with a condition at the end -/

/-- How a `do while` loop ends: it fails before its condition has run, or the condition has run
after the body, in the scopes around it, and has failed, or the loop has been recorded after it. -/
inductive EndsLoop (body : Authoring σ Unit) (cond : Authoring σ Value) (s : Builder × σ) :
    Except ShaderError Unit × (Builder × σ) → Prop
  | stopped {e s'} (h : s.1.Restores s'.1) : EndsLoop body cond s (.error e, s')
  | failed {scope s₁ e s'} (hleaves : Leaves .loop body s () scope)
      (hkept : s.1.Kept OpenStage.Restores s₁.1) (hcond : cond.runFrom s₁ = (.error e, s')) :
      EndsLoop body cond s (.error e, s')
  | tested {scope s₁ v s₂ x} (hleaves : Leaves .loop body s () scope)
      (hkept : s.1.Kept OpenStage.Restores s₁.1) (hcond : cond.runFrom s₁ = (.ok v, s₂))
      (hends : Ends (fun _ r => ∃ c b, s₂.1.run (Build.condition v) = (.ok c, b) ∧
        r = .statement (.doWhile scope.body c)) s₂.1 x) :
      EndsLoop body cond s x

/-- A loop with its condition at the end runs its body, and then its condition outside of the body.
-/
theorem endsLoop_doWhile {cond : Authoring σ Value} (h : Follows Builder.Nests body)
    (hcond : Follows Builder.Nests cond) (hs : s.1.HasScope) :
    EndsLoop body cond s ((doWhile body cond).runFrom s) := by
  unfold doWhile
  rw [runFrom_bind, ← Prod.eta s, runFrom_lift, Build.run_requireFunction_snd]
  cases (s.1.run (Build.requireFunction "`do while`")).1 with
  | error e => exact .stopped (refl_of Builder.Restores s.1)
  | ok _ =>
      dsimp only
      rw [runFrom_bind]
      rcases runFrom_collect_cases .loop h hs with
        ⟨e, s₁, hrun, hrestores, -⟩ | ⟨scope, s₁, hrun, hkept, hleaves⟩
      · rw [hrun]
        exact .stopped hrestores
      · rw [hrun]
        dsimp only
        have hnests := hcond s₁
        rw [runFrom_bind]
        rcases hcond' : cond.runFrom s₁ with ⟨e | v, s₂⟩
        · exact .failed hleaves hkept hcond'
        · rw [hcond'] at hnests
          refine .tested hleaves hkept hcond' ?_
          have htest : RecordsOne (fun _ r => ∃ c b, s₂.1.run (Build.condition v) = (.ok c, b) ∧
              r = .statement (.doWhile scope.body c)) (do
                let c ← Build.condition v
                Build.emit (.doWhile scope.body c)) s₂ :=
            .lift_bind (Build.follows_condition v) fun c b hrun _ => .emit ⟨c, b, hrun, rfl⟩
          exact htest (hnests.hasScope (hkept.hasScope hs))

end Runs

end Authoring

end WebShader
