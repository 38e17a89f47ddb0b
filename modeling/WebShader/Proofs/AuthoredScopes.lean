import WebShader.Proofs.ScopeDiscipline

/-!
# Authored scopes

Whatever runs inside a scope, the scopes around it keep their promises, and on success the
statements the scope has collected keep the names of each of their scopes distinct.
-/

namespace WebShader

namespace Authoring

variable {σ α β : Type}

/-! ## Scopes that open with variables -/

/-- A scope that opens without variables promises nothing yet. -/
theorem holds_new (vars : Array Variable) (kind : ScopeKind) : Frame.Holds vars [] { kind } := by
  constructor
  · intro scope hscope
    rw [Stmt.blockScopes, Stmt.nestedScopes, List.mem_singleton] at hscope
    rw [hscope]
    exact locals_nil vars
  · intro v hv
    cases hv

/-- Unless the stage is lost, its innermost scope, which opens with some variables, holds. -/
def InnerHolds (heads : List VarId) (b : Builder) : Prop :=
  b.stage = none ∨ ∃ s f rest, b.stage = some s ∧ s.frames = f :: rest ∧ f.Holds b.vars heads

/-- What the innermost scope holds is kept. -/
theorem InnerHolds.of_keeps {heads : List VarId} {b b' : Builder} (h : InnerHolds heads b)
    (hkeeps : b.Keeps b') : InnerHolds heads b' := by
  rcases h with hb | ⟨s, f, rest, hs, hframes, hholds⟩
  · exact Or.inl (hkeeps.lost hb)
  · refine (hkeeps.grows s hs (by simp [hframes])).imp_right ?_
    rintro ⟨s', hs', hgrows⟩
    have hforall := hgrows.frames
    rw [hframes] at hforall
    cases hframes' : s'.frames with
    | nil =>
        rw [hframes'] at hforall
        cases hforall
    | cons f' rest' =>
        rw [hframes'] at hforall
        obtain ⟨hf, -⟩ := List.forall₂_cons.mp hforall
        exact ⟨s', f', rest', hs', hframes', hf.holds heads hholds⟩

/-- A run keeps what it should, and on a new scope it gives, on success, the variables the scope
opens with. -/
structure Opens (act : Authoring σ α) (heads : α → List VarId) : Prop where
  follows : Follows Builder.Keeps act
  holds : ∀ {b : Builder} {n : σ} {s : OpenStage} {kind : ScopeKind} {rest : List Frame} {a : α}
    {s' : Builder × σ}, b.stage = some s → s.frames = { kind } :: rest →
      act.runFrom (b, n) = (.ok a, s') → InnerHolds (heads a) s'.1

namespace Opens

variable {heads : α → List VarId} {heads' : β → List VarId}

/-- A scope opens without variables. -/
theorem of_follows {act : Authoring σ α} (h : Follows Builder.Keeps act) :
    Opens act fun _ => [] := by
  refine ⟨h, fun {b n s kind rest a s'} hs hframes hrun => ?_⟩
  have hkeeps := h (b, n)
  rw [hrun] at hkeeps
  have hnew : InnerHolds [] b := Or.inr ⟨s, _, rest, hs, hframes, holds_new b.vars kind⟩
  exact hnew.of_keeps hkeeps

/-- What runs after the variables of a scope are declared. -/
theorem bind {act : Authoring σ α} {f : α → Authoring σ β} (h : Opens act heads)
    (hf : ∀ a, Follows Builder.Keeps (f a))
    (hheads : ∀ a s c s', (f a).runFrom s = (.ok c, s') → heads' c = heads a) :
    Opens (act >>= f) heads' := by
  refine ⟨h.follows.bind hf, fun {b n s kind rest c s'} hs hframes hrun => ?_⟩
  rw [runFrom_bind] at hrun
  rcases hact : act.runFrom (b, n) with ⟨_ | a, s₁⟩
  · rw [hact] at hrun
    cases (Prod.mk.inj hrun).1
  · rw [hact] at hrun
    dsimp only at hrun
    have hkeeps := hf a s₁
    rw [hrun] at hkeeps
    rw [hheads a s₁ c s' hrun]
    exact (h.holds hs hframes hact).of_keeps hkeeps

end Opens

/-- A stage in which a scope has been opened and left again. -/
theorem grows_of_left {target : Target} {vars vars' : Array Variable} {s t : OpenStage}
    {inner f : Frame} {rest : List Frame} (hs : s.frames ≠ [])
    (hgrows : OpenStage.Grows target vars vars' { s with frames := inner :: s.frames } t)
    (ht : t.frames = f :: rest) : s.Grows target vars vars' { t with frames := rest } := by
  have hforall := hgrows.frames
  rw [ht] at hforall
  obtain ⟨-, hrest⟩ := List.forall₂_cons.mp hforall
  have hlast : ∀ (g : Frame) (gs : List Frame), gs ≠ [] → (g :: gs).getLast? = gs.getLast? := by
    intro g gs hgs
    rw [List.getLast?_cons_of_ne_nil hgs]
  have hrestne : rest ≠ [] := by
    intro hnil
    rw [hnil] at hrest
    exact hs (List.forall₂_nil_right_iff.mp hrest)
  refine ⟨hgrows.stage, hrest, fun hsound => ?_⟩
  have hopened : OpenStage.Sound target vars { s with frames := inner :: s.frames } := by
    refine hsound.of_frames (Extends.refl vars) rfl rfl fun g hg => ⟨g, ?_, fun _ h => h⟩
    rw [← hg]
    exact hlast inner s.frames hs
  refine (hgrows.sound hopened).of_frames (Extends.refl vars') rfl rfl fun g hg =>
    ⟨g, ?_, fun _ h => h⟩
  rw [← hg, ht]
  exact (hlast f rest hrestne).symm

/-- A run keeps what it should, and what it gives, unless it fails, is as told. -/
def Ensures (act : Authoring σ α) (post : α → Builder → Prop) : Prop :=
  ∀ s : Builder × σ, s.1.Keeps (act.runFrom s).2.1 ∧
    ∀ a s', act.runFrom s = (.ok a, s') → post a s'.1

/-- What an operation ensures may be used by what follows it. -/
theorem Ensures.bind {act : Authoring σ α} {post : α → Builder → Prop} {f : α → Authoring σ β}
    (h : act.Ensures post)
    (hf : ∀ a (s : Builder × σ), post a s.1 → s.1.Keeps ((f a).runFrom s).2.1) :
    Follows Builder.Keeps (act >>= f) := by
  intro s
  obtain ⟨hkeeps, hpost⟩ := h s
  rw [runFrom_bind]
  rcases hrun : act.runFrom s with ⟨_ | a, s'⟩
  · rw [hrun] at hkeeps
    exact hkeeps
  · rw [hrun] at hkeeps
    exact hkeeps.trans (hf a s' (hpost a s' hrun))

/-- What follows a run that keeps what it should still knows of scopes with names of their own. -/
theorem keeps_bind {act : Authoring σ α} {f : α → Authoring σ β} {s : Builder × σ}
    {scopes : List (List VarId)} (hs : s.1.Holds scopes) (h : Follows Builder.Keeps act)
    (hf : ∀ a (s' : Builder × σ), s'.1.Holds scopes → s'.1.Keeps ((f a).runFrom s').2.1) :
    s.1.Keeps ((act >>= f).runFrom s).2.1 := by
  have hact := h s
  rw [runFrom_bind]
  rcases hrun : act.runFrom s with ⟨_ | a, s'⟩
  · rw [hrun] at hact
    exact hact
  · rw [hrun] at hact
    exact hact.trans (hf a s' (hs.of_keeps hact))

/-- Opening a scope, running in it and leaving it keeps what it should, and the statements of the
scope have names of their own. -/
theorem inScope_ensures (kind : ScopeKind) {act : Authoring σ α} {heads : α → List VarId}
    (h : Opens act heads) : (inScope kind act).Ensures fun x b =>
      ∀ a, x.1 = .ok a → b.Holds (Stmt.blockScopes (heads a) x.2.body) := by
  rintro ⟨b, n⟩
  unfold inScope
  rw [runFrom_bind, runFrom_lift]
  cases hs : b.stage with
  | none =>
      rw [show b.run (Build.pushScope kind) = (.error (.internal .noStage), b) from
        Builder.run_modifyStage_of_none hs _]
      exact ⟨b.keeps_refl, fun _ _ hrun => by cases (Prod.mk.inj hrun).1⟩
  | some s =>
      rw [run_pushScope_of_some hs]
      dsimp only
      rw [runFrom_bind, runFrom_attempt]
      have hkeeps := h.follows (b.withFrame s { kind } s.frames, n)
      rcases hact : act.runFrom (b.withFrame s { kind } s.frames, n) with ⟨result, b₁, n₁⟩
      rw [hact] at hkeeps
      dsimp only at hkeeps ⊢
      rw [runFrom_bind, runFrom_lift]
      -- the stage may be lost while the body is run, by a reset; where it is still there it has
      -- grown
      have hopened : ∀ t, b₁.stage = some t →
          OpenStage.Grows b.target b.vars b₁.vars { s with frames := { kind } :: s.frames } t := by
        intro t ht
        rcases hkeeps.grows _ rfl (by simp) with hlost | ⟨t', ht', hgrows⟩
        · exact absurd (ht.symm.trans hlost) (by simp)
        · obtain rfl := Option.some.inj (ht.symm.trans ht')
          exact hgrows
      have hvars : ∀ t, b₁.stage = some t → Extends b.vars b₁.vars := by
        intro t ht
        exact hkeeps.vars.resolve_left (by simp [ht])
      -- the scope is left whatever the result of the body
      rcases run_popScope_cases b₁ with ⟨e, hpop, hshort⟩ | ⟨t, f, g, rest, ht, hframes, hpop⟩
      · rw [hpop]
        refine ⟨?_, fun _ _ hrun => by cases (Prod.mk.inj hrun).1⟩
        cases ht : b₁.stage with
        | none => exact Builder.Keeps.of_lost hkeeps.config ht
        | some t =>
            refine .of_grows hkeeps.config hs ht (hvars t ht) fun hne => absurd ?_ hne
            have hlength := (hopened t ht).frames.length_eq
            have hle := hshort t ht
            simp only [List.length_cons] at hlength
            exact List.eq_nil_of_length_eq_zero (by omega)
      · rw [hpop]
        dsimp only [runFrom_pure]
        constructor
        · exact .of_grows hkeeps.config hs rfl (hvars t ht) fun hne =>
            grows_of_left hne (hopened t ht) hframes
        · intro x s' hrun a hx
          simp only [Prod.mk.injEq, Except.ok.injEq] at hrun
          obtain ⟨rfl, rfl⟩ := hrun
          obtain rfl : result = .ok a := hx
          right
          rcases h.holds rfl rfl hact with hlost | ⟨t', f'', rest', ht', hframes', hholds⟩
          · exact absurd (ht.symm.trans hlost) (by simp)
          · obtain rfl := Option.some.inj (ht.symm.trans ht')
            obtain ⟨rfl, -⟩ := List.cons.inj (hframes.symm.trans hframes')
            exact hholds.scopes

/-- The statements that a body has collected have names of their own. -/
theorem collect_ensures {kind : ScopeKind} {body : Authoring σ Unit}
    (h : Follows Builder.Keeps body) :
    (collect kind body).Ensures fun block b => b.Holds (Stmt.blockScopes [] block) := by
  intro s
  obtain ⟨hkeeps, hpost⟩ := inScope_ensures kind (Opens.of_follows h) s
  unfold collect
  rw [runFrom_bind]
  rcases hrun : (inScope kind body).runFrom s with ⟨_ | ⟨_ | _, f⟩, s'⟩
  · rw [hrun] at hkeeps
    exact ⟨hkeeps, fun _ _ h => by cases (Prod.mk.inj h).1⟩
  · rw [hrun] at hkeeps
    exact ⟨hkeeps, fun _ _ h => by cases (Prod.mk.inj h).1⟩
  · rw [hrun] at hkeeps
    refine ⟨hkeeps, fun block s'' h => ?_⟩
    obtain ⟨hblock, rfl⟩ := Prod.mk.inj h
    rw [← Except.ok.inj hblock]
    exact hpost _ _ hrun () rfl

/-! ## Control flow -/

/-- After a run that gives a block, a statement with the scopes of the block is emitted. -/
theorem keeps_emit (st : Stmt NodeId) {block : Block} {s : Builder × σ} (hst : st.declared = [])
    (hscopes : st.scopes = Stmt.blockScopes [] block)
    (h : s.1.Holds (Stmt.blockScopes [] block)) :
    s.1.Keeps (runFrom (Build.emit st : Authoring σ Unit) s).2.1 :=
  Build.keeps_emit st hst (hscopes ▸ h)

theorem follows_ifThen (cond : Value) {body : Authoring σ Unit} (h : Follows Builder.Keeps body) :
    Follows Builder.Keeps (ifThen cond body) := by
  unfold ifThen
  refine .bind (.lift (Build.follows_requireFunction _)) fun _ => ?_
  refine .bind (.lift (Build.follows_condition _)) fun c => ?_
  refine (collect_ensures h).bind fun block s hs => keeps_emit _ rfl ?_ hs
  simp [Stmt.scopes, Stmt.branchScopes, Stmt.blockScopes]

theorem follows_elseIf (cond : Value) {body : Authoring σ Unit} (h : Follows Builder.Keeps body) :
    Follows Builder.Keeps (elseIf cond body) := by
  unfold elseIf
  refine .bind (.lift (Build.follows_condition _)) fun c => ?_
  refine (collect_ensures h).bind fun block s hs => ?_
  exact Build.keeps_extendLast (fun _ _ => Stmt.addBranch?_eq_some) hs

theorem follows_otherwise {body : Authoring σ Unit} (h : Follows Builder.Keeps body) :
    Follows Builder.Keeps (otherwise body) := by
  refine (collect_ensures h).bind fun block s hs => ?_
  exact Build.keeps_extendLast (fun _ _ => Stmt.addElse?_eq_some) hs

theorem follows_whileDo (cond : Value) {body : Authoring σ Unit}
    (h : Follows Builder.Keeps body) : Follows Builder.Keeps (whileDo cond body) := by
  unfold whileDo
  refine .bind (.lift (Build.follows_requireFunction _)) fun _ => ?_
  refine .bind (.lift (Build.follows_condition _)) fun c => ?_
  exact (collect_ensures h).bind fun block s hs => keeps_emit _ rfl rfl hs

theorem follows_doWhile {body : Authoring σ Unit} {cond : Authoring σ Value}
    (h : Follows Builder.Keeps body) (hcond : Follows Builder.Keeps cond) :
    Follows Builder.Keeps (doWhile body cond) := by
  unfold doWhile
  refine .bind (.lift (Build.follows_requireFunction _)) fun _ => ?_
  refine (collect_ensures h).bind fun block s hs => keeps_bind hs hcond fun v s' hs' => ?_
  exact keeps_bind hs' (.lift (Build.follows_condition _)) fun c s'' hs'' =>
    keeps_emit _ rfl rfl hs''

theorem follows_scope {body : Authoring σ Unit} (h : Follows Builder.Keeps body) :
    Follows Builder.Keeps (scope body) := by
  unfold scope
  refine .bind (.lift (Build.follows_requireFunction _)) fun _ => ?_
  exact (collect_ensures h).bind fun block s hs => keeps_emit _ rfl rfl hs

/-! ## Counters and parameters -/

/-- The innermost scope, which opens with some variables, holds and has no statements yet. -/
def FreshHolds (heads : List VarId) (b : Builder) : Prop :=
  ∃ s f rest, b.stage = some s ∧ s.frames = f :: rest ∧ f.body = [] ∧ f.Holds b.vars heads

/-- A scope without statements opens with one more variable. -/
theorem FreshHolds.newVar {heads : List VarId} {b b' : Builder} {name : String} {t : TypeId}
    {role : Role} {init : Option NodeId} {x : VarId × Expr} (h : FreshHolds heads b)
    (hrole : role = .localVar ∨ role = .param)
    (hrun : b.run (Build.newVar name t role init) = (.ok x, b')) :
    FreshHolds (heads ++ [x.1]) b' := by
  obtain ⟨s, f, rest, hs, hframes, hbody, hholds⟩ := h
  have hname := Build.isIdentifier_of_run_newVar hrun
  rcases Build.run_newVar_cases b name t role init with
    ⟨fault, b₁, hfail, -⟩ | ⟨s', f', rest', e, hs', hframes', hnew, hrun'⟩
  · rw [hfail] at hrun
    cases (Prod.mk.inj hrun).1
  · obtain rfl := Option.some.inj (hs.symm.trans hs')
    obtain ⟨rfl, rfl⟩ := List.cons.inj (hframes.symm.trans hframes')
    obtain ⟨hx, rfl⟩ := Prod.mk.inj (hrun'.symm.trans hrun)
    rw [← Except.ok.inj hx]
    exact ⟨_, _, rest, rfl, rfl, hbody, hholds.bind hbody hname hnew hrole e⟩

/-- The parameters are held by the innermost scope, in their order. -/
theorem FreshHolds.declareParams {heads : List VarId} {b b' : Builder}
    {params : List (String × TypeId)} {declared : List (VarId × Expr)} (h : FreshHolds heads b)
    (hrun : b.run (Build.declareParams params) = (.ok declared, b')) :
    FreshHolds (heads ++ declared.map (·.1)) b' := by
  induction params generalizing heads b declared with
  | nil =>
      obtain ⟨hdeclared, rfl⟩ := Prod.mk.inj hrun
      rw [← Except.ok.inj hdeclared, List.map_nil, List.append_nil]
      exact h
  | cons p params ih =>
      unfold Build.declareParams at hrun
      rw [Builder.run_bind] at hrun
      rcases hvar : b.run (Build.newVar p.1 p.2 .param) with ⟨_ | x, b₁⟩
      · rw [hvar] at hrun
        cases (Prod.mk.inj hrun).1
      · rw [hvar] at hrun
        dsimp only at hrun
        rw [Builder.run_bind] at hrun
        rcases hrest : b₁.run (Build.declareParams params) with ⟨_ | xs, b₂⟩
        · rw [hrest] at hrun
          cases (Prod.mk.inj hrun).1
        · rw [hrest] at hrun
          obtain ⟨hdeclared, rfl⟩ := Prod.mk.inj hrun
          have hxs := ih (h.newVar (Or.inr rfl) hvar) hrest
          rw [← Except.ok.inj hdeclared, List.map_cons]
          rwa [List.append_assoc] at hxs

theorem follows_declareParams (params : List (String × TypeId)) :
    Build.Follows Builder.Keeps (Build.declareParams params) := by
  induction params with
  | nil => exact .pure _
  | cons p params ih =>
      unfold Build.declareParams
      exact .bind (Build.follows_newVar _ _ _ _) fun _ => .bind ih fun _ => .pure _

/-- A scope opens with the variables that an operation declares first, and a body follows. -/
theorem opens_then (heads : β → List VarId) {act : Build α} {vars : α → List VarId}
    {result : α → β} {body : α → Authoring σ Unit}
    (hact : Build.Follows Builder.Keeps act)
    (hfresh : ∀ {b a b'}, FreshHolds [] b → b.run act = (.ok a, b') → FreshHolds (vars a) b')
    (hbody : ∀ a, Follows Builder.Keeps (body a)) (hheads : ∀ a, heads (result a) = vars a) :
    Opens (do
      let a ← (act : Authoring σ α)
      body a
      return result a) heads := by
  have hopens : Opens (act : Authoring σ α) vars := by
    refine ⟨.lift hact, fun {b n s kind rest a s'} hs hframes hrun => Or.inr ?_⟩
    obtain ⟨hresult, rfl⟩ := Prod.mk.inj hrun
    have hnew : FreshHolds [] b := ⟨s, _, rest, hs, hframes, rfl, holds_new b.vars kind⟩
    obtain ⟨t, f, rest', ht, hframes', -, hholds⟩ := hfresh hnew (Prod.ext hresult rfl)
    exact ⟨t, f, rest', ht, hframes', hholds⟩
  refine hopens.bind (fun a => .bind (hbody a) fun _ => .pure _) fun a s c s' hrun => ?_
  rw [runFrom_bind] at hrun
  rcases hran : (body a).runFrom s with ⟨_ | _, s₁⟩
  · rw [hran] at hrun
    cases (Prod.mk.inj hrun).1
  · rw [hran] at hrun
    rw [← Except.ok.inj (Prod.mk.inj hrun).1]
    exact hheads a

theorem follows_forRange (counter : String) (first last : Value) {body : Expr → Authoring σ Unit}
    (h : ∀ e, Follows Builder.Keeps (body e)) :
    Follows Builder.Keeps (forRange counter first last body) := by
  unfold forRange
  refine .bind (.lift (Build.follows_requireFunction _)) fun _ => ?_
  refine .bind (.lift (Build.follows_lowerPair _ _)) fun (first, last) => ?_
  refine .bind (.lift (Build.follows_requireBounds _ _)) fun _ => ?_
  refine (inScope_ensures .loop (opens_then (fun v => [v])
    (Build.follows_newVar counter first.type .localVar none)
    (fun hfresh hrun => hfresh.newVar (Or.inl rfl) hrun) (fun x => h x.2) fun _ => rfl)).bind ?_
  rintro ⟨result, frame⟩ s hs
  cases result with
  | error e => exact s.1.keeps_refl
  | ok v => exact Build.keeps_emit _ rfl (hs v rfl)

theorem follows_func (name : String) (params : List (String × TypeShape))
    {body : List Expr → Authoring σ Unit} (h : ∀ es, Follows Builder.Keeps (body es)) :
    Follows Builder.Keeps (func name params body) := by
  unfold func
  refine .bind (.lift (Build.follows_checkFunctionName _)) fun _ => ?_
  refine .bind (.lift (Build.follows_paramTypes _ _)) fun types => ?_
  refine .bind (.lift Build.follows_stage) fun st => ?_
  refine .bind (.lift (Build.follows_requireNewParams _ _ _)) fun _ => ?_
  have hopens := opens_then id (follows_declareParams ((params.map (·.1)).zip types))
    (fun hfresh hrun => hfresh.declareParams hrun) (fun declared => h (declared.map (·.2)))
    fun declared => rfl
  refine (inScope_ensures (.function false none) hopens).bind ?_
  rintro ⟨outcome, scope⟩ s hs
  cases outcome with
  | error e => exact s.1.keeps_refl
  | ok vars =>
      exact keeps_bind (hs vars rfl) (.lift (Build.follows_resultType _ _)) fun _ _ hs' =>
        Build.keeps_addFunction hs'

theorem follows_main {body : Authoring σ Unit} (h : Follows Builder.Keeps body) :
    Follows Builder.Keeps (main body) := by
  unfold main
  refine .bind (.lift (Build.follows_requireGlobal _)) fun _ => ?_
  refine .bind (.lift Build.follows_stage) fun st => ?_
  have hrest : Follows Builder.Keeps (do
      let block ← collect (.function true none) body
      Build.modifyStage fun s => { s with main := some block }) :=
    (collect_ensures h).bind fun _ _ hs => Build.keeps_setMain hs
  dsimp only
  split
  · exact .bind (.throw _) fun _ => hrest
  · exact hrest

end Authoring

end WebShader
