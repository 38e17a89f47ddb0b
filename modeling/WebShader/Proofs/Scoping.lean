import WebShader.Proofs.AttachedScripts
import WebShader.Proofs.ScriptLives

/-!
# Lexical scoping

A name stands for its declaration in the innermost scope that has one. It goes on doing so while
that scope is open, whatever runs there and in the scopes inside of it: what they declare is
forgotten with them. A conditional is always there for its later branches.
-/

namespace WebShader

/-! ## Names -/

/-- The names that the scopes of a stage declare, from the innermost out. -/
def OpenStage.symbols (s : OpenStage) : List (List (String × Expr)) := s.frames.map (·.symbols)

/-- The expression a name stands for in the innermost scope. -/
def OpenStage.declared? (s : OpenStage) (name : String) : Option Expr :=
  s.frames.head?.bind (·.find? name)

/-- A stage in which the names of the innermost scope still stand for the same, and that is the same
around that scope. -/
structure OpenStage.Recalls (s s' : OpenStage) : Prop extends s.Nests s' where
  declared : ∀ name e, s.declared? name = some e → s'.declared? name = some e

/-- How many scopes are open. -/
def Builder.depth (b : Builder) : Option Nat := b.stage.map (·.frames.length)

/-- The expression a name stands for in the innermost scope. -/
def Builder.declared? (b : Builder) (name : String) : Option Expr :=
  b.stage.bind (·.declared? name)

section Names

variable {s s' : OpenStage} {r : Recording} {b b' : Builder}

/-- Names are looked up in the symbols only. -/
theorem lookupIn_congr {frames frames' : List Frame}
    (h : frames'.map (·.symbols) = frames.map (·.symbols)) (name : String) :
    lookupIn frames' name = lookupIn frames name := by
  have hsymbols : ∀ frames : List Frame, lookupIn frames name =
      (frames.map (·.symbols)).findSome? fun symbols =>
        (symbols.find? (·.1 == name)).map (·.2) := by
    intro frames
    rw [List.findSome?_map]
    rfl
  rw [hsymbols, hsymbols, h]

/-- Names are found in the symbols only. -/
theorem OpenStage.declared?_congr (h : s'.symbols = s.symbols) (name : String) :
    s'.declared? name = s.declared? name := by
  have hdeclared : ∀ s : OpenStage, s.declared? name =
      s.symbols.head?.bind fun symbols => (symbols.find? (·.1 == name)).map (·.2) := by
    intro s
    rw [symbols, List.head?_map, Option.bind_map]
    rfl
  rw [hdeclared, hdeclared, h]

/-- Scopes with one outline have the same symbols. -/
theorem OpenStage.symbols_of_frames {frames frames' : List Frame}
    (h : frames'.map Frame.outline = frames.map Frame.outline) :
    frames'.map (·.symbols) = frames.map (·.symbols) := by
  have hsymbols := congrArg (List.map (·.symbols)) h
  rwa [List.map_map, List.map_map] at hsymbols

/-- The symbols are restored. -/
theorem OpenStage.Restores.symbols_eq (h : s.Restores s') : s'.symbols = s.symbols :=
  symbols_of_frames h.map_outline

/-- What is recorded declares no name. -/
theorem OpenStage.Gains.symbols_eq (h : s.Gains r s') : s'.symbols = s.symbols := by
  obtain ⟨t, hrecords, ht⟩ := h
  refine ht.symbols_eq.trans ?_
  cases hrecords with
  | statement hframes _ | branch hframes _ _ _ | lastBranch hframes _ _ =>
      rw [symbols, symbols, hframes]
      rfl
  | main | function => rfl

/-- Scopes with the same names are as many and give the same answers. -/
theorem Builder.same_of_symbols
    (h : Option.Rel (fun s s' : OpenStage => s'.symbols = s.symbols) b.stage b'.stage) :
    b'.depth = b.depth ∧ ∀ name, b'.lookup name = b.lookup name := by
  unfold Builder.depth Builder.lookup
  cases hs : b.stage with
  | none =>
      rw [hs] at h
      cases hs' : b'.stage with
      | none => exact ⟨rfl, fun _ => rfl⟩
      | some s' => rw [hs'] at h; cases h
  | some s =>
      rw [hs] at h
      cases hs' : b'.stage with
      | none => rw [hs'] at h; cases h
      | some s' =>
          rw [hs'] at h
          cases h with
          | some hsymbols =>
              refine ⟨?_, lookupIn_congr hsymbols⟩
              have hlength := congrArg List.length hsymbols
              simpa [OpenStage.symbols] using hlength

/-- A stage with its symbols recalls all names. -/
theorem OpenStage.Recalls.of_symbols (hnests : s.Nests s') (h : s'.symbols = s.symbols) :
    s.Recalls s' :=
  { hnests with declared := fun name _ he => (declared?_congr h name).trans he }

instance : IsScopeOrder OpenStage.Recalls where
  refl s := .of_symbols (refl_of OpenStage.Nests s) rfl
  trans _ _ _ h h' :=
    { h.toNests.trans h'.toNests with
      declared := fun name _ he => h'.declared name _ (h.declared name _ he) }
  of_adds _ _ h := .of_symbols h.restores.nests h.restores.symbols_eq
  nests _ _ h := h.toNests
  of_restores _ _ h := .of_symbols h.nests h.symbols_eq
  emits body hframes := by
    refine .of_symbols (IsScopeOrder.emits body hframes) ?_
    rw [OpenStage.symbols, OpenStage.symbols, hframes]
    rfl
  binds {s f rest name} e hframes hfind := by
    refine { IsScopeOrder.binds (P := OpenStage.Nests) e hframes hfind with
      declared := fun other e' he => ?_ }
    have hother : f.find? other = some e' := by
      rw [OpenStage.declared?, hframes] at he
      exact he
    have hne : name ≠ other := by
      rintro rfl
      rw [hfind] at hother
      cases hother
    show Frame.find? { f with symbols := (name, e) :: f.symbols } other = some e'
    rw [Frame.find?, List.find?_cons_of_neg (by simpa using hne)]
    exact hother
  declares {s s'} hglobal hframes hbuiltins hextensions := by
    refine .of_symbols (IsScopeOrder.declares hglobal hframes hbuiltins hextensions) ?_
    rw [OpenStage.symbols, OpenStage.symbols, hframes]

/-- The scopes around the innermost one declare the same names. -/
theorem OpenStage.Nests.symbols_around {f f' : Frame} {rest rest' : List Frame} (h : s.Nests s')
    (hframes : s.frames = f :: rest) (hframes' : s'.frames = f' :: rest') :
    rest'.map (·.symbols) = rest.map (·.symbols) := by
  have hlength := h.length_eq (by simp [hframes])
  rw [hframes, hframes', List.length_cons, List.length_cons] at hlength
  cases rest with
  | nil => rw [List.eq_nil_of_length_eq_zero (Nat.succ.inj hlength)]
  | cons g rest =>
      have hsame := congrArg OpenStage.frames (h.surroundings (by simp [hframes]))
      simp only [OpenStage.surroundings, OpenStage.outline, hframes, hframes', List.map_cons,
        List.drop_one, List.tail_cons] at hsame
      exact symbols_of_frames hsame

/-- A name stands for the same afterwards, or has been declared anew in the innermost scope. -/
theorem OpenStage.Recalls.lookup (h : s.Recalls s') (hs : s.frames ≠ []) (name : String) :
    lookupIn s'.frames name = lookupIn s.frames name ∨
      s.declared? name = none ∧
        ∃ e, s'.declared? name = some e ∧ lookupIn s'.frames name = some e := by
  obtain ⟨f, rest, hframes⟩ := List.exists_cons_of_ne_nil hs
  obtain ⟨f', rest', hframes'⟩ := List.exists_cons_of_ne_nil (h.frames_ne_nil hs)
  have haround := lookupIn_congr (h.symbols_around hframes hframes') name
  have hdeclared := h.declared name
  simp only [declared?, hframes, hframes', List.head?_cons, Option.bind_some] at hdeclared ⊢
  rw [lookupIn_cons, lookupIn_cons, haround]
  cases hf : f.find? name with
  | some e =>
      rw [hdeclared e hf]
      exact Or.inl rfl
  | none =>
      cases hf' : f'.find? name with
      | none => exact Or.inl rfl
      | some e => exact Or.inr ⟨rfl, e, rfl, rfl⟩

/-- A variable that has been declared is what its name stands for, and no other name is. -/
theorem Builder.declared_of_newVar {name : String} {t : TypeId} {role : Role}
    {init : Option NodeId} {x : VarId × Expr}
    (h : b.run (Build.newVar name t role init) = (.ok x, b')) :
    b.declared? name = none ∧ b'.declared? name = some x.2 ∧ b'.lookup name = some x.2 ∧
      ∀ other, other ≠ name → b'.lookup other = b.lookup other := by
  rcases Build.run_newVar_cases b name t role init with
    ⟨fault, b₁, hrun, -⟩ | ⟨s, f, rest, e, hs, hframes, hfind, hrun⟩
  · rw [h] at hrun
    cases hrun
  · rw [h] at hrun
    cases hrun
    have hself : Frame.find? { f with symbols := (name, e) :: f.symbols } name = some e := by
      simp [Frame.find?]
    refine ⟨?_, hself, ?_, fun other hother => ?_⟩
    · simp [Builder.declared?, OpenStage.declared?, hs, hframes, hfind]
    · show lookupIn ({ f with symbols := (name, e) :: f.symbols } :: rest) name = some e
      rw [lookupIn_cons, hself]
      rfl
    · show lookupIn ({ f with symbols := (name, e) :: f.symbols } :: rest) other = b.lookup other
      have hne : Frame.find? { f with symbols := (name, e) :: f.symbols } other =
        f.find? other := by
        simp [Frame.find?, Ne.symm hother]
      rw [Builder.lookup, hs, Option.bind_some, hframes, lookupIn_cons, lookupIn_cons, hne]

/-- A name is found where it was, or has been declared in the innermost scope. -/
theorem Builder.Kept.recalled (h : b.Kept OpenStage.Recalls b') (hb : b.HasScope) :
    b'.depth = b.depth ∧ ∀ name, b'.lookup name = b.lookup name ∨
      b.declared? name = none ∧ ∃ e, b'.declared? name = some e ∧ b'.lookup name = some e := by
  have hstage := h.stage
  unfold Builder.depth Builder.lookup Builder.declared?
  cases hs : b.stage with
  | none =>
      rw [hs] at hstage
      generalize b'.stage = o at hstage ⊢
      cases hstage
      exact ⟨rfl, fun _ => Or.inl rfl⟩
  | some s =>
      rw [hs] at hstage
      generalize b'.stage = o at hstage ⊢
      cases hstage with
      | some hrecalls =>
          exact ⟨congrArg some (hrecalls.length_eq (hb s hs)), hrecalls.lookup (hb s hs)⟩

end Names

namespace Authoring

variable {σ α : Type}

/-- What keeps the scopes or loses the stage keeps scopes opened alike. -/
theorem Follows.nests {P : OpenStage → OpenStage → Prop} [IsStageOrder P] {act : Authoring σ α}
    (h : Follows (Builder.KeptOrLost P) act) : Follows Builder.Nests act :=
  fun s => (h s).imp_left (·.mono IsStageOrder.nests)

/-- What keeps the names of an innermost scope, if there is one. -/
theorem follows_recalls {act : Authoring σ α} (h : Follows Builder.Nests act)
    (hscope : ∀ s : Builder × σ, s.1.HasScope →
      s.1.KeptOrLost OpenStage.Recalls (act.runFrom s).2.1) :
    Follows (Builder.KeptOrLost OpenStage.Recalls) act := by
  intro s
  by_cases hs : s.1.HasScope
  · exact hscope s hs
  · -- a stage without scopes has no name to keep
    obtain ⟨t, ht, hnil⟩ : ∃ t, s.1.stage = some t ∧ t.frames = [] := by
      simpa [Builder.HasScope] using hs
    refine (h s).imp_left fun hkept => ⟨hkept.toGrows, ?_⟩
    have hstage := hkept.stage
    rw [ht] at hstage ⊢
    generalize (act.runFrom s).2.1.stage = o at hstage ⊢
    cases hstage with
    | some hnests =>
        refine .some { hnests with declared := fun name e he => ?_ }
        rw [OpenStage.declared?, hnil] at he
        cases he

variable {body : Authoring σ Unit} {P : OpenStage → OpenStage → Prop} [IsScopeOrder P]

/-- A loop keeps the scopes around it, or loses the stage. -/
theorem EndsLoop.order {cond : Authoring σ Value} {s : Builder × σ}
    {x : Except ShaderError Unit × (Builder × σ)} (hcond : Follows (Builder.KeptOrLost P) cond)
    (h : EndsLoop body cond s x) : s.1.KeptOrLost P x.2.1 := by
  cases h with
  | stopped h => exact h.imp_left (·.mono IsScopeOrder.of_restores)
  | @failed _ s₁ _ _ _ hkept hrun =>
      have hfollows := hcond s₁
      rw [hrun] at hfollows
      exact trans_of (Builder.KeptOrLost P) (Or.inl (hkept.mono IsScopeOrder.of_restores)) hfollows
  | @tested _ s₁ _ _ _ _ hkept hrun hends =>
      have hfollows := hcond s₁
      rw [hrun] at hfollows
      exact trans_of (Builder.KeptOrLost P) (Or.inl (hkept.mono IsScopeOrder.of_restores))
        (trans_of (Builder.KeptOrLost P) hfollows hends.order)

end Authoring

namespace Script

open Authoring

/-- Whatever a script runs, the names of the innermost scope stand for the same. -/
theorem respected_recalls : Respected (Builder.KeptOrLost OpenStage.Recalls) where
  func name params _ h := by
    have hnests := fun es => (h es).nests
    exact follows_recalls (nests_func name params hnests) fun s hs =>
      (records_func name params hnests s hs).order
  main h := follows_recalls (nests_main h.nests) fun s hs => (records_main h.nests s hs).order
  scope h := follows_recalls (nests_scope h.nests) fun s hs => (records_scope h.nests s hs).order
  ifThen v _ h := follows_recalls (nests_ifThen v h.nests) fun s hs =>
    (records_ifThen v h.nests s hs).order
  elseIf v _ h := follows_recalls (nests_elseIf v h.nests) fun s hs =>
    (records_elseIf v h.nests s hs).order
  otherwise h := follows_recalls (nests_otherwise h.nests) fun s hs =>
    (records_otherwise h.nests s hs).order
  forRange counter first last _ h := by
    have hnests := fun e => (h e).nests
    exact follows_recalls (nests_forRange counter first last hnests) fun s hs =>
      (records_forRange counter first last hnests s hs).order
  whileDo v _ h := follows_recalls (nests_whileDo v h.nests) fun s hs =>
    (records_whileDo v h.nests s hs).order
  doWhile h hcond := follows_recalls (nests_doWhile h.nests hcond.nests) fun s hs =>
    (endsLoop_doWhile h.nests hcond.nests hs).order hcond

/-- A script recalls all names, or loses the stage. -/
theorem recalls_runAll (tolerant : Bool) (steps : Script) :
    Follows (Builder.KeptOrLost OpenStage.Recalls) (runAll tolerant steps) :=
  follows_runAll respected_recalls tolerant steps

end Script

/-! ## Scoping -/

namespace Script

open Authoring

/-- The lexical scoping of bodies, whatever steps they are. -/
structure LexicallyScoped : Prop where
  opened : ∀ (b : Builder) which earlier,
    ((b.opened which).run (Build.inputsFrom earlier)).2.HasScope
  entered : ∀ (b : Builder) kind, b.HasScope → (b.run (Build.pushScope kind)).2.HasScope
  continued : ∀ tolerant steps s, s.1.HasScope → ((runAll tolerant steps).runFrom s).2.1.HasScope
  func : ∀ name params names tolerant steps (s : Builder × Notes),
    RecordsOne (fun _ r => ∃ types b b' vars scope f,
      s.1.run (Build.paramTypes name params) = (.ok types, b) ∧ b.Spares b' ∧
      Leaves (.function false none) (do
        let declared ← Build.declareParams ((params.map (·.1)).zip types)
        functionBody names (runAll tolerant steps) (declared.map (·.2))
        return declared.map (·.1)) (b', s.2) vars scope ∧
      f.name = name ∧ f.params = vars ∧ f.paramTypes = types ∧ f.body = scope.body ∧
      r = .function f) (Authoring.func name params (functionBody names (runAll tolerant steps))) s
  main : ∀ tolerant steps s, RecordsOne (fun _ r => ∃ scope,
    Leaves (.function true none) (body (runAll tolerant steps)) s () scope ∧
      r = .main scope.body) (Authoring.main (body (runAll tolerant steps))) s
  scope : ∀ tolerant steps s, RecordsOne (fun _ r => ∃ scope,
    Leaves .block (body (runAll tolerant steps)) s () scope ∧
      r = .statement (.block scope.body)) (Authoring.scope (body (runAll tolerant steps))) s
  ifThen : ∀ cond tolerant steps s, RecordsOne (fun _ r => ∃ c b scope,
    s.1.run (Build.condition cond) = (.ok c, b) ∧
      Leaves .branch (body (runAll tolerant steps)) (b, s.2) () scope ∧
      r = .statement (.conditional [(c, scope.body)] none))
    (Authoring.ifThen cond (body (runAll tolerant steps))) s
  elseIf : ∀ cond tolerant steps s, RecordsOne (fun _ r => ∃ c b scope,
    s.1.run (Build.condition cond) = (.ok c, b) ∧
      Leaves .branch (body (runAll tolerant steps)) (b, s.2) () scope ∧ r = .branch c scope.body)
    (Authoring.elseIf cond (body (runAll tolerant steps))) s
  otherwise : ∀ tolerant steps s, RecordsOne (fun _ r => ∃ scope,
    Leaves .branch (body (runAll tolerant steps)) s () scope ∧ r = .lastBranch scope.body)
    (Authoring.otherwise (body (runAll tolerant steps))) s
  forRange : ∀ counter first last tolerant steps (s : Builder × Notes),
    RecordsOne (fun _ r => ∃ ends b b' v scope,
      s.1.run (Build.lowerPair first last) = (.ok ends, b) ∧ b.Spares b' ∧
      Leaves .loop (do
        let (v, e) ← Build.newVar counter ends.1.type .localVar
        loopBody counter (runAll tolerant steps) e
        return v) (b', s.2) v scope ∧
      r = .statement (.forRange v ends.1.node ends.2.node scope.body))
    (Authoring.forRange counter first last (loopBody counter (runAll tolerant steps))) s
  whileDo : ∀ cond tolerant steps s, RecordsOne (fun _ r => ∃ c b scope,
    s.1.run (Build.condition cond) = (.ok c, b) ∧
      Leaves .loop (body (runAll tolerant steps)) (b, s.2) () scope ∧
      r = .statement (.whileDo c scope.body))
    (Authoring.whileDo cond (body (runAll tolerant steps))) s
  doWhile : ∀ tolerant steps before cond s, s.1.HasScope →
    EndsLoop (body (runAll tolerant steps)) (condition (runAll tolerant before) cond) s
      ((Authoring.doWhile (body (runAll tolerant steps))
        (condition (runAll tolerant before) cond)).runFrom s)
  kept : ∀ tolerant steps s entries t, Shows tolerant steps s entries t → s.1.phase ≠ .idle →
    ¬(Course.steps steps entries).Resets → t.1.stage.isSome = s.1.stage.isSome
  recorded : ∀ r (b b' : Builder), b.Gains r b' →
    b'.depth = b.depth ∧ ∀ name, b'.lookup name = b.lookup name
  restored : ∀ b b' : Builder, b.Kept OpenStage.Restores b' →
    b'.depth = b.depth ∧ ∀ name, b'.lookup name = b.lookup name
  innermost : ∀ (b : Builder) s name e, b.stage = some s → (b.lookup name = some e ↔
    ∃ inner f outer, s.frames = inner ++ f :: outer ∧ (∀ g ∈ inner, g.find? name = none) ∧
      f.find? name = some e)
  declared : ∀ (b : Builder) name t role init x b', b.run (Build.newVar name t role init) =
    (.ok x, b') → b.declared? name = none ∧ b'.declared? name = some x.2 ∧
      b'.lookup name = some x.2 ∧ ∀ other, other ≠ name → b'.lookup other = b.lookup other
  recalled : ∀ tolerant steps s x s', s.1.HasScope → (runAll tolerant steps).runFrom s = (x, s') →
    s.1.Lost s'.1 ∨ s'.1.depth = s.1.depth ∧ ∀ name, s'.1.lookup name = s.1.lookup name ∨
      s.1.declared? name = none ∧ ∃ e, s'.1.declared? name = some e ∧ s'.1.lookup name = some e
  attached : ∀ tolerant n cond steps branches otherwise act s fault s',
    (Action.conditional cond steps branches otherwise).run tolerant n = .ok act → s.1.HasScope →
    act.runFrom s = (.error (.internal fault), s') → fault = .noStage ∨
      ∃ steps' ∈ steps :: (branches.map (·.2) ++ otherwise.toList),
        Breaks (body (runAll tolerant steps')) fault
  unreachable : ∀ config tolerant steps, ∀ entry ∈ transcript config tolerant steps,
    entry.IsAttached

/-- Bodies are lexically scoped, whatever steps they are: an operation with a body leaves the scopes
around it as they were, but for the one thing that it records if it succeeds. -/
theorem bodies_lexically_scoped : LexicallyScoped where
  opened b which earlier := by
    have h := Build.followsGlobally_inputsFrom (R := Builder.Nests) earlier _ (b.takes_opened which)
    refine h.hasScope fun s hs => ?_
    -- a stage that has been opened starts with its outermost scope
    rw [← Option.some.inj hs]
    exact List.cons_ne_nil _ _
  entered _ kind hb := hasScope_pushScope hb kind
  continued tolerant steps s hs := (nests_runAll tolerant steps s).hasScope hs
  func _ _ _ _ _ s := records_func _ _ (nests_functionBody _ _ _) s
  main _ _ s := records_main (nests_body _ _) s
  scope _ _ s := records_scope (nests_body _ _) s
  ifThen _ _ _ s := records_ifThen _ (nests_body _ _) s
  elseIf _ _ _ s := records_elseIf _ (nests_body _ _) s
  otherwise _ _ s := records_otherwise (nests_body _ _) s
  forRange _ _ _ _ _ s := records_forRange _ _ _ (nests_loopBody _ _ _) s
  whileDo _ _ _ s := records_whileDo _ (nests_body _ _) s
  doWhile _ _ _ _ _ hs :=
    endsLoop_doWhile (nests_body _ _) (follows_condition (nests_runAll _ _) _) hs
  kept tolerant steps s entries t h hphase hreset :=
    congrArg Life.isOpen (h.lives.stays hphase hreset).1
  recorded _ _ _ h := Builder.same_of_symbols (Builder.rel_mono (fun _ _ => (·.symbols_eq)) h.stage)
  restored _ _ h := Builder.same_of_symbols (Builder.rel_mono (fun _ _ => (·.symbols_eq)) h.stage)
  innermost b s name e hs := by
    rw [Builder.lookup, hs, Option.bind_some, lookupIn, List.findSome?_eq_some_iff]
    constructor
    · rintro ⟨inner, f, outer, hframes, hf, hinner⟩
      exact ⟨inner, f, outer, hframes, hinner, hf⟩
    · rintro ⟨inner, f, outer, hframes, hinner, hf⟩
      exact ⟨inner, f, outer, hframes, hf, hinner⟩
  declared b name t role init x b' h := Builder.declared_of_newVar h
  recalled tolerant steps s x s' hs hrun := by
    have h := recalls_runAll tolerant steps s
    rw [hrun] at h
    exact h.symm.imp_right fun hkept => hkept.recalled hs
  attached _ _ _ _ _ _ _ _ _ _ h hs hrun := breaks_of_run_conditional h hs hrun
  unreachable := transcript_attached

end Script

end WebShader
