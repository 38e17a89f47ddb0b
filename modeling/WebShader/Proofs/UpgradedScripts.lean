import WebShader.Proofs.UpgradedRuns

/-!
# Scripts upgrade

A script in which every step succeeds on WebGL succeeds step by step on WebGL2: each step shows the
same expression with the same type, and each program that is built has the same bind group layouts
and the same vertex attributes.
-/

namespace WebShader

namespace Script

open Authoring

/-! ## Operations -/

section Operations

theorem upgrades_bind (name : String) (e : Expr) :
    Upgrades Eq (modifyNotes (·.bind name e)) (modifyNotes (·.bind name e)) :=
  .modifyNotes (fun _ => rfl) (fun _ => rfl) fun _ _ hnames hshown =>
    ⟨by simp only [Notes.bind, hnames], hshown⟩

theorem upgrades_showExpr (e : Expr) : Upgrades Reply.Upgrades (showExpr e) (showExpr e) := by
  constructor
  · rintro ⟨b, n⟩ r t hrun
    rw [runFrom_showExpr] at hrun
    obtain ⟨-, rfl⟩ := Prod.mk.inj hrun
    exact blocks_number n e ▸ List.prefix_refl _
  · rintro ⟨b, n⟩ ⟨b', n'⟩ ⟨⟨hb, hbuilder, hnames, hshown⟩, hblocks⟩ r t hrun -
    obtain rfl : b' = b.upgrade := hbuilder
    rw [runFrom_showExpr] at hrun
    obtain ⟨hr, rfl⟩ := Prod.mk.inj hrun
    obtain ⟨hnumber, hshown⟩ := number_congr hshown e
    refine ⟨r, (b.upgrade, (n'.number e).2), ?_, .same r, ⟨hb, rfl, ?_, hshown⟩, ?_⟩
    · rw [runFrom_showExpr, hnumber, ← Except.ok.inj hr]
      rfl
    · exact (names_number n' e).trans (hnames.trans (names_number n e).symm)
    · show List.Forall₂ _ (n.number e).2.blocks (n'.number e).2.blocks
      rwa [blocks_number, blocks_number]

/-- Every reply can be upgraded. -/
theorem exists_upgrades (r : Reply) : ∃ r', r.Upgrades r' := ⟨r, .same r⟩

@[grind ←]
theorem upgrades_showResult {act : Build Expr} (h : Build.Upgrades act) :
    Upgrades Reply.Upgrades (showResult act) (showResult act) :=
  .bind (.lift h) upgrades_showExpr

@[grind ←]
theorem upgrades_quietly {act : Build Unit} (h : Build.Upgrades act) :
    Upgrades Reply.Upgrades (quietly act) (quietly act) :=
  .bind (.lift h) fun _ => .pure (.same _)

/-- An answer that the target has no part in, save for the options. -/
theorem upgrades_answer {f : Builder → Reply} (hf : ∀ b : Builder, (f b).Upgrades (f b.upgrade)) :
    Upgrades Reply.Upgrades (answer f) (answer f) :=
  .current_bind (fun _ => .pure _) fun b _ _ _ hs => .pure hs (hf b)

theorem upgrades_showOption {find : Builder → Option Expr}
    (hfind : ∀ b : Builder, find b.upgrade = find b) :
    Upgrades Reply.Upgrades (showOption find) (showOption find) := by
  refine .current_bind (fun b => ?_) fun b _ s s' hs => ?_
  · split
    · exact (upgrades_showExpr _).records
    · exact .pure _
  · rw [hfind]
    split
    · exact (upgrades_showExpr _).upgrade s s' hs
    · exact .pure hs (.same _)

theorem upgrades_showType (shape : TypeShape) :
    Upgrades Reply.Upgrades (Operation.showType shape) (Operation.showType shape) :=
  .bind (.lift (Build.upgrades_type shape)) fun _ => upgrades_answer fun _ => .same _

theorem upgrades_reset : Upgrades Reply.Upgrades Script.reset Script.reset := by
  have hnotes : Upgrades Eq (modifyNotes fun n => { n with names := [], shown := #[] })
      (modifyNotes fun n => { n with names := [], shown := #[] }) :=
    .modifyNotes (fun _ => rfl) (fun _ => rfl) fun _ _ _ _ => ⟨rfl, rfl⟩
  refine .bind hnotes fun _ => upgrades_quietly ?_
  refine Build.upgrades_modify (fun _ => rfl) fun b hb => ⟨hb.target, ?_, ?_⟩
  · exact Registry.isSigned_iff.mpr Registry.hasOnly_empty
  · simp [Builder.reset, Builder.currentStage, Builder.new]

/-- Tags stay. -/
theorem tagged_upgrade (b : Builder) (path : String) : b.upgrade.tagged path = b.tagged path := by
  rw [Builder.tagged, Builder.tagged, Builder.upgrade_stage]
  cases b.stage <;> rfl

/-- The tags of an expression stay. -/
theorem tagsOf_upgrade (b : Builder) (e : Expr) : b.upgrade.tagsOf e = b.tagsOf e := by
  rw [Builder.tagsOf, Builder.tagsOf, Builder.upgrade_stage]
  cases b.stage <;> rfl

/-- What is told of an expression stays. -/
theorem info_upgrade (b : Builder) (e : Expr) : b.upgrade.info e = b.info e := by
  rw [Builder.info, Builder.info, tagsOf_upgrade]
  rfl

/-- Every operation upgrades. -/
theorem upgrades_operation {n : Notes} {op : Operation} {act : Run Reply}
    (h : op.action n = .ok act) : Upgrades Reply.Upgrades act act := by
  cases op <;> simp only [Operation.action, bind_eq_ok_iff, pure, Except.pure, Except.ok.injEq] at h
  case reset => exact h ▸ upgrades_reset
  case lastError => exact h ▸ upgrades_answer fun _ => .same _
  case currentStage =>
    exact h ▸ upgrades_answer fun b => by rw [b.currentStage_upgrade]; exact .same _
  case builder => exact h ▸ upgrades_answer fun b => .builder _ _
  case type shape => exact h ▸ upgrades_showType shape
  case structNamed => exact h ▸ upgrades_answer fun _ => .same _
  case lookup name => exact h ▸ upgrades_showOption fun b => b.upgrade_lookup name
  case tagged path => exact h ▸ upgrades_showOption fun b => tagged_upgrade b path
  case tagsOf =>
    obtain ⟨e, -, rfl⟩ := h
    exact upgrades_answer fun b => by rw [tagsOf_upgrade]; exact .same _
  case info =>
    obtain ⟨e, -, rfl⟩ := h
    exact upgrades_answer fun b => by rw [info_upgrade]; exact .same _
  all_goals grind

end Operations

/-! ## Bodies -/

/-- Where steps run on WebGL and all of them succeed, they succeed from the counterpart too. -/
def StepsUpgrade (steps : Run Outcome) : Prop :=
  ∀ s s', Matches s s' → ∀ o t, steps.runFrom s = (.ok o, t) → entriesSucceed o.1 = true →
    o.2 = none ∧ ∃ entries t', steps.runFrom s' = (.ok (entries, none), t') ∧
      List.Forall₂ Entry.Upgrades o.1 entries ∧ Matches t t'

section Bodies

variable {steps : Run Outcome}

/-- A body succeeds where its steps run to the end, and keeps their transcript. -/
theorem runFrom_body_eq_ok_iff {s t : Builder × Notes} {u : Unit} :
    (body steps).runFrom s = (.ok u, t) ↔ ∃ entries t₁,
      steps.runFrom s = (.ok (entries, none), t₁) ∧
        t = (t₁.1, { t₁.2 with blocks := s.2.blocks ++ [entries] }) := by
  rw [runFrom_body]
  rcases steps.runFrom s with ⟨e | ⟨entries, _ | e⟩, t₁⟩
  · simp
  · constructor
    · intro h
      obtain ⟨-, rfl⟩ := Prod.mk.inj h
      exact ⟨entries, t₁, rfl, rfl⟩
    · rintro ⟨entries', t₁', h, rfl⟩
      cases h
      rfl
  · simp

theorem upgrades_body (h : StepsUpgrade steps) : Upgrades Eq (body steps) (body steps) := by
  constructor
  · intro s u t hrun
    obtain ⟨entries, t₁, -, rfl⟩ := runFrom_body_eq_ok_iff.mp hrun
    exact List.prefix_append _ _
  · intro s s' hs u t hrun ht
    obtain ⟨entries, t₁, hsteps, rfl⟩ := runFrom_body_eq_ok_iff.mp hrun
    rw [blocksSucceed_append, blocksSucceed, blocksSucceed, Bool.and_true] at ht
    obtain ⟨-, entries', t', hsteps', hentries, hmatches⟩ :=
      h s s' hs.toMatches _ t₁ hsteps (Bool.and_eq_true_iff.mp ht).2
    refine ⟨u, _, runFrom_body_eq_ok_iff.mpr ⟨entries', t', hsteps', rfl⟩, rfl, ?_⟩
    exact ⟨{ hmatches with }, List.rel_append hs.blocks (.cons hentries .nil)⟩

theorem upgrades_functionBody (names : List String) (h : StepsUpgrade steps) (params : List Expr) :
    Upgrades Eq (functionBody names steps params) (functionBody names steps params) := by
  refine .bind (.modifyNotes ?_ ?_ ?_) fun _ => upgrades_body h
  · exact fun n => blocks_bindAll n _
  · exact fun n => blocks_bindAll n _
  · intro n n' hnames hshown
    exact ⟨bindAll_congr hnames _, by rw [shown_bindAll, shown_bindAll, hshown]⟩

theorem upgrades_loopBody (counter : String) (h : StepsUpgrade steps) (e : Expr) :
    Upgrades Eq (loopBody counter steps e) (loopBody counter steps e) :=
  .bind (upgrades_bind counter e) fun _ => upgrades_body h

theorem upgrades_condition (h : StepsUpgrade steps) (cond : Operand) :
    Upgrades Eq (condition steps cond) (condition steps cond) := by
  refine .bind (upgrades_body h) fun _ => .notes_bind fun n n' hnames _ => ?_
  rw [value_congr hnames]
  split
  · exact .pure rfl
  · exact .pure rfl

theorem upgrades_conditional (cond : Value) {branches : List (Value × Run Outcome)}
    {otherwise : Option (Run Outcome)} (hsteps : StepsUpgrade steps)
    (hbranches : ∀ branch ∈ branches, StepsUpgrade branch.2)
    (hotherwise : ∀ last, otherwise = some last → StepsUpgrade last) :
    Upgrades Eq (conditional cond steps branches otherwise)
      (conditional cond steps branches otherwise) := by
  refine .bind (upgrades_ifThen cond (upgrades_body hsteps)) fun _ => .bind ?_ fun _ => ?_
  · induction branches with
    | nil => exact .pure rfl
    | cons branch branches ih =>
        obtain ⟨hbranch, hrest⟩ := List.forall_mem_cons.mp hbranches
        exact .bind (upgrades_elseIf branch.1 (upgrades_body hbranch)) fun _ => ih hrest
  · cases otherwise with
    | none => exact .pure rfl
    | some last => exact upgrades_otherwise (upgrades_body (hotherwise last rfl))

end Bodies

/-! ## Steps -/

/-- Where an action succeeds on WebGL, and all steps in its bodies do, it succeeds from the
counterpart too. -/
def RepliesUpgrade (act : Run Reply) : Prop :=
  ∀ s s', Mirrors s s' → ∀ r t, act.runFrom s = (.ok r, t) → r.succeeds = true →
    blocksSucceed t.2.blocks = true →
      ∃ r' t', act.runFrom s' = (.ok r', t') ∧ r.Upgrades r' ∧ Mirrors t t'

/-- Replies that are upgraded. -/
theorem Upgrades.replies {act : Run Reply} (h : Upgrades Reply.Upgrades act act) :
    RepliesUpgrade act :=
  fun s s' hs r t hrun _ ht => h.upgrade s s' hs r t hrun ht

theorem upgrades_named (name : Option String) {act : Run Reply}
    (h : Upgrades Reply.Upgrades act act) :
    Upgrades Reply.Upgrades (named name act) (named name act) := by
  refine h.bind_of exists_upgrades fun r r' hr => ?_
  cases hr with
  | same =>
      dsimp only
      split
      · exact .bind (upgrades_bind _ _) fun _ => .pure (.same _)
      · exact .pure (.same _)
  | render found hp => exact .pure (.render found hp)
  | builder config types => exact .pure (.builder config types)

theorem upgrades_silently {act : Run Unit} (h : Upgrades Eq act act) :
    Upgrades Reply.Upgrades (silently act) (silently act) :=
  .bind h fun _ => .pure (.same _)

/-- Matching states begin a step alike. -/
theorem Matches.begun {s s' : Builder × Notes} (h : Matches s s') :
    Mirrors (begun s) (begun s') := ⟨{ h with }, .nil⟩

/-- Matching states end a step alike. -/
theorem Matches.ended {s s' : Builder × Notes} (h : Matches s s') : Matches (ended s) (ended s') :=
  ⟨{ h.isWebGL with }, by rw [Script.ended, h.builder]; rfl, h.names, h.shown⟩

/-- Where a step succeeds on WebGL, it succeeds from the counterpart too. -/
theorem upgrades_record {goesOn : Bool} {act : Except String (Run Reply)}
    (h : ∀ run, act = .ok run → RepliesUpgrade run) {s s' t : Builder × Notes} (hs : Matches s s')
    {entry : Entry} {failure : Option ShaderError}
    (hrun : (record goesOn act).runFrom s = (.ok (entry, failure), t))
    (hentry : entry.succeeds = true) : failure = none ∧ ∃ entry' t',
      (record goesOn act).runFrom s' = (.ok (entry', none), t') ∧ entry.Upgrades entry' ∧
        Matches t t' := by
  cases act with
  | error name =>
      rw [runFrom_record_unbound] at hrun
      obtain ⟨hresult, rfl⟩ := Prod.mk.inj hrun
      obtain ⟨rfl, rfl⟩ := Prod.mk.inj (Except.ok.inj hresult)
      exact ⟨rfl, _, _, runFrom_record_unbound goesOn name s', .mk _ _ (.same _) .nil,
        hs.begun.toMatches.ended⟩
  | ok act =>
      rw [runFrom_record] at hrun
      rcases hact : act.runFrom (begun s) with ⟨e | reply, t₁⟩
      · rw [hact] at hrun
        obtain ⟨hresult, rfl⟩ := Prod.mk.inj hrun
        obtain ⟨rfl, -⟩ := Prod.mk.inj (Except.ok.inj hresult)
        cases hentry
      · rw [hact] at hrun
        obtain ⟨hresult, rfl⟩ := Prod.mk.inj hrun
        obtain ⟨rfl, rfl⟩ := Prod.mk.inj (Except.ok.inj hresult)
        rw [Entry.succeeds] at hentry
        obtain ⟨hreply, hblocks⟩ := Bool.and_eq_true_iff.mp hentry
        obtain ⟨reply', t₁', hact', hr, hmirrors⟩ :=
          h act rfl _ _ hs.begun reply t₁ hact hreply hblocks
        refine ⟨rfl, ⟨reply', t₁'.2.blocks, t₁'.1.remarks⟩, ended t₁', ?_,
          .mk _ _ hr hmirrors.blocks, hmirrors.toMatches.ended⟩
        rw [runFrom_record, hact']

/-- A render program replies alike. -/
theorem replies_render {isReported : Bool} {label : String} {vertex fragment : Run Outcome}
    (queries : List Query) (hv : StepsUpgrade vertex) (hf : StepsUpgrade fragment) :
    RepliesUpgrade (do
      let built ← program isReported label (Authoring.render label (body vertex) (body fragment))
      return .render (built.map fun p => (p, queries.map (·.answer p.layouts)))) := by
  intro s s' hs r t hrun hr ht
  obtain ⟨built, t₁, hbuilt, hrest⟩ := runFrom_bind_eq_ok_iff.mp hrun
  obtain ⟨hreply, rfl⟩ := Prod.mk.inj hrest
  rw [← Except.ok.inj hreply] at hr ⊢
  cases built with
  | none => cases hr
  | some p =>
      have hbuild := upgrades_render label (upgrades_body hv) (upgrades_body hf)
      obtain ⟨p', t', hbuilt', hp, hmirrors⟩ :=
        upgrades_program hbuild exists_renderProgram_upgrades hs hbuilt ht
      refine ⟨_, t', runFrom_bind_eq_ok_iff.mpr ⟨some p', t', hbuilt', rfl⟩, ?_, hmirrors⟩
      show (Reply.render (some (p, _))).Upgrades (.render (some (p', _)))
      rw [hp.layouts]
      exact .render _ hp

mutual

/-- A step replies alike, by recursion on it. -/
theorem replies_run (tolerant : Bool) (n : Notes) (a : Action) {act : Run Reply}
    (hact : a.run tolerant n = .ok act) : RepliesUpgrade act :=
  match a with
  | .operation op name => by
      rw [Action.run] at hact
      cases hop : op.action n with
      | error e =>
          rw [hop] at hact
          cases hact
      | ok act' =>
          rw [hop] at hact
          rw [← Except.ok.inj hact]
          exact (upgrades_named _ (upgrades_operation hop)).replies
  | .render isReported label vertex fragment queries => by
      rw [← Except.ok.inj hact]
      exact replies_render queries (steps_runAll tolerant vertex) (steps_runAll tolerant fragment)
  | .compute isReported label steps queries => by
      rw [← Except.ok.inj hact]
      intro s s' hs r t hrun hr
      obtain ⟨built, t₁, hbuilt, hrest⟩ := runFrom_bind_eq_ok_iff.mp hrun
      rw [← Except.ok.inj (Prod.mk.inj hrest).1] at hr
      cases built with
      | none => cases hr
      | some p =>
          have hsettled := runFrom_program_eq_some_iff.mp hbuilt
          obtain ⟨p', t', hcompute, -⟩ := runFrom_bind_eq_ok_iff.mp hsettled
          exact absurd hcompute (runFrom_compute_ne hs.isWebGL.target label p' t')
  | .func name params steps => by
      rw [← Except.ok.inj hact]
      refine Upgrades.replies (.bind (upgrades_func name params fun es => ?_) fun _ =>
        .pure (.same _))
      exact upgrades_functionBody _ (steps_runAll tolerant steps) es
  | .main steps => by
      rw [← Except.ok.inj hact]
      exact (upgrades_silently (upgrades_main
        (upgrades_body (steps_runAll tolerant steps)))).replies
  | .scope steps => by
      rw [← Except.ok.inj hact]
      exact (upgrades_silently (upgrades_scope
        (upgrades_body (steps_runAll tolerant steps)))).replies
  | .conditional cond steps branches otherwise => by
      obtain ⟨c, -, hact⟩ := bind_eq_ok_iff.mp hact
      obtain ⟨values, hvalues, hact⟩ := bind_eq_ok_iff.mp hact
      rw [← Except.ok.inj hact]
      have hbranches := steps_runBranches tolerant branches
      refine (upgrades_silently (upgrades_conditional c (steps_runAll tolerant steps) ?_
        fun _ => steps_runOptional tolerant otherwise)).replies
      intro branch hbranch
      obtain ⟨cond', hmem⟩ := mem_of_branchValues hvalues hbranch
      exact hbranches _ hmem
  | .forRange counter first last steps => by
      obtain ⟨v, -, hact⟩ := bind_eq_ok_iff.mp hact
      obtain ⟨w, -, hact⟩ := bind_eq_ok_iff.mp hact
      rw [← Except.ok.inj hact]
      refine (upgrades_silently (upgrades_forRange counter v w fun e => ?_)).replies
      exact upgrades_loopBody counter (steps_runAll tolerant steps) e
  | .whileDo cond steps => by
      obtain ⟨c, -, hact⟩ := bind_eq_ok_iff.mp hact
      rw [← Except.ok.inj hact]
      exact (upgrades_silently
        (upgrades_whileDo c (upgrades_body (steps_runAll tolerant steps)))).replies
  | .doWhile steps before cond => by
      rw [← Except.ok.inj hact]
      exact (upgrades_silently (upgrades_doWhile (upgrades_body (steps_runAll tolerant steps))
        (upgrades_condition (steps_runAll tolerant before) cond))).replies
termination_by structural a

/-- Where steps succeed on WebGL, they succeed on WebGL2. -/
theorem steps_runAll (tolerant : Bool) (steps : List (Bool × Action)) :
    StepsUpgrade (runAll tolerant steps) :=
  match steps with
  | [] => by
      intro s s' hs o t hrun _
      obtain ⟨ho, rfl⟩ := Prod.mk.inj hrun
      rw [← Except.ok.inj ho]
      exact ⟨rfl, [], s', rfl, .nil, hs⟩
  | (goesOn, a) :: rest => by
      have hrest := steps_runAll tolerant rest
      intro s s' hs o t hrun ho
      have hcongr : a.run tolerant s'.2 = a.run tolerant s.2 := Action.run_congr hs.names tolerant a
      have hstart : ∀ s : Builder × Notes, (runAll tolerant ((goesOn, a) :: rest)).runFrom s =
          runFrom (record (tolerant || goesOn) (a.run tolerant s.2) >>= fun result =>
            match result.2 with
            | some e => return ([result.1], some e)
            | none => do
              let (entries, failure) ← runAll tolerant rest
              return (result.1 :: entries, failure)) s := fun _ => rfl
      rw [hstart] at hrun
      obtain ⟨⟨entry, failure⟩, t₁, hrecord, hgoesOn⟩ := runFrom_bind_eq_ok_iff.mp hrun
      have hreplies : ∀ run, a.run tolerant s.2 = .ok run → RepliesUpgrade run :=
        fun run hact => replies_run tolerant s.2 a hact
      have hentry : entry.succeeds = true := by
        cases failure with
        | some e =>
            rw [← Except.ok.inj (Prod.mk.inj hgoesOn).1] at ho
            exact (Bool.and_eq_true_iff.mp ho).1
        | none =>
            obtain ⟨o', t₂, -, hend⟩ := runFrom_bind_eq_ok_iff.mp hgoesOn
            rw [← Except.ok.inj (Prod.mk.inj hend).1] at ho
            exact (Bool.and_eq_true_iff.mp ho).1
      obtain ⟨rfl, entry', t₁', hrecord', hentry', hmatches⟩ :=
        upgrades_record hreplies hs hrecord hentry
      obtain ⟨⟨entries, failure⟩, t₂, hall, hend⟩ := runFrom_bind_eq_ok_iff.mp hgoesOn
      obtain ⟨ho', rfl⟩ := Prod.mk.inj hend
      obtain rfl := Except.ok.inj ho'
      obtain ⟨rfl, entries', t', hall', hentries, hmatches'⟩ :=
        hrest t₁ t₁' hmatches _ t₂ hall (Bool.and_eq_true_iff.mp ho).2
      refine ⟨rfl, entry' :: entries', t', ?_, .cons hentry' hentries, hmatches'⟩
      rw [hstart, hcongr]
      refine runFrom_bind_eq_ok_iff.mpr ⟨_, t₁', hrecord', ?_⟩
      exact runFrom_bind_eq_ok_iff.mpr ⟨_, t', hall', rfl⟩
termination_by structural steps

/-- Branches run alike, by recursion on the list. -/
theorem steps_runBranches (tolerant : Bool) (branches : List (Operand × List (Bool × Action))) :
    ∀ branch ∈ runBranches tolerant branches, StepsUpgrade branch.2 :=
  match branches with
  | [] => fun _ hbranch => by cases hbranch
  | (cond, steps) :: rest => by
      have hsteps := steps_runAll tolerant steps
      have hrest := steps_runBranches tolerant rest
      exact List.forall_mem_cons.mpr ⟨hsteps, hrest⟩
termination_by structural branches

/-- A last branch runs alike. -/
theorem steps_runOptional (tolerant : Bool) (otherwise : Option (List (Bool × Action)))
    {last : Run Outcome} (hlast : runOptional tolerant otherwise = some last) : StepsUpgrade last :=
  match otherwise with
  | none => by cases hlast
  | some steps => by
      rw [← Option.some.inj hlast]
      exact steps_runAll tolerant steps
termination_by structural otherwise

end

/-! ## Sessions -/

/-- The builder that a script run on a new one leaves. -/
def builderAfter (config : Config) (tolerant : Bool) (steps : Script) : Builder :=
  ((runAll tolerant steps).runFrom (Builder.new config, {})).2.1

/-- A script in which every step succeeds on WebGL upgrades: every step succeeds on WebGL2, shows
the same expression with the same type, and builds a program with the same bind group layouts and
vertex attributes if it builds one. The builder is left with the same types, expressions and
variables. -/
theorem webGL_upgrades {config : Config} (hconfig : config.target = .webGL) (tolerant : Bool)
    (steps : Script) (h : entriesSucceed (transcript config tolerant steps) = true) :
    entriesSucceed (transcript config.upgrade tolerant steps) = true ∧
      List.Forall₂ Entry.Upgrades (transcript config tolerant steps)
        (transcript config.upgrade tolerant steps) ∧
      builderAfter config.upgrade tolerant steps =
        (builderAfter config tolerant steps).upgrade := by
  have htranscript : ∀ config o t,
      (runAll tolerant steps).runFrom (Builder.new config, {}) = (.ok o, t) →
        transcript config tolerant steps = o.1 ∧ builderAfter config tolerant steps = t.1 := by
    intro config o t hrun
    refine ⟨?_, by rw [builderAfter, hrun]⟩
    rw [transcript, show runAll tolerant steps (Builder.new config, {}) = (.ok o, t) from hrun]
  -- the two runs start from builders that differ in nothing but the target
  have hstart : Matches (Builder.new config, {}) (Builder.new config.upgrade, {}) :=
    ⟨Builder.isWebGL_new hconfig, rfl, rfl, rfl⟩
  obtain ⟨o, t, hrun⟩ := exists_runFrom_runAll tolerant steps (Builder.new config, {})
  obtain ⟨hentries, hbuilder⟩ := htranscript config o t hrun
  rw [hentries] at h ⊢
  obtain ⟨-, entries, t', hrun', hupgrades, hmatches⟩ :=
    steps_runAll tolerant steps _ _ hstart o t hrun h
  obtain ⟨hentries', hbuilder'⟩ := htranscript config.upgrade _ t' hrun'
  rw [hentries', hbuilder, hbuilder']
  exact ⟨entriesSucceed_of_forall₂ o.1 hupgrades h, hupgrades, hmatches.builder⟩

/-- A triangle of one color. -/
def triangle : Script :=
  [(false, .render false "triangle"
    [(false, .operation (.vertexInput "place" (.primitive (.vector .f32 4)) .position) none),
      (false, .main [(false, .operation (.assignBuiltin .position (.named "place")) none)])]
    [(false, .operation (.uniform "color" (.primitive (.vector .f32 4)) 0) none),
      (false, .operation (.output "target" (.primitive (.vector .f32 4))) none),
      (false, .main [(false, .operation (.assign "target" (.named "color")) none)])]
    [])]

/-- The triangle is built for the newer target as well. -/
theorem triangle_upgrades : entriesSucceed (transcript { target := .webGL } false triangle) = true ∧
    entriesSucceed (transcript { target := .webGL2 } false triangle) = true :=
  have h : entriesSucceed (transcript { target := .webGL } false triangle) = true := by
    decide +kernel
  ⟨h, (webGL_upgrades rfl false triangle h).1⟩

end Script

end WebShader
