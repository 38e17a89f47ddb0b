import WebShader.Proofs.ScriptSessions

/-!
# Scripts leave typed builders

Every script is a part of a session, whichever of its steps fail, so the builder it leaves follows
the typing rules and the names it has given stand for handles that carry the types of their
expressions.
-/

namespace WebShader

namespace Script

open Authoring Session

variable {α : Type} {s : Session} {n n' : Notes}

/-! ## Operations -/

/-- A run that gives no names. -/
def KeepsNames (act : Run α) : Prop := ∀ s, (act.runFrom s).2.2.names = s.2.names

section Names

@[grind ←]
theorem keepsNames_showExpr (e : Expr) : KeepsNames (showExpr e) := by
  intro s
  show (s.2.number e).2.names = s.2.names
  unfold Notes.number
  split <;> rfl

@[grind ←]
theorem keepsNames_pure (a : α) : KeepsNames (pure a) := fun _ => rfl

@[grind ←]
theorem keepsNames_lift_bind {β : Type} (act : Build α) {f : α → Run β}
    (h : ∀ a, KeepsNames (f a)) : KeepsNames ((act : Run α) >>= f) := by
  rintro ⟨b, n⟩
  rw [runFrom_bind, runFrom_lift]
  rcases b.run act with ⟨_ | a, b'⟩
  · rfl
  · exact h a (b', n)

@[grind ←]
theorem keepsNames_showResult (act : Build Expr) : KeepsNames (showResult act) :=
  keepsNames_lift_bind act keepsNames_showExpr

@[grind ←]
theorem keepsNames_showOption (find : Builder → Option Expr) : KeepsNames (showOption find) := by
  refine keepsNames_lift_bind _ fun b => ?_
  split
  · exact keepsNames_showExpr _
  · exact keepsNames_pure _

@[grind ←]
theorem keepsNames_quietly (act : Build Unit) : KeepsNames (quietly act) :=
  keepsNames_lift_bind act fun _ => keepsNames_pure _

@[grind ←]
theorem keepsNames_answer (f : Builder → Reply) : KeepsNames (answer f) :=
  keepsNames_lift_bind _ fun _ => keepsNames_pure _

@[grind ←]
theorem keepsNames_showType (shape : TypeShape) : KeepsNames (Operation.showType shape) :=
  keepsNames_lift_bind _ fun _ => keepsNames_answer _

/-- Only a reset changes the names of a script. -/
theorem keepsNames_operation {op : Operation} (hop : op ≠ .reset) {act : Run Reply}
    (h : op.action n = .ok act) : KeepsNames act := by
  cases op <;> simp only [Operation.action, bind_eq_ok_iff, pure, Except.pure, Except.ok.injEq] at h
  all_goals grind

end Names

section Operations

variable {L : Session → Session → Prop}

/-- The author is given the handle that an operation shows. -/
theorem plays_operation (hs : s.Reachable) (hn : s.KnowsNames n) (hn' : s.KnowsNames n')
    {op : Operation} (hop : op ≠ .reset) {act : Run Reply} (h : op.action n = .ok act)
    (hL : s.GoesOn L (act.runFrom (s.builder, n')).2.1
      (given (act.runFrom (s.builder, n')).1)) :
    Plays L act s n' fun reply s' => ∀ e ∈ given (.ok reply), e ∈ s'.known := by
  have htyped := hs.typed
  have hgives : Gives act s.resolved s.builder n' := gives_operation htyped.resolved
    (fun _ f hle => resolved_of_le hle f) (fun x hx => htyped.known _ (hn x hx)) hop h
  have hnests : s.builder.Nests (act.runFrom (s.builder, n')).2.1 :=
    follows_operation (R := Builder.Nests) h (s.builder, n')
  have hgrows := grows_after hgives.1 (given (act.runFrom (s.builder, n')).1)
  refine ⟨_, .operation hs hn hop h, hL hgives.1 hnests.stage_eq_none, rfl, ?_, ?_⟩
  · intro x hx
    rw [keepsNames_operation hop h] at hx
    exact hgrows.knowsNames hn' x hx
  · intro reply hreply e he
    rw [hreply]
    exact List.mem_append_left _ he

/-- A reset begins a new session, in which no name is known. -/
theorem plays_reset (hs : s.Reachable) (n : Notes) (hL : L s { builder := s.builder.reset }) :
    Plays L Script.reset s n fun reply s' => ∀ e ∈ given (.ok reply), e ∈ s'.known := by
  refine ⟨_, .reset hs, hL, rfl, ?_, ?_⟩
  · intro x hx
    cases hx
  · intro reply hreply e he
    rw [← Except.ok.inj hreply] at he
    cases he

end Operations

/-! ## Relations of sessions -/

/-- A relation of sessions that operations and what is noted around them go along, as do stages,
functions and loops whose bodies do. -/
class IsPlayed (L : Session → Session → Prop) : Prop extends IsStepped L where
  operation : ∀ {s : Session} {n n' : Notes} {op : Operation} {act : Run Reply}, s.Reachable →
    s.KnowsNames n → s.KnowsNames n' → op ≠ .reset → op.action n = .ok act →
    Plays L act s n' fun reply s' => ∀ e ∈ given (.ok reply), e ∈ s'.known
  reset : ∀ {s : Session}, s.Reachable → ∀ n,
    Plays L Script.reset s n fun reply s' => ∀ e ∈ given (.ok reply), e ∈ s'.known
  setLastError : ∀ report, PlaysAlong L (Build.setLastError report : Run Unit)
  remark : ∀ x, PlaysAlong L (Build.remark x : Run Unit)
  takeRemarks : PlaysAlong L (takeRemarks : Run (List Remark))
  render : ∀ label {vertex fragment : Run Unit}, PlaysAlong L vertex → PlaysAlong L fragment →
    PlaysAlong L (render label vertex fragment)
  compute : ∀ label {body : Run Unit}, PlaysAlong L body → PlaysAlong L (compute label body)
  func : ∀ {s : Session} {n : Notes}, s.Reachable → s.KnowsNames n → ∀ name params
    {body : List Expr → Run Unit}, (∀ es s n, s.Reachable → s.KnowsNames n →
      (∀ e ∈ es, e ∈ s.known) → Plays L (body es) s n fun _ _ => True) →
    Plays L (func name params body) s n fun _ _ => True
  main : ∀ {body : Run Unit}, PlaysAlong L body → PlaysAlong L (main body)
  forRange : ∀ {s : Session} {n : Notes} {first last : Value} {body : Expr → Run Unit},
    s.Reachable → s.KnowsNames n → ∀ counter, s.Knows first → s.Knows last →
    (∀ e s n, s.Reachable → s.KnowsNames n → e ∈ s.known →
      Plays L (body e) s n fun _ _ => True) →
    Plays L (forRange counter first last body) s n fun _ _ => True
  doWhile : ∀ {body : Run Unit} {cond : Run Value}, PlaysAlong L body →
    (∀ s n, s.Reachable → s.KnowsNames n → Plays L cond s n fun v s' => s'.Knows v) →
    PlaysAlong L (doWhile body cond)

/-- A relation of builders that holds along sessions is one of the sessions. -/
instance {R : Builder → Builder → Prop} [IsTraced R] : IsPlayed (Leads R) where
  operation hs hn hn' hop h := plays_operation hs hn hn' hop h
    (goesOn_leads (IsTraced.operation hs hn hop h) _)
  reset hs n := plays_reset hs n ⟨⟨fun _ => rfl, Or.inr rfl⟩, IsTraced.reset _⟩
  setLastError report _ _ hs hn := (plays_rearranges hs hn (Build.rearranges_setLastError report)
    (Build.follows_setLastError report)).mono fun _ _ _ _ => trivial
  remark x _ _ hs hn := (plays_rearranges hs hn (Build.rearranges_remark x)
    (Build.follows_remark x)).mono fun _ _ _ _ => trivial
  takeRemarks _ _ hs hn := (plays_rearranges hs hn Build.rearranges_takeRemarks
    Build.follows_takeRemarks).mono fun _ _ _ _ => trivial
  render := traces_render
  compute label _ := traces_compute label
  func := plays_func
  main := traces_main
  forRange hs hn counter := plays_forRange hs hn counter
  doWhile := traces_doWhile

section Played

variable {L : Session → Session → Prop} [IsPlayed L]

/-- The handle that a reply shows may be given a name. -/
theorem plays_named {act : Run Reply} (h : Plays L act s n fun reply s' =>
    ∀ e ∈ given (.ok reply), e ∈ s'.known) (name : Option String) :
    Plays L (named name act) s n fun _ _ => True := by
  refine h.bind fun reply s₁ n₁ hs₁ hn₁ _ hgiven => ?_
  dsimp only
  split
  · refine .modifyNotes_bind (.pure hs₁ ?_ trivial)
    exact hn₁.bind _ (hgiven _ List.mem_cons_self)
  · exact .pure hs₁ hn₁ trivial

/-! ## Bodies -/

section Bodies

variable {steps : Run Outcome}

/-- A body plays its steps. -/
theorem playsAlong_body (h : PlaysAlong L steps) : PlaysAlong L (body steps) := by
  intro s n hs hn
  refine .notes_bind ((h s n hs hn).bind fun (entries, failure) s₁ n₁ hs₁ hn₁ _ _ => ?_)
  refine .modifyNotes_bind ?_
  cases failure with
  | some e => exact .throw hs₁ hn₁ e
  | none => exact .pure hs₁ hn₁ trivial

/-- The parameters of a function get their names. -/
theorem plays_functionBody (h : PlaysAlong L steps) (names : List String) (es : List Expr)
    (s : Session) (n : Notes) (hs : s.Reachable) (hn : s.KnowsNames n)
    (hes : ∀ e ∈ es, e ∈ s.known) :
    Plays L (functionBody names steps es) s n fun _ _ => True := by
  have hbound : ∀ (ps : List (String × Expr)) (n : Notes), (∀ p ∈ ps, p.2 ∈ s.known) →
      s.KnowsNames n → s.KnowsNames (ps.foldl (fun n p => n.bind p.1 p.2) n) := by
    intro ps
    induction ps with
    | nil => exact fun n _ hn => hn
    | cons p ps ih =>
        intro n hps hn
        obtain ⟨hp, hrest⟩ := List.forall_mem_cons.mp hps
        exact ih _ hrest (hn.bind p.1 hp)
  refine .modifyNotes_bind (playsAlong_body h s _ hs (hbound _ n ?_ hn))
  exact fun p hp => hes p.2 (List.of_mem_zip hp).2

/-- The counter of a loop gets its name. -/
theorem plays_loopBody (h : PlaysAlong L steps) (counter : String) (e : Expr) (s : Session)
    (n : Notes) (hs : s.Reachable) (hn : s.KnowsNames n) (he : e ∈ s.known) :
    Plays L (loopBody counter steps e) s n fun _ _ => True :=
  .modifyNotes_bind (playsAlong_body h s _ hs (hn.bind counter he))

/-- A condition is looked up after the steps before it have run. -/
theorem plays_conditionOf (h : PlaysAlong L steps) (cond : Operand) (s : Session) (n : Notes)
    (hs : s.Reachable) (hn : s.KnowsNames n) :
    Plays L (condition steps cond) s n fun v s' => s'.Knows v := by
  refine (playsAlong_body h s n hs hn).bind fun _ s₁ n₁ hs₁ hn₁ _ _ => .notes_bind ?_
  split
  · exact .pure hs₁ hn₁ (holds_of_value hn₁ ‹_›)
  · exact .pure hs₁ hn₁ trivial

/-- The conditions of branches are known. -/
theorem knows_of_branchValues (hn : s.KnowsNames n) {branches : List (Operand × Run Outcome)}
    {values : List (Value × Run Outcome)} (h : branchValues n branches = .ok values) :
    ∀ branch ∈ values, s.Knows branch.1 := by
  induction branches generalizing values with
  | nil =>
      rw [← Except.ok.inj h]
      simp
  | cons first branches ih =>
      obtain ⟨value, hvalue, h⟩ := bind_eq_ok_iff.mp h
      obtain ⟨rest, hrest, h⟩ := bind_eq_ok_iff.mp h
      rw [← Except.ok.inj h]
      exact List.forall_mem_cons.mpr ⟨holds_of_value hn hvalue, ih hrest⟩

/-- What is said does not change what is played. -/
theorem plays_silently {act : Run Unit} (h : Plays L act s n fun _ _ => True) :
    Plays L (silently act) s n fun _ _ => True :=
  h.bind fun _ _ _ hs₁ hn₁ _ _ => .pure hs₁ hn₁ trivial

/-- A program may be reported instead of failing. -/
theorem playsAlong_program (isReported : Bool) (label : String) {build : Run α}
    (h : PlaysAlong L build) : PlaysAlong L (program isReported label build) := by
  intro s n hs hn
  unfold program
  split
  · refine (h s n hs hn).attempt.bind fun result s₁ n₁ hs₁ hn₁ _ _ => ?_
    cases result with
    | ok built =>
        refine (IsPlayed.setLastError none s₁ n₁ hs₁ hn₁).bind ?_
        exact fun _ s₂ n₂ hs₂ hn₂ _ _ => .pure hs₂ hn₂ trivial
    | error e =>
        cases e with
        | overflow => exact .throw hs₁ hn₁ _
        | _ =>
            refine (plays_reads hs₁ hn₁ (Build.Follows.get (R := Eq))).bind ?_
            rintro b s₂ n₂ hs₂ hn₂ - -
            refine (IsPlayed.setLastError _ s₂ n₂ hs₂ hn₂).bind ?_
            rintro _ s₃ n₃ hs₃ hn₃ - -
            refine (IsPlayed.remark _ s₃ n₃ hs₃ hn₃).bind ?_
            exact fun _ s₄ n₄ hs₄ hn₄ _ _ => .pure hs₄ hn₄ trivial
  · exact (h s n hs hn).bind fun _ s₁ n₁ hs₁ hn₁ _ _ => .pure hs₁ hn₁ trivial

/-- A step is recorded, failed or not. -/
theorem plays_record (goesOn : Bool) {act : Except String (Run Reply)} (hs : s.Reachable)
    (hn : s.KnowsNames n) (h : ∀ run, act = .ok run → ∀ n', s.KnowsNames n' →
      Plays L run s n' fun _ _ => True) :
    Plays L (record goesOn act) s n fun _ _ => True := by
  have hrest : ∀ (x : Reply × Option ShaderError) s n, s.Reachable → s.KnowsNames n →
      Plays L (do
        let blocks := (← notes).blocks
        return (⟨x.1, blocks, ← takeRemarks⟩, x.2) : Run (Entry × Option ShaderError)) s n
        fun _ _ => True := by
    intro x s n hs hn
    refine .notes_bind ((IsPlayed.takeRemarks s n hs hn).bind ?_)
    exact fun _ s₁ n₁ hs₁ hn₁ _ _ => .pure hs₁ hn₁ trivial
  refine .modifyNotes_bind ?_
  cases act with
  | error name => exact hrest (.unbound name, none) s _ hs hn
  | ok run =>
      refine (h run rfl { n with blocks := [] } hn).attempt.bind fun result s₁ n₁ hs₁ hn₁ _ _ => ?_
      cases result with
      | ok reply => exact hrest (reply, none) s₁ n₁ hs₁ hn₁
      | error e => exact hrest (.failed e, if goesOn then none else some e) s₁ n₁ hs₁ hn₁

end Bodies

/-! ## Branches -/

section Branches

variable (hs : s.Reachable) (hn : s.KnowsNames n)

include hs hn

/-- The conditions of further branches are known while the stage is there. -/
theorem plays_branches {branches : List (Value × Run Outcome)}
    (hbranches : ∀ branch ∈ branches, s.Knows branch.1 ∧ PlaysAlong L (body branch.2)) :
    Plays L (branches.forM fun (cond, steps) => elseIf cond (body steps)) s n
      fun _ _ => True := by
  induction branches generalizing s n with
  | nil => exact .pure hs hn trivial
  | cons branch branches ih =>
      obtain ⟨hbranch, hrest⟩ := List.forall_mem_cons.mp hbranches
      have helse := plays_elseIf hs hn hbranch.1 hbranch.2
      refine helse.bind fun _ s₁ n₁ hs₁ hn₁ _ hgrows => ?_
      exact ih hs₁ hn₁ fun b hb => ⟨hgrows.knows (hrest b hb).1, (hrest b hb).2⟩

/-- A conditional plays its bodies in order. -/
theorem plays_conditional {cond : Value} {steps : Run Outcome}
    {branches : List (Value × Run Outcome)} {otherwise : Option (Run Outcome)}
    (hcond : s.Knows cond) (hsteps : PlaysAlong L (body steps))
    (hbranches : ∀ branch ∈ branches, s.Knows branch.1 ∧ PlaysAlong L (body branch.2))
    (hotherwise : ∀ last, otherwise = some last →
      PlaysAlong L (Authoring.otherwise (body last))) :
    Plays L (conditional cond steps branches otherwise) s n fun _ _ => True := by
  refine (plays_ifThen hs hn hcond hsteps).bind fun _ s₁ n₁ hs₁ hn₁ _ hgrows => ?_
  have hbranches : ∀ branch ∈ branches, s₁.Knows branch.1 ∧ PlaysAlong L (body branch.2) :=
    fun b hb => ⟨hgrows.knows (hbranches b hb).1, (hbranches b hb).2⟩
  refine (plays_branches hs₁ hn₁ hbranches).bind fun _ s₂ n₂ hs₂ hn₂ _ _ => ?_
  cases otherwise with
  | none => exact .pure hs₂ hn₂ trivial
  | some last => exact hotherwise last rfl s₂ n₂ hs₂ hn₂

end Branches

end Played

/-! ## Scripts -/

mutual

/-- A step is played, by recursion on it. -/
theorem plays_run {L : Session → Session → Prop} [IsPlayed L] (tolerant : Bool) (n : Notes)
    (a : Action) {act : Run Reply} (hact : a.run tolerant n = .ok act) (s : Session) (n' : Notes)
    (hs : s.Reachable) (hn : s.KnowsNames n) (hn' : s.KnowsNames n') :
    Plays L act s n' fun _ _ => True :=
  match a with
  | .operation op name => by
      rw [Action.run] at hact
      cases hop : op.action n with
      | error e =>
          rw [hop] at hact
          cases hact
      | ok act' =>
          rw [hop] at hact
          rw [← Except.ok.inj hact]
          by_cases hreset : op = .reset
          · subst hreset
            rw [← Except.ok.inj hop]
            exact plays_named (IsPlayed.reset hs n') _
          · exact plays_named (IsPlayed.operation hs hn hn' hreset hop) _
  | .render isReported label vertex fragment queries => by
      rw [← Except.ok.inj hact]
      have hv := playsAlong_body (L := L) (playsAlong_runAll tolerant vertex)
      have hf := playsAlong_body (L := L) (playsAlong_runAll tolerant fragment)
      have hprogram := playsAlong_program isReported label (IsPlayed.render label hv hf)
      exact (hprogram s n' hs hn').bind fun _ s₁ n₁ hs₁ hn₁ _ _ => .pure hs₁ hn₁ trivial
  | .compute isReported label steps queries => by
      rw [← Except.ok.inj hact]
      have hsteps := playsAlong_body (L := L) (playsAlong_runAll tolerant steps)
      have hprogram := playsAlong_program isReported label (IsPlayed.compute label hsteps)
      exact (hprogram s n' hs hn').bind fun _ s₁ n₁ hs₁ hn₁ _ _ => .pure hs₁ hn₁ trivial
  | .func name params steps => by
      rw [← Except.ok.inj hact]
      have hsteps := playsAlong_runAll (L := L) tolerant steps
      have hbody := plays_functionBody hsteps (params.map (·.1))
      have hfunc := IsPlayed.func hs hn' name params hbody
      exact hfunc.bind fun _ s₁ n₁ hs₁ hn₁ _ _ => .pure hs₁ hn₁ trivial
  | .main steps => by
      rw [← Except.ok.inj hact]
      have hsteps := playsAlong_body (L := L) (playsAlong_runAll tolerant steps)
      exact plays_silently (IsPlayed.main hsteps s n' hs hn')
  | .scope steps => by
      rw [← Except.ok.inj hact]
      have hsteps := playsAlong_body (L := L) (playsAlong_runAll tolerant steps)
      exact plays_silently (playsAlong_scope hsteps s n' hs hn')
  | .conditional cond steps branches otherwise => by
      obtain ⟨c, hc, hact⟩ := bind_eq_ok_iff.mp hact
      obtain ⟨values, hvalues, hact⟩ := bind_eq_ok_iff.mp hact
      rw [← Except.ok.inj hact]
      have hsteps := playsAlong_body (L := L) (playsAlong_runAll tolerant steps)
      have hbranches := playsAlong_runBranches (L := L) tolerant branches
      refine plays_silently (plays_conditional hs hn' (holds_of_value hn hc) hsteps ?_ ?_)
      · intro branch hbranch
        obtain ⟨cond', hmem⟩ := mem_of_branchValues hvalues hbranch
        have hknows := knows_of_branchValues hn hvalues branch hbranch
        exact ⟨hknows, playsAlong_body (hbranches _ hmem)⟩
      · exact fun last hlast => playsAlong_otherwise
          (playsAlong_body (playsAlong_runOptional tolerant otherwise hlast))
  | .forRange counter first last steps => by
      obtain ⟨v, hv, hact⟩ := bind_eq_ok_iff.mp hact
      obtain ⟨w, hw, hact⟩ := bind_eq_ok_iff.mp hact
      rw [← Except.ok.inj hact]
      have hsteps := playsAlong_runAll (L := L) tolerant steps
      exact plays_silently (IsPlayed.forRange hs hn' counter (holds_of_value hn hv)
        (holds_of_value hn hw) (plays_loopBody hsteps counter))
  | .whileDo cond steps => by
      obtain ⟨c, hc, hact⟩ := bind_eq_ok_iff.mp hact
      rw [← Except.ok.inj hact]
      have hsteps := playsAlong_body (L := L) (playsAlong_runAll tolerant steps)
      exact plays_silently (plays_whileDo hs hn' (holds_of_value hn hc) hsteps)
  | .doWhile steps before cond => by
      rw [← Except.ok.inj hact]
      have hsteps := playsAlong_body (L := L) (playsAlong_runAll tolerant steps)
      have hcond := plays_conditionOf (playsAlong_runAll (L := L) tolerant before) cond
      exact plays_silently (IsPlayed.doWhile hsteps hcond s n' hs hn')
termination_by structural a

/-- Whatever steps run, they are a part of every session that knows their names, and go along a
relation that operations and constructs go along. -/
theorem playsAlong_runAll {L : Session → Session → Prop} [IsPlayed L] (tolerant : Bool)
    (steps : List (Bool × Action)) :
    PlaysAlong L (runAll tolerant steps) :=
  match steps with
  | [] => fun _ _ hs hn => .pure hs hn trivial
  | (goesOn, a) :: rest => by
      have hrest := playsAlong_runAll (L := L) tolerant rest
      intro s n hs hn
      refine .notes_bind ((plays_record (tolerant || goesOn) hs hn fun act hact n' hn' =>
        plays_run tolerant n a hact s n' hs hn hn').bind ?_)
      rintro ⟨entry, failure⟩ s₁ n₁ hs₁ hn₁ - -
      cases failure with
      | some e => exact .pure hs₁ hn₁ trivial
      | none => exact (hrest s₁ n₁ hs₁ hn₁).bind fun _ s₂ n₂ hs₂ hn₂ _ _ => .pure hs₂ hn₂ trivial
termination_by structural steps

/-- Branches are played, by recursion on the list. -/
theorem playsAlong_runBranches {L : Session → Session → Prop} [IsPlayed L] (tolerant : Bool)
    (branches : List (Operand × List (Bool × Action))) :
    ∀ branch ∈ runBranches tolerant branches, PlaysAlong L branch.2 :=
  match branches with
  | [] => fun _ hbranch => by cases hbranch
  | (cond, steps) :: rest => by
      have hsteps := playsAlong_runAll (L := L) tolerant steps
      have hrest := playsAlong_runBranches (L := L) tolerant rest
      exact List.forall_mem_cons.mpr ⟨hsteps, hrest⟩
termination_by structural branches

/-- A last branch is played. -/
theorem playsAlong_runOptional {L : Session → Session → Prop} [IsPlayed L] (tolerant : Bool)
    (otherwise : Option (List (Bool × Action))) {last : Run Outcome}
    (hlast : runOptional tolerant otherwise = some last) : PlaysAlong L last :=
  match otherwise with
  | none => by cases hlast
  | some steps => by
      rw [← Option.some.inj hlast]
      exact playsAlong_runAll tolerant steps
termination_by structural otherwise

end

section Traces

variable {R : Builder → Builder → Prop} [IsTraced R]

/-- A body traces its steps. -/
theorem traces_body {steps : Run Outcome} (h : Traces R steps) : Traces R (body steps) :=
  playsAlong_body h

/-- Whatever steps run, they keep a relation of builders that holds along sessions. -/
theorem traces_runAll (tolerant : Bool) (steps : List (Bool × Action)) :
    Traces R (runAll tolerant steps) := playsAlong_runAll tolerant steps

end Traces

/-- Whatever steps run, they are a part of every session. -/
theorem simulates_runAll (tolerant : Bool) (steps : List (Bool × Action)) :
    Simulates (runAll tolerant steps) := traces_runAll tolerant steps

/-- In every reachable session the builder follows the typing rules, calls those of the functions
they have been resolved to, and every handle that its author knows carries the type of its
expression. Every script, run with names that a reachable session knows, leaves the builder of a
reachable session that knows the names it leaves, whichever of its steps fail. -/
theorem sessions_follow_rules :
    (∀ s : Session, s.Reachable →
      s.builder.Typed s.callees ∧ ∀ e ∈ s.known, s.builder.Carries e) ∧
    ∀ (s : Session) (n : Notes), s.Reachable → s.KnowsNames n →
      ∀ (tolerant : Bool) (steps : Script), ∃ s' : Session, s'.Reachable ∧
        s'.builder = (runAll tolerant steps (s.builder, n)).2.1 ∧
        s'.KnowsNames (runAll tolerant steps (s.builder, n)).2.2 := by
  refine ⟨fun s hs => ⟨hs.typed.builder, hs.typed.known⟩, fun s n hs hn tolerant steps => ?_⟩
  obtain ⟨s', hs', -, hb, hn', -⟩ := simulates_runAll tolerant steps s n hs hn
  exact ⟨s', hs', hb, hn'⟩

/-- A call of a function of one's own, after an operation that fails. -/
def squares : Script :=
  [(false, .compute true "squares"
    [(false, .func "square" [("x", .primitive (.ofScalar .i32))]
        [(false, .operation (.binary .mul (.named "x") (.named "x")) (some "product")),
          (false, .operation (.returnValue (.named "product")) none)]),
      (false, .main
        [(false, .operation (.declareLocal "side" (.host (.int 3))) none),
          (true, .operation (.binary .add (.named "side") (.host (.bool true))) none),
          (false, .operation (.call "square" [.named "side"]) (some "area"))])]
    [])]

/-- The expressions of a session with squares and calls follow the rules. -/
theorem squares_follow_rules : ∃ s : Session, s.Reachable ∧
    s.builder.node? ⟨1⟩ = some ⟨⟨0⟩, .binary .mul ⟨0⟩ ⟨0⟩⟩ ∧
    s.builder.node? ⟨5⟩ = some ⟨⟨0⟩, .call ⟨0⟩ [⟨3⟩]⟩ ∧
    s.builder.Typed s.callees ∧ ∀ e ∈ s.known, s.builder.Carries e := by
  have hnew : Session.Reachable { builder := .new { target := .webGPU } } := .new _
  obtain ⟨s, hs, hb, -⟩ := sessions_follow_rules.2 _ {} hnew (by simp [KnowsNames]) false squares
  refine ⟨s, hs, ?_, ?_, sessions_follow_rules.1 s hs⟩
  · rw [hb]
    decide +kernel
  · rw [hb]
    decide +kernel

end Script

end WebShader
