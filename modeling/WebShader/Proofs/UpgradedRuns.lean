import WebShader.Proofs.BindingSteps
import WebShader.Proofs.Scripts
import WebShader.Proofs.UpgradedOperations
import WebShader.Proofs.UpgradedSources

/-!
# Runs upgrade

A run in which every step succeeds on WebGL succeeds step by step on WebGL2: each step shows the
same expression with the same type, and each program that is built has the same bind group layouts
and the same vertex attributes.
-/

namespace WebShader

/-! ## Bindings -/

namespace Binding

/-- A declaration is bound alike. -/
theorem bind_upgrade (all : List Shared) (p : Plan) (s : Shared) :
    bind .webGL2 all p s = bind .webGL all p s := by
  unfold bind bindTexture
  simp

/-- Declarations are bound alike. -/
theorem bindAll_upgrade (all rest : List Shared) (p : Plan) :
    bindAll .webGL2 all rest p = bindAll .webGL all rest p := by
  induction rest generalizing p with
  | nil => rfl
  | cons s rest ih => simp only [bindAll, bind_upgrade, ih]

/-- A program has the same bindings on WebGL and WebGL2. -/
theorem plan_upgrade (vars : Array Variable) (stages : List BuiltStage) :
    plan .webGL2 vars (stages.map BuiltStage.upgrade) = plan .webGL vars stages := by
  have hdeclarations : declarations vars (stages.map BuiltStage.upgrade) =
      declarations vars stages := by
    rw [declarations, declarations, List.flatMap_map]
    rfl
  simp only [plan, hdeclarations, bindAll_upgrade]

end Binding

/-! ## Transcripts -/

/-- A program for WebGL2 with the layouts and attributes of another. -/
structure RenderProgram.Upgrades (p p' : RenderProgram) : Prop where
  label : p'.label = p.label
  target : p'.target = .webGL2
  layouts : p'.layouts = p.layouts
  attributes : p'.attributes = p.attributes
  generatedSamplers : p'.generatedSamplers = p.generatedSamplers

namespace Script

mutual

/-- Whether a step and all steps in its bodies have succeeded. -/
def Entry.succeeds : Entry → Bool
  | ⟨reply, blocks, _⟩ => reply.succeeds && blocksSucceed blocks
termination_by structural e => e

/-- Whether all steps of some bodies have succeeded. -/
def blocksSucceed : List (List Entry) → Bool
  | [] => true
  | block :: rest => entriesSucceed block && blocksSucceed rest
termination_by structural blocks => blocks

/-- Whether all steps of a list have succeeded. -/
def entriesSucceed : List Entry → Bool
  | [] => true
  | entry :: rest => entry.succeeds && entriesSucceed rest
termination_by structural entries => entries

end

/-- What a step shows on WebGL2: what it shows on WebGL, save for the program it builds and the
options of the builder. -/
inductive Reply.Upgrades : Reply → Reply → Prop
  | same (r : Reply) : Reply.Upgrades r r
  | render {p p' : RenderProgram} (found : List Found) (h : p.Upgrades p') :
      Reply.Upgrades (.render (some (p, found))) (.render (some (p', found)))
  | builder (config : Config) (types : Nat) :
      Reply.Upgrades (.builder config types) (.builder config.upgrade types)

/-- What a step and its bodies show on WebGL2. Only the remarks differ otherwise. -/
inductive Entry.Upgrades : Entry → Entry → Prop
  | mk {r r' : Reply} {blocks blocks' : List (List Entry)} (log log' : List Remark)
      (hreply : r.Upgrades r') (hblocks : List.Forall₂
        (List.Forall₂ Entry.Upgrades) blocks blocks') :
      Entry.Upgrades ⟨r, blocks, log⟩ ⟨r', blocks', log'⟩

/-- A reply that succeeds is upgraded to one. -/
theorem Reply.Upgrades.succeeds {r r' : Reply} (h : r.Upgrades r') (hr : r.succeeds = true) :
    r'.succeeds = true := by
  cases h with
  | same => exact hr
  | render => rfl
  | builder => rfl

mutual

/-- An entry that succeeds is upgraded to one. -/
theorem Entry.Upgrades.succeeds (e : Entry) {e' : Entry} (h : e.Upgrades e')
    (he : e.succeeds = true) : e'.succeeds = true :=
  match e, e', h with
  | ⟨_, blocks, _⟩, _, .mk _ _ hreply hblocks => by
      rw [Entry.succeeds] at he ⊢
      obtain ⟨hr, hall⟩ := Bool.and_eq_true_iff.mp he
      rw [hreply.succeeds hr, blocksSucceed_of_forall₂ blocks hblocks hall]
      rfl
termination_by structural e

/-- Bodies that succeed are upgraded to such, by recursion on the list. -/
theorem blocksSucceed_of_forall₂ (blocks : List (List Entry)) {blocks' : List (List Entry)}
    (h : List.Forall₂ (List.Forall₂ Entry.Upgrades) blocks blocks')
    (hall : blocksSucceed blocks = true) : blocksSucceed blocks' = true :=
  match blocks, blocks', h with
  | [], _, .nil => rfl
  | block :: rest, _, .cons hblock hrest => by
      rw [blocksSucceed] at hall ⊢
      obtain ⟨hfirst, hall⟩ := Bool.and_eq_true_iff.mp hall
      rw [entriesSucceed_of_forall₂ block hblock hfirst, blocksSucceed_of_forall₂ rest hrest hall]
      rfl
termination_by structural blocks

/-- Steps that succeed are upgraded to such, by recursion on the list. -/
theorem entriesSucceed_of_forall₂ (entries : List Entry) {entries' : List Entry}
    (h : List.Forall₂ Entry.Upgrades entries entries') (hall : entriesSucceed entries = true) :
    entriesSucceed entries' = true :=
  match entries, entries', h with
  | [], _, .nil => rfl
  | e :: rest, _, .cons he hrest => by
      rw [entriesSucceed] at hall ⊢
      obtain ⟨hfirst, hall⟩ := Bool.and_eq_true_iff.mp hall
      rw [he.succeeds e hfirst, entriesSucceed_of_forall₂ rest hrest hall]
      rfl
termination_by structural entries

end

/-- Bodies succeed if those of both lists do. -/
theorem blocksSucceed_append (blocks more : List (List Entry)) :
    blocksSucceed (blocks ++ more) = (blocksSucceed blocks && blocksSucceed more) := by
  induction blocks with
  | nil => rfl
  | cons block rest ih => rw [List.cons_append, blocksSucceed, blocksSucceed, ih, Bool.and_assoc]

/-! ## Runs -/

open Authoring

/-- A state of a run on WebGL and its counterpart on WebGL2, whose notes have the same names and
numbers. -/
structure Matches (s s' : Builder × Notes) : Prop where
  isWebGL : s.1.IsWebGL
  builder : s'.1 = s.1.upgrade
  names : s'.2.names = s.2.names
  shown : s'.2.shown = s.2.shown

/-- A state and its counterpart, in which the bodies have run alike so far. -/
structure Mirrors (s s' : Builder × Notes) : Prop extends Matches s s' where
  blocks : List.Forall₂ (List.Forall₂ Entry.Upgrades) s.2.blocks s'.2.blocks

/-- A run that succeeds adds to the transcripts of bodies. -/
def Records {α : Type} (act : Run α) : Prop :=
  ∀ s a t, act.runFrom s = (.ok a, t) → s.2.blocks <+: t.2.blocks

/-- Where a run succeeds, and all steps in the bodies it runs do, another run succeeds from the
counterpart. -/
def UpgradesFrom {α : Type} (s s' : Builder × Notes) (Q : α → α → Prop) (act act' : Run α) : Prop :=
  ∀ a t, act.runFrom s = (.ok a, t) → blocksSucceed t.2.blocks = true →
    ∃ a' t', act'.runFrom s' = (.ok a', t') ∧ Q a a' ∧ Mirrors t t'

/-- A run on WebGL and one that succeeds in its stead on WebGL2. -/
structure Upgrades {α : Type} (Q : α → α → Prop) (act act' : Run α) : Prop where
  records : Records act
  upgrade : ∀ s s', Mirrors s s' → UpgradesFrom s s' Q act act'

section Rules

variable {α β : Type} {Q : α → α → Prop} {P : β → β → Prop}

/-! ### Transcripts grow -/

namespace Records

/-- A run whose bodies succeed has started from such. -/
theorem blocksSucceed {act : Run α} (h : Records act) {s t : Builder × Notes} {a : α}
    (hrun : act.runFrom s = (.ok a, t)) (ht : blocksSucceed t.2.blocks = true) :
    Script.blocksSucceed s.2.blocks = true := by
  obtain ⟨more, hmore⟩ := h s a t hrun
  rw [← hmore, blocksSucceed_append] at ht
  exact (Bool.and_eq_true_iff.mp ht).1

/-- Nothing is recorded. -/
protected theorem pure (a : α) : Records (pure a : Run α) := by
  intro s b t h
  obtain ⟨-, rfl⟩ := Prod.mk.inj h
  exact List.prefix_refl _

/-- An error records nothing. -/
theorem throw (e : ShaderError) : Records (throw e : Run α) := by
  intro s b t h
  cases (Prod.mk.inj h).1

/-- An operation of the builder records nothing. -/
theorem lift (act : Build α) : Records (act : Run α) := by
  rintro ⟨b, n⟩ a t h
  rw [runFrom_lift] at h
  obtain ⟨-, rfl⟩ := Prod.mk.inj h
  exact List.prefix_refl _

/-- One after the other. -/
theorem bind {act : Run α} {f : α → Run β} (h : Records act) (hf : ∀ a, Records (f a)) :
    Records (act >>= f) := by
  intro s b t hrun
  obtain ⟨a, s₁, hact, hrest⟩ := runFrom_bind_eq_ok_iff.mp hrun
  exact (h s a s₁ hact).trans (hf a s₁ b t hrest)

/-- The notes are looked at. -/
theorem notes : Records notes := by
  intro s n t h
  obtain ⟨-, rfl⟩ := Prod.mk.inj h
  exact List.prefix_refl _

/-- A change of the notes that only records. -/
theorem modifyNotes {f : Notes → Notes} (hf : ∀ n, n.blocks <+: (f n).blocks) :
    Records (modifyNotes f) := by
  intro s a t h
  obtain ⟨-, rfl⟩ := Prod.mk.inj h
  exact hf _

/-- A check records nothing. -/
theorem except (x : Except ShaderError α) : Records (x : Run α) := by
  intro s a t h
  rw [runFrom_except] at h
  obtain ⟨-, rfl⟩ := Prod.mk.inj h
  exact List.prefix_refl _

/-- What follows an attempt, if only a successful one goes on. -/
theorem attempt_bind {act : Run α} {f : Except ShaderError α → Run β} (h : Records act)
    (hok : ∀ a, Records (f (.ok a))) (herror : ∀ e s b t, (f (.error e)).runFrom s ≠ (.ok b, t)) :
    Records (attempt act >>= f) := by
  intro s b t hrun
  obtain ⟨result, s₁, hact, hrest⟩ := runFrom_bind_eq_ok_iff.mp hrun
  rw [runFrom_attempt] at hact
  obtain ⟨hresult, rfl⟩ := Prod.mk.inj hact
  rcases hrun' : act.runFrom s with ⟨e | a, s₁⟩
  · rw [hrun'] at hresult
    rw [← Except.ok.inj hresult] at hrest
    exact absurd hrest (herror _ _ _ _)
  · rw [hrun'] at hresult hrest
    rw [← Except.ok.inj hresult] at hrest
    exact (h s a s₁ hrun').trans (hok a s₁ b t hrest)

end Records

/-! ### Sequences -/

section Sequences

variable {act act' : Run α} {f f' : α → Run β} {s s' : Builder × Notes}

/-- Results that correspond are given. -/
theorem UpgradesFrom.pure (hs : Mirrors s s') {a a' : α} (h : Q a a') :
    UpgradesFrom s s' Q (pure a) (pure a') := by
  intro a₁ t hrun _
  obtain ⟨ha, rfl⟩ := Prod.mk.inj hrun
  exact ⟨a', s', rfl, Except.ok.inj ha ▸ h, hs⟩

/-- What fails asks nothing of the newer target. -/
theorem UpgradesFrom.throw (e : ShaderError) : UpgradesFrom s s' Q (throw e) act' := by
  intro a t hrun
  cases (Prod.mk.inj hrun).1

/-- One after the other. -/
theorem UpgradesFrom.bind (h : UpgradesFrom s s' Q act act') (hrecords : ∀ a, Records (f a))
    (hf : ∀ a a' t t', act.runFrom s = (.ok a, t) → Q a a' → Mirrors t t' →
      UpgradesFrom t t' P (f a) (f' a')) : UpgradesFrom s s' P (act >>= f) (act' >>= f') := by
  intro b t hrun ht
  obtain ⟨a, t₁, hact, hrest⟩ := runFrom_bind_eq_ok_iff.mp hrun
  obtain ⟨a', t₁', hact', hQ, hmirrors⟩ := h a t₁ hact ((hrecords a).blocksSucceed hrest ht)
  obtain ⟨b', t', hrest', hP, hend⟩ := hf a a' t₁ t₁' hact hQ hmirrors b t hrest ht
  exact ⟨b', t', runFrom_bind_eq_ok_iff.mpr ⟨a', t₁', hact', hrest'⟩, hP, hend⟩

/-- An operation of the builder, whose results may differ. -/
theorem UpgradesFrom.lift {act act' : Build α} (hs : Mirrors s s')
    (h : ∀ a b, s.1.run act = (.ok a, b) →
      ∃ a', s.1.upgrade.run act' = (.ok a', b.upgrade) ∧ Q a a' ∧ b.IsWebGL) :
    UpgradesFrom s s' Q (act : Run α) (act' : Run α) := by
  obtain ⟨b, n⟩ := s
  obtain ⟨b', n'⟩ := s'
  obtain rfl : b' = b.upgrade := hs.builder
  rintro a ⟨b₁, n₁⟩ hrun -
  rw [runFrom_lift] at hrun
  obtain ⟨hact, hend⟩ := Prod.mk.inj hrun
  obtain ⟨rfl, rfl⟩ := Prod.mk.inj hend
  obtain ⟨a', hact', hQ, hb⟩ := h a _ (Prod.ext hact rfl)
  refine ⟨a', (_, n'), ?_, hQ, { hs with isWebGL := hb, builder := rfl }⟩
  rw [runFrom_lift, hact']
  rfl

namespace Upgrades

/-- Results that correspond are given. -/
protected theorem pure {a a' : α} (h : Q a a') : Upgrades Q (pure a) (pure a') :=
  ⟨.pure a, fun _ _ hs => .pure hs h⟩

/-- What fails asks nothing of the newer target. -/
theorem throw (e : ShaderError) : Upgrades Q (throw e) act' := ⟨.throw e, fun _ _ _ => .throw e⟩

/-- A sequence whose first part may give different results. -/
theorem bind_of (h : Upgrades Q act act') (hQ : ∀ a, ∃ a', Q a a')
    (hf : ∀ a a', Q a a' → Upgrades P (f a) (f' a')) : Upgrades P (act >>= f) (act' >>= f') := by
  have hrecords : ∀ a, Records (f a) := fun a => by
    obtain ⟨a', ha⟩ := hQ a
    exact (hf a a' ha).records
  exact ⟨.bind h.records hrecords, fun s s' hs => .bind (h.upgrade s s' hs) hrecords
    fun a a' t t' _ ha ht => (hf a a' ha).upgrade t t' ht⟩

/-- One after the other. -/
theorem bind (h : Upgrades Eq act act') (hf : ∀ a, Upgrades P (f a) (f' a)) :
    Upgrades P (act >>= f) (act' >>= f') :=
  h.bind_of (fun a => ⟨a, rfl⟩) fun a _ ha => ha ▸ hf a

/-- An operation of the builder is upgraded where a script runs it. -/
theorem lift {act act' : Build α} (h : ∀ b : Builder, b.IsWebGL → Build.UpgradesFrom b act act') :
    Upgrades Eq (act : Run α) (act' : Run α) := by
  refine ⟨.lift act, fun s _ hs => .lift hs fun a b hrun => ?_⟩
  obtain ⟨hact, hb⟩ := h s.1 hs.isWebGL a b hrun
  exact ⟨a, hact, rfl, hb⟩

/-- What follows a look at the builder. -/
theorem current_bind {f f' : Builder → Run β} (hrecords : ∀ b, Records (f b))
    (hf : ∀ b : Builder, b.IsWebGL → ∀ s s', Mirrors s s' →
      UpgradesFrom s s' P (f b) (f' b.upgrade)) :
    Upgrades P ((Build.current : Run Builder) >>= f) ((Build.current : Run Builder) >>= f') := by
  refine ⟨.bind (.lift _) hrecords, fun s s' hs b t hrun ht => ?_⟩
  have hbuilder : s'.1 = s.1.upgrade := hs.builder
  obtain ⟨b', t', hrun', hend⟩ := hf s.1 hs.isWebGL s s' hs b t hrun ht
  refine ⟨b', t', ?_, hend⟩
  rw [← hbuilder] at hrun'
  exact hrun'

/-- A value that no builder is asked for, where another can stand in its stead. -/
theorem except {x x' : Except ShaderError α} (h : ∀ a, x = .ok a → ∃ a', x' = .ok a' ∧ Q a a') :
    Upgrades Q (x : Run α) (x' : Run α) := by
  refine ⟨.except x, fun s s' hs a t hrun _ => ?_⟩
  rw [runFrom_except] at hrun
  obtain ⟨hx, rfl⟩ := Prod.mk.inj hrun
  obtain ⟨a', hx', ha⟩ := h a hx
  exact ⟨a', s', by rw [runFrom_except, hx'], ha, hs⟩

/-- Both branches are upgraded. -/
theorem ite {c : Prop} [Decidable c] {other other' : Run α} (h : Upgrades Q act act')
    (h' : Upgrades Q other other') :
    Upgrades Q (if c then act else other) (if c then act' else other') := by
  split
  · exact h
  · exact h'

/-- What follows a look at parts of the stage other than the extensions. -/
theorem readStage_bind {f f' : OpenStage → Run β} (hsame : ∀ s : OpenStage, f' s.upgrade = f' s)
    (hf : ∀ s, Upgrades P (f s) (f' s)) :
    Upgrades P ((Build.stage : Run OpenStage) >>= f) ((Build.stage : Run OpenStage) >>= f') := by
  have hstage : Upgrades (fun s s' => s' = s.upgrade) (Build.stage : Run OpenStage)
      (Build.stage : Run OpenStage) := by
    refine ⟨.lift _, fun s s' hs => .lift hs fun st b hrun => ?_⟩
    cases hst : s.1.stage with
    | none =>
        rw [Builder.run_stage_of_none hst] at hrun
        cases (Prod.mk.inj hrun).1
    | some st' =>
        rw [Builder.run_stage_of_some hst] at hrun
        obtain ⟨hst', rfl⟩ := Prod.mk.inj hrun
        have hupgrade : s.1.upgrade.stage = some st'.upgrade := by
          rw [Builder.upgrade_stage, hst]
          rfl
        exact ⟨_, Builder.run_stage_of_some hupgrade, Except.ok.inj hst' ▸ rfl, hs.isWebGL⟩
  refine hstage.bind_of (fun s => ⟨_, rfl⟩) fun s s' hs => ?_
  rw [hs, hsame]
  exact hf s

/-- What follows a look at the notes. -/
theorem notes_bind {f f' : Notes → Run β} (hf : ∀ n n' : Notes, n'.names = n.names →
    n'.shown = n.shown → Upgrades P (f n) (f' n')) : Upgrades P (notes >>= f) (notes >>= f') := by
  refine ⟨.bind .notes fun n => (hf n n rfl rfl).records, fun s s' hs => ?_⟩
  exact (hf s.2 s'.2 hs.names hs.shown).upgrade s s' hs

/-- A change of the notes that leaves the transcripts alone. -/
theorem modifyNotes {g g' : Notes → Notes} (hblocks : ∀ n, (g n).blocks = n.blocks)
    (hblocks' : ∀ n, (g' n).blocks = n.blocks)
    (hg : ∀ n n' : Notes, n'.names = n.names → n'.shown = n.shown →
      (g' n').names = (g n).names ∧ (g' n').shown = (g n).shown) :
    Upgrades Eq (modifyNotes g) (modifyNotes g') := by
  refine ⟨.modifyNotes fun n => hblocks n ▸ List.prefix_refl _, fun s s' hs => ?_⟩
  rintro ⟨⟩ t hrun -
  obtain ⟨-, rfl⟩ := Prod.mk.inj hrun
  obtain ⟨hnames, hshown⟩ := hg s.2 s'.2 hs.names hs.shown
  refine ⟨(), _, rfl, rfl, ⟨hs.isWebGL, hs.builder, hnames, hshown⟩, ?_⟩
  rw [hblocks, hblocks']
  exact hs.blocks

/-- What follows an attempt, if only a successful one goes on. -/
theorem attempt_bind {f f' : Except ShaderError α → Run β} (h : Upgrades Q act act')
    (hQ : ∀ a, ∃ a', Q a a') (hok : ∀ a a', Q a a' → Upgrades P (f (.ok a)) (f' (.ok a')))
    (herror : ∀ e s b t, (f (.error e)).runFrom s ≠ (.ok b, t)) :
    Upgrades P (attempt act >>= f) (attempt act' >>= f') := by
  have hrecords : ∀ a, Records (f (.ok a)) := fun a => by
    obtain ⟨a', ha⟩ := hQ a
    exact (hok a a' ha).records
  refine ⟨.attempt_bind h.records hrecords herror, fun s s' hs b t hrun ht => ?_⟩
  obtain ⟨result, t₁, hattempt, hrest⟩ := runFrom_bind_eq_ok_iff.mp hrun
  rw [runFrom_attempt] at hattempt
  rcases hact : act.runFrom s with ⟨e | a, t₂⟩
  · rw [hact] at hattempt
    obtain ⟨hresult, rfl⟩ := Prod.mk.inj hattempt
    rw [← Except.ok.inj hresult] at hrest
    exact absurd hrest (herror _ _ _ _)
  · rw [hact] at hattempt
    obtain ⟨hresult, rfl⟩ := Prod.mk.inj hattempt
    rw [← Except.ok.inj hresult] at hrest
    obtain ⟨a', t₂', hact', ha, hmirrors⟩ :=
      h.upgrade s s' hs a t₂ hact ((hrecords a).blocksSucceed hrest ht)
    obtain ⟨b', t', hrest', hend⟩ := (hok a a' ha).upgrade t₂ t₂' hmirrors b t hrest ht
    refine ⟨b', t', runFrom_bind_eq_ok_iff.mpr ⟨.ok a', t₂', ?_, hrest'⟩, hend⟩
    rw [runFrom_attempt, hact']

/-- What follows a scope, if only a successful one goes on. -/
theorem inScope_bind (kind : ScopeKind) {f f' : Except ShaderError α × Frame → Run β}
    (h : Upgrades Eq act act')
    (hok : ∀ a frame, Upgrades P (f (.ok a, frame)) (f' (.ok a, frame)))
    (herror : ∀ e frame s b t, (f (.error e, frame)).runFrom s ≠ (.ok b, t)) :
    Upgrades P (inScope kind act >>= f) (inScope kind act' >>= f') := by
  have hassoc : ∀ (act : Run α) (f : Except ShaderError α × Frame → Run β),
      inScope kind act >>= f = (do
        Build.pushScope kind
        let result ← attempt act
        let frame ← Build.popScope
        f (result, frame)) := fun act f => by
    simp only [inScope, bind_assoc, pure_bind]
  rw [hassoc, hassoc]
  refine .bind (.lift (Build.upgrades_pushScope kind)) fun _ => ?_
  refine .attempt_bind h (fun a => ⟨a, rfl⟩) (fun a _ ha => ?_) fun e s b t hrun => ?_
  · rw [← ha]
    exact .bind (.lift Build.upgrades_popScope) fun frame => hok a frame
  · obtain ⟨frame, t₁, -, hrest⟩ := runFrom_bind_eq_ok_iff.mp hrun
    exact herror e frame t₁ b t hrest

end Upgrades

end Sequences

end Rules

/-! ## Blocks -/

section Blocks

variable {block block' : Run Unit}

/-- An error gives no result. -/
theorem runFrom_throw_ne {α : Type} (e : ShaderError) (s : Builder × Notes) (a : α)
    (t : Builder × Notes) : (throw e : Run α).runFrom s ≠ (.ok a, t) :=
  fun h => by cases (Prod.mk.inj h).1

theorem upgrades_collect (kind : ScopeKind) (h : Upgrades Eq block block') :
    Upgrades Eq (collect kind block) (collect kind block') :=
  .inScope_bind kind h (fun _ _ => .pure rfl) fun e _ => runFrom_throw_ne e

theorem upgrades_ifThen (v : Value) (h : Upgrades Eq block block') :
    Upgrades Eq (ifThen v block) (ifThen v block') :=
  .bind (.lift (Build.upgrades_requireFunction _)) fun _ =>
    .bind (.lift (Build.upgrades_condition v)) fun _ =>
      .bind (upgrades_collect _ h) fun _ => .lift (Build.upgrades_emit _)

theorem upgrades_elseIf (v : Value) (h : Upgrades Eq block block') :
    Upgrades Eq (elseIf v block) (elseIf v block') :=
  .bind (.lift (Build.upgrades_condition v)) fun _ =>
    .bind (upgrades_collect _ h) fun _ => .lift (Build.upgrades_extendLast _ _)

theorem upgrades_otherwise (h : Upgrades Eq block block') :
    Upgrades Eq (otherwise block) (otherwise block') :=
  .bind (upgrades_collect _ h) fun _ => .lift (Build.upgrades_extendLast _ _)

theorem upgrades_whileDo (v : Value) (h : Upgrades Eq block block') :
    Upgrades Eq (whileDo v block) (whileDo v block') :=
  .bind (.lift (Build.upgrades_requireFunction _)) fun _ =>
    .bind (.lift (Build.upgrades_condition v)) fun _ =>
      .bind (upgrades_collect _ h) fun _ => .lift (Build.upgrades_emit _)

theorem upgrades_doWhile {cond cond' : Run Value} (h : Upgrades Eq block block')
    (hcond : Upgrades Eq cond cond') : Upgrades Eq (doWhile block cond) (doWhile block' cond') :=
  .bind (.lift (Build.upgrades_requireFunction _)) fun _ =>
    .bind (upgrades_collect _ h) fun _ => .bind hcond fun v =>
      .bind (.lift (Build.upgrades_condition v)) fun _ => .lift (Build.upgrades_emit _)

theorem upgrades_scope (h : Upgrades Eq block block') :
    Upgrades Eq (scope block) (scope block') :=
  .bind (.lift (Build.upgrades_requireFunction _)) fun _ =>
    .bind (upgrades_collect _ h) fun _ => .lift (Build.upgrades_emit _)

theorem upgrades_forRange (counter : String) (first last : Value) {block block' : Expr → Run Unit}
    (h : ∀ e, Upgrades Eq (block e) (block' e)) :
    Upgrades Eq (forRange counter first last block) (forRange counter first last block') := by
  refine .bind (.lift (Build.upgrades_requireFunction _)) fun _ => ?_
  refine .bind (.lift (Build.upgrades_lowerPair _ _)) fun (first, last) => ?_
  refine .bind (.lift (Build.upgrades_requireBounds _ _)) fun _ => ?_
  refine .inScope_bind .loop ?_ (fun v frame => .lift (Build.upgrades_emit _))
    fun e _ => runFrom_throw_ne e
  exact .bind (.lift (Build.upgrades_newVar _ _ _ _)) fun x => .bind (h x.2) fun _ => .pure rfl

theorem upgrades_func (name : String) (params : List (String × TypeShape))
    {block block' : List Expr → Run Unit} (h : ∀ es, Upgrades Eq (block es) (block' es)) :
    Upgrades Eq (func name params block) (func name params block') := by
  refine .bind (.lift (Build.upgrades_checkFunctionName _)) fun _ => ?_
  refine .bind (.lift (Build.upgrades_paramTypes _ _)) fun types => ?_
  refine .readStage_bind (fun _ => rfl) fun s => ?_
  refine .bind (.lift (Build.upgrades_requireNewParams _ _ _)) fun _ => ?_
  refine .inScope_bind _ ?_ (fun vars frame => ?_) fun e _ => runFrom_throw_ne e
  · exact .bind (.lift (Build.upgrades_declareParams _)) fun declared =>
      .bind (h _) fun _ => .pure rfl
  · exact .bind (.lift (Build.upgrades_resultType _ _)) fun t =>
      .lift (Build.upgrades_addFunction _)

theorem upgrades_main (h : Upgrades Eq block block') : Upgrades Eq (main block) (main block') := by
  have hmain : Upgrades Eq (collect (.function true none) block >>= fun block =>
        (Build.modifyStage fun s => { s with main := some block } : Run Unit))
      (collect (.function true none) block' >>= fun block =>
        (Build.modifyStage fun s => { s with main := some block } : Run Unit)) :=
    .bind (upgrades_collect _ h) fun _ => .lift (Build.upgrades_setMain _)
  refine .bind (.lift (Build.upgrades_requireGlobal _)) fun _ => ?_
  refine .readStage_bind (fun _ => rfl) fun s => ?_
  exact .ite (.bind (.throw _) fun _ => hmain) hmain

end Blocks

/-! ## Programs -/

section Programs

variable {α : Type} {Q : α → α → Prop} {block block' vertex vertex' fragment fragment' : Run Unit}

theorem upgrades_stage {which : Stage} (hwhich : which ≠ .compute) (earlier : List VarId)
    (h : Upgrades Eq block block') : Upgrades (fun v v' => v' = v.upgrade)
      (stage which earlier block) (stage which earlier block') := by
  refine .bind (.lift (Build.upgrades_openStage hwhich earlier)) fun _ => .bind h fun _ => ?_
  refine ⟨.lift _, fun s s' hs => .lift hs fun v b hrun => ?_⟩
  obtain ⟨hclose, hb⟩ := Build.run_closeStage_upgrade hs.isWebGL hrun
  exact ⟨_, hclose, rfl, hb⟩

theorem upgrades_bindStages (stages : List BuiltStage) :
    Upgrades Eq (Build.bindStages stages : Run Binding.Plan)
      (Build.bindStages (stages.map BuiltStage.upgrade) : Run Binding.Plan) := by
  refine .lift fun b hb => ?_
  have hplan := Build.UpgradesFrom.intern hb
    (Interning.Follows.signed (Binding.follows_plan .webGL b.vars stages))
  intro plan b' hrun
  unfold Build.bindStages at hrun ⊢
  rw [Builder.run_bind, Builder.run_get] at hrun ⊢
  dsimp only [Builder.upgrade_target, Builder.upgrade_vars] at hrun ⊢
  rw [hb.target] at hrun
  rw [Binding.plan_upgrade]
  exact hplan plan b' hrun

theorem permits_source {b : Builder} (hb : b.target = .webGL) (plan : Binding.Plan)
    (s : BuiltStage) : Permits (b.source plan s) (b.upgrade.source plan s.upgrade) := by
  intro source h
  obtain ⟨resolved, hresolved, hsource⟩ := bind_eq_ok_iff.mp h
  have htarget : resolved.target = .webGL := by
    simp only [Builder.resolve, bind_eq_ok_iff] at hresolved
    obtain ⟨_, -, _, -, _, -, hresolved⟩ := hresolved
    rw [← Except.ok.inj hresolved]
    exact hb
  obtain ⟨source', hsource'⟩ := resolved.permits_source htarget source hsource
  exact ⟨source', bind_eq_ok_iff.mpr ⟨_, Builder.resolve_upgrade hresolved, hsource'⟩⟩

theorem upgrades_compileRender (label : String) (hv : Upgrades Eq vertex vertex')
    (hf : Upgrades Eq fragment fragment') : Upgrades RenderProgram.Upgrades
      (compileRender label vertex fragment) (compileRender label vertex' fragment') := by
  refine .bind_of (upgrades_stage (by decide) _ hv) (fun v => ⟨_, rfl⟩) fun v v' hv' => ?_
  subst hv'
  refine .bind_of (upgrades_stage (by decide) _ hf) (fun f => ⟨_, rfl⟩) fun f f' hf' => ?_
  subst hf'
  refine .bind (upgrades_bindStages [v, f]) fun plan =>
    .current_bind (fun b => ?_) fun b hb s s' hs => ?_
  · exact .bind (.except _) fun _ => .bind (.except _) fun _ => .bind (.except _) fun _ => .pure _
  · have hsource : ∀ st : BuiltStage, Upgrades (fun _ _ => True)
      (b.source plan st : Run StageSource)
        (b.upgrade.source plan st.upgrade : Run StageSource) := fun st => .except fun a h => by
      obtain ⟨a', ha'⟩ := permits_source hb.target plan st a h
      exact ⟨a', ha', trivial⟩
    refine Upgrades.upgrade ?_ s s' hs
    refine .bind_of (hsource v) (fun a => ⟨a, trivial⟩) fun vertex vertex' _ => ?_
    refine .bind_of (hsource f) (fun a => ⟨a, trivial⟩) fun fragment fragment' _ => ?_
    refine .bind (.except fun layouts h => ⟨layouts, h, rfl⟩) fun layouts => ?_
    exact .pure ⟨rfl, rfl, rfl, rfl, rfl⟩

theorem upgrades_asProgram {compile compile' : Run α} (h : Upgrades Q compile compile')
    (hQ : ∀ a, ∃ a', Q a a') : Upgrades Q (asProgram compile) (asProgram compile') := by
  refine .bind (.lift Build.upgrades_start) fun _ => .attempt_bind h hQ (fun a a' ha => ?_) ?_
  · exact .bind (.lift Build.upgrades_finish) fun _ => .pure ha
  · intro e s a t hrun
    obtain ⟨_, _, -, hthrow⟩ := runFrom_bind_eq_ok_iff.mp hrun
    exact runFrom_throw_ne e _ a t hthrow

/-- Every render program can be upgraded. -/
theorem exists_renderProgram_upgrades (p : RenderProgram) : ∃ p', p.Upgrades p' :=
  ⟨{ p with target := .webGL2 }, rfl, rfl, rfl, rfl, rfl⟩

/-- Every program that draws upgrades. -/
theorem upgrades_render (label : String) (hv : Upgrades Eq vertex vertex')
    (hf : Upgrades Eq fragment fragment') : Upgrades RenderProgram.Upgrades
      (render label vertex fragment) (render label vertex' fragment') :=
  upgrades_asProgram (upgrades_compileRender label hv hf) exists_renderProgram_upgrades

/-- No program that computes is built on WebGL. -/
theorem runFrom_compute_ne {s : Builder × Notes} (hs : s.1.target = .webGL) (label : String)
    (p : ComputeProgram) (t : Builder × Notes) : (compute label block).runFrom s ≠ (.ok p, t) := by
  obtain ⟨b, n⟩ := s
  have hcompile : ∀ b : Builder, b.target = .webGL →
      (compileCompute label block).runFrom (b, n) =
        (.error (.capability .compute .webGL), b, n) := by
    intro b hb
    have hrequire := Build.run_require_of_lacks
      (show b.target.supports .compute = false by rw [hb]; rfl)
    rw [compileCompute, runFrom_bind, runFrom_lift, hrequire, hb]
  intro h
  rw [compute, runFrom_asProgram] at h
  split at h
  · cases (Prod.mk.inj h).1
  · cases (Prod.mk.inj h).1
  · rw [hcompile { b with phase := .building } hs] at h
    cases (Prod.mk.inj h).1

/-- A program that is built is the same whether a failure to build it would be reported. -/
theorem runFrom_program_eq_some_iff {isReported : Bool} {label : String} {build : Run α} {p : α}
    {s t : Builder × Notes} : (program isReported label build).runFrom s = (.ok (some p), t) ↔
      runFrom (do
        let p ← build
        if isReported then Build.setLastError none
        return p) s = (.ok p, t) := by
  rw [runFrom_program, runFrom_bind]
  rcases build.runFrom s with ⟨e | p', b, n⟩
  · refine iff_of_false (fun h => ?_) fun h => by cases (Prod.mk.inj h).1
    cases e <;> cases isReported <;> cases (Prod.mk.inj h).1
  · cases isReported with
    | false => simp
    | true =>
        have hset : b.run (Build.setLastError none) = (.ok (), { b with lastError := none }) := rfl
        dsimp only
        rw [if_pos rfl, runFrom_bind, runFrom_lift, hset]
        simp

/-- A program that is built on WebGL, where a failure may be reported, is built on WebGL2. -/
theorem upgrades_program {isReported : Bool} {label : String} {build build' : Run α}
    (h : Upgrades Q build build') (hQ : ∀ a, ∃ a', Q a a') {s s' t : Builder × Notes}
    (hs : Mirrors s s') {p : α}
    (hrun : (program isReported label build).runFrom s = (.ok (some p), t))
    (ht : blocksSucceed t.2.blocks = true) : ∃ p' t',
      (program isReported label build').runFrom s' = (.ok (some p'), t') ∧ Q p p' ∧
        Mirrors t t' := by
  have hsettle : Upgrades Q
      (do
        let p ← build
        if isReported then Build.setLastError none
        return p)
      (do
        let p ← build'
        if isReported then Build.setLastError none
        return p) :=
    h.bind_of hQ fun p p' hp =>
      .ite (.bind (.lift (Build.upgrades_setLastError none)) fun _ => .pure hp) (.pure hp)
  obtain ⟨p', t', hrun', hend⟩ :=
    hsettle.upgrade s s' hs p t (runFrom_program_eq_some_iff.mp hrun) ht
  exact ⟨p', t', runFrom_program_eq_some_iff.mpr hrun', hend⟩

end Programs

end Script

end WebShader
