import WebShader.Proofs.BlockExpressions
import WebShader.Proofs.Sessions

/-!
# Parts of sessions

A run is a part of a session if every step it takes on the builder is one that the session can take.
Steps of the builder are, and so are their sequences and what runs in a scope of its own. A handle
that is known stays known, unless the stage is lost on the way; then no scope can be left any more.

A relation of builders that holds along these steps holds along every part of a session. More
generally, a relation of sessions may also tell what their authors know.
-/

namespace WebShader

/-! ## Relations along sessions -/

/-- The builder that has ended a program, compiled or not. -/
def Builder.finished (b : Builder) : Builder := { b with stage := none, phase := .done }

/-- A scope that has been opened without a result type is left again, and what ran in it kept a
relation. -/
def Builder.Leaves (R : Builder → Builder → Prop) (kind : ScopeKind) (b : Builder) (f : Frame)
    (b' : Builder) : Prop :=
  kind.opening = kind ∧ ∃ s b₁, b.stage = some s ∧ R (b.withFrame s { kind } s.frames) b₁ ∧
    b₁.run Build.popScope = (.ok f, b')

/-- The statement that the statements of a scope become when it is closed. -/
inductive ScopeKind.Closes : ScopeKind → Block → Stmt NodeId → Prop
  | conditional (cond : NodeId) (body : Block) :
      Closes .branch body (.conditional [(cond, body)] none)
  | forRange (counter : VarId) (first last : NodeId) (body : Block) :
      Closes .loop body (.forRange counter first last body)
  | whileDo (cond : NodeId) (body : Block) : Closes .loop body (.whileDo cond body)
  | doWhile (cond : NodeId) (body : Block) : Closes .loop body (.doWhile body cond)
  | block (body : Block) : Closes .block body (.block body)

/-- A scope that is closed was opened alike. -/
theorem ScopeKind.Closes.opening {kind : ScopeKind} {body : Block} {st : Stmt NodeId}
    (h : kind.Closes body st) : kind.opening = kind := by
  cases h <;> rfl

/-- A change of a statement that takes the statements of a scope as one more branch. -/
inductive Stmt.Joins (body : Block) : (Stmt NodeId → Option (Stmt NodeId)) → Prop
  | branch (cond : NodeId) : Joins body (Stmt.addBranch? cond body)
  | otherwise : Joins body (Stmt.addElse? body)

/-- A relation that holds along every step of a session. What is done with a scope once it is left
may rely on what ran in it having kept the relation, on its expressions still being recorded while
there is a stage, and on those of what it becomes being its own or recorded ones. -/
class IsTraced (R : Builder → Builder → Prop) : Prop extends IsAdditive R where
  newVar : ∀ name t role init, Build.Follows R (Build.newVar name t role init)
  inherit : ∀ v, Build.Follows R (Build.modifyDecls fun d => { d with inputs := d.inputs ++ [v] })
  operation : ∀ {s : Session} {n n' : Script.Notes} {op : Script.Operation}
    {act : Script.Run Script.Reply}, s.Reachable → s.KnowsNames n → op ≠ .reset →
    op.action n = .ok act → R s.builder (act.runFrom (s.builder, n')).2.1
  reset : ∀ b : Builder, R b b.reset
  leave : ∀ {kind b f b'}, b.Leaves R kind f b' → R b b'
  stuck : ∀ {kind s b b₁ e}, kind.opening = kind → b.stage = some s →
    R (b.withFrame s { kind } s.frames) b₁ → b₁.run Build.popScope = (.error e, b₁) → R b b₁
  construct : ∀ {kind b f b₁ b₂ st}, b.Leaves R kind f b₁ → R b₁ b₂ → kind.Closes f.body st →
    b₁.nodes.size ≤ b₂.nodes.size ∨ b₂.stage = none →
    (∀ n ∈ st.exprs, n ∈ Stmt.blockExprs f.body ∨ n.index < b₂.nodes.size) →
    R b (b₂.run (Build.emit st)).2
  extend : ∀ {b f b₁ g} failure, b.Leaves R .branch f b₁ → Stmt.Joins f.body g →
    (∀ st st', g st = some st' → ∀ n ∈ st'.exprs,
      n ∈ st.exprs ∨ n ∈ Stmt.blockExprs f.body ∨ n.index < b₁.nodes.size) →
    R b (b₁.run (Build.extendLast failure g)).2
  func : ∀ {name b f b₁ b₂ t} fn, b.Leaves R (.function false none) f b₁ →
    b₁.run (Build.resultType name f) = (.ok t, b₂) → fn.result = t → fn.body = f.body →
    R b (b₂.run (Build.addFunction fn)).2
  main : ∀ {b f b₁}, b.Leaves R (.function true none) f b₁ →
    R b (b₁.run (Build.modifyStage fun s => { s with main := some f.body })).2
  finish : ∀ b : Builder, R b b.finished
  stage : ∀ {b b' : Builder} {which : Stage},
    (which = .compute → b.target.supports .compute = true) → R (b.opened which) b' →
    R b.finished b'.finished

/-- All builders are related along a session. -/
instance : IsTraced fun _ _ => True where
  refl _ := trivial
  trans _ _ _ _ _ := trivial
  of_adds _ _ _ := trivial
  newVar _ _ _ _ _ := trivial
  inherit _ _ := trivial
  operation _ _ _ _ := trivial
  reset _ := trivial
  leave _ := trivial
  stuck _ _ _ _ := trivial
  construct _ _ _ _ _ := trivial
  extend _ _ _ _ := trivial
  func _ _ _ _ _ := trivial
  main _ := trivial
  finish _ := trivial
  stage _ _ := trivial

/-! ## Later sessions -/

namespace Session

variable {s s' s'' : Session}

/-- A session whose author knows more, and whose builder extends the one of another. -/
structure Grows (s s' : Session) : Prop where
  builder : s.builder.Extends s'.builder
  known : s.known ⊆ s'.known

/-- The arena only grows. -/
theorem Grows.size_le (h : s.Grows s') : s.builder.nodes.size ≤ s'.builder.nodes.size := by
  simpa using h.builder.nodes.length_le

/-- What is recorded stays recorded. -/
theorem Grows.lt_size {n : NodeId} (h : s.Grows s') (hn : n.index < s.builder.nodes.size) :
    n.index < s'.builder.nodes.size := Nat.lt_of_lt_of_le hn h.size_le

/-- A session that is left alone has grown by nothing. -/
theorem Grows.refl (s : Session) : s.Grows s := ⟨.refl _, fun _ he => he⟩

/-- A session grows in steps. -/
theorem Grows.trans (h : s.Grows s') (h' : s'.Grows s'') : s.Grows s'' :=
  ⟨h.builder.trans h'.builder, fun _ he => h'.known (h.known he)⟩

/-- The names that are bound stay known. -/
theorem Grows.knowsNames {n : Script.Notes} (h : s.Grows s') (hn : s.KnowsNames n) :
    s'.KnowsNames n := fun x hx => h.known (hn x hx)

/-- What is known stays known. -/
theorem Grows.knows {v : Value} (h : s.Grows s') (hv : s.Knows v) : s'.Knows v :=
  Value.Holds.imp hv fun _ he => h.known he

/-- A session grows with its builder. -/
theorem grows_after {b : Builder} (h : s.builder.Extends b) (handles : List Expr) :
    s.Grows (s.after b handles) := ⟨h, List.subset_append_right _ _⟩

theorem KnowsNames.bind {n : Script.Notes} (hn : s.KnowsNames n) (name : String) {e : Expr}
    (he : e ∈ s.known) : s.KnowsNames (n.bind name e) := by
  intro x hx
  rcases List.mem_cons.mp hx with rfl | hx
  · exact he
  · exact hn x (List.mem_of_mem_filter hx)

/-- A later session: it has grown unless the stage has been lost, and it has a stage only if there
was one. -/
structure Later (s s' : Session) : Prop where
  stage : s.builder.stage = none → s'.builder.stage = none
  grows : s.Grows s' ∨ s'.builder.stage = none

instance : IsPreorder Session Later where
  refl s := ⟨id, Or.inl (.refl s)⟩
  trans _ _ _ h h' := by
    refine ⟨fun hs => h'.stage (h.stage hs), ?_⟩
    rcases h'.grows with hgrows' | hlost
    · rcases h.grows with hgrows | hlost
      · exact Or.inl (hgrows.trans hgrows')
      · exact Or.inr (h'.stage hlost)
    · exact Or.inr hlost

/-- A relation takes a session to what a step leaves, which has extended the builder and opened no
stage. -/
def GoesOn (L : Session → Session → Prop) (s : Session) (b : Builder) (handles : List Expr) :
    Prop :=
  s.builder.Extends b → (s.builder.stage = none → b.stage = none) → L s (s.after b handles)

/-- A later session whose builder is related to a given one. -/
def LeadsFrom (R : Builder → Builder → Prop) (b : Builder) (s s' : Session) : Prop :=
  s.Later s' ∧ R b s'.builder

/-- A later session whose builder is related to the one before. -/
def Leads (R : Builder → Builder → Prop) (s s' : Session) : Prop := LeadsFrom R s.builder s s'

/-- A session that goes on with another whose builder, once its program is over, is related to the
one before. -/
def Continues (R : Builder → Builder → Prop) (s s' : Session) : Prop :=
  R s.builder.finished s'.builder.finished

section Relations

variable {R : Builder → Builder → Prop}

/-- A session goes on along a relation of builders. -/
theorem goesOn_leads {b : Builder} (h : R s.builder b) (handles : List Expr) :
    s.GoesOn (Leads R) b handles :=
  fun hext hstage => ⟨⟨hstage, Or.inl (grows_after hext handles)⟩, h⟩

variable [IsPreorder Builder R]

instance : IsPreorder Session (Leads R) where
  refl s := ⟨refl_of Later s, refl_of R s.builder⟩
  trans _ _ _ h h' := ⟨trans_of Later h.1 h'.1, trans_of R h.2 h'.2⟩

instance : IsPreorder Session (Continues R) where
  refl s := refl_of R s.builder.finished
  trans _ _ _ h h' := trans_of R h h'

/-- What leads on from a session leads on from an earlier builder. -/
theorem Leads.from {b : Builder} (h : s.Leads R s') (hb : R b s.builder) : LeadsFrom R b s s' :=
  ⟨h.1, trans_of R hb h.2⟩

end Relations

end Session

/-! ## Parts of sessions -/

theorem Build.rearranges_inherit (v : VarId) :
    Rearranges (modifyDecls fun d => { d with inputs := d.inputs ++ [v] }) :=
  rearranges_modifyDecls fun _ => rfl

namespace Script

open Authoring Session

variable {α β : Type} {L : Session → Session → Prop} {R : Builder → Builder → Prop}
variable {s s' : Session} {n : Notes}

/-- A run is a part of a session, failed or not: the builder it leaves is the one of a reachable
session that knows all names, and what it gives is as told. -/
def Plays (L : Session → Session → Prop) (act : Run α) (s : Session) (n : Notes)
    (post : α → Session → Prop) : Prop :=
  ∃ s', s'.Reachable ∧ L s s' ∧ s'.builder = (act.runFrom (s.builder, n)).2.1 ∧
    s'.KnowsNames (act.runFrom (s.builder, n)).2.2 ∧
    ∀ a, (act.runFrom (s.builder, n)).1 = .ok a → post a s'

namespace Plays

variable {act : Run α} {f : α → Run β} {post : α → Session → Prop} {last : β → Session → Prop}

/-- What a run plays may be weakened. -/
theorem mono {post' : α → Session → Prop} (h : Plays L act s n post)
    (himp : ∀ a s', L s s' → post a s' → post' a s') : Plays L act s n post' := by
  obtain ⟨s', hs', hL, hb, hn, hpost⟩ := h
  exact ⟨s', hs', hL, hb, hn, fun a ha => himp a s' hL (hpost a ha)⟩

/-- An attempt plays what it attempts. -/
theorem attempt (h : Plays L act s n post) :
    Plays L (attempt act) s n fun result s' => ∀ a, result = .ok a → post a s' := by
  obtain ⟨s', hs', hL, hb, hn, hpost⟩ := h
  refine ⟨s', hs', hL, hb, hn, fun result hresult a ha => ?_⟩
  rw [runFrom_attempt] at hresult
  exact hpost a ((Except.ok.inj hresult).trans ha)

/-- What follows a look at the notes. -/
theorem notes_bind {f : Notes → Run β} (h : Plays L (f n) s n last) :
    Plays L (notes >>= f) s n last := h

/-- What follows a change of the notes. -/
theorem modifyNotes_bind {g : Notes → Notes} {f : Unit → Run β} (h : Plays L (f ()) s (g n) last) :
    Plays L (modifyNotes g >>= f) s n last := h

/-- What follows a look at the builder. -/
theorem lift_get_bind {f : Builder → Build β} (h : Plays L (f s.builder : Run β) s n last) :
    Plays L (get >>= f : Build β) s n last := h

/-- Two operations of the builder, one after the other. -/
theorem lift_bind {act : Build α} {f : α → Build β}
    (h : Plays L (do f (← (act : Run α))) s n last) : Plays L (act >>= f : Build β) s n last := by
  unfold Plays at h ⊢
  rwa [runFrom_lift_bind]

section Sequences

variable [IsPreorder Session L]

/-- One after the other. -/
theorem bind (h : Plays L act s n post)
    (hf : ∀ a s' n', s'.Reachable → s'.KnowsNames n' → L s s' → post a s' →
      Plays L (f a) s' n' last) : Plays L (act >>= f) s n last := by
  obtain ⟨s', hs', hL, hb, hn', hpost⟩ := h
  unfold Plays
  rw [runFrom_bind]
  rcases hrun : act.runFrom (s.builder, n) with ⟨e | a, b, n'⟩
  · rw [hrun] at hb hn'
    exact ⟨s', hs', hL, hb, hn', fun _ h => by cases h⟩
  · rw [hrun] at hb hn' hpost
    obtain rfl : s'.builder = b := hb
    obtain ⟨s'', hs'', hL', hb', hn'', hlast⟩ := hf a s' n' hs' hn' hL (hpost a rfl)
    exact ⟨s'', hs'', trans_of L hL hL', hb', hn'', hlast⟩

/-- Nothing is played. -/
protected theorem pure (hs : s.Reachable) (hn : s.KnowsNames n) {a : α} (h : post a s) :
    Plays L (pure a) s n post :=
  ⟨s, hs, refl_of L s, rfl, hn, fun _ ha => Except.ok.inj ha ▸ h⟩

/-- An error plays nothing. -/
theorem throw (hs : s.Reachable) (hn : s.KnowsNames n) (e : ShaderError) :
    Plays L (throw e : Run α) s n post :=
  ⟨s, hs, refl_of L s, rfl, hn, fun _ h => by cases h⟩

/-- What follows a failure is not run. -/
theorem throw_bind (hs : s.Reachable) (hn : s.KnowsNames n) (e : ShaderError) :
    Plays L (MonadExcept.throw e >>= f : Run β) s n last :=
  ⟨s, hs, refl_of L s, rfl, hn, fun _ h => by cases h⟩

end Sequences

/-! ### What is left of a scope -/

section From

variable {b : Builder}

/-- What follows a part of a session, told from an earlier builder. -/
theorem bind_from [IsPreorder Builder R] (h : Plays (Leads R) act s n post) (hb : R b s.builder)
    (hf : ∀ a s' n', s'.Reachable → s'.KnowsNames n' → s.Leads R s' → post a s' →
      Plays (LeadsFrom R b) (f a) s' n' last) : Plays (LeadsFrom R b) (act >>= f) s n last := by
  obtain ⟨s', hs', hleads, hb', hn', hpost⟩ := h
  unfold Plays
  rw [runFrom_bind]
  rcases hrun : act.runFrom (s.builder, n) with ⟨e | a, b', n'⟩
  · rw [hrun] at hb' hn'
    exact ⟨s', hs', hleads.from hb, hb', hn', fun _ h => by cases h⟩
  · rw [hrun] at hb' hn' hpost
    obtain rfl : s'.builder = b' := hb'
    obtain ⟨s'', hs'', hleads', hb'', hn'', hlast⟩ := hf a s' n' hs' hn' hleads (hpost a rfl)
    exact ⟨s'', hs'', ⟨trans_of Later hleads.1 hleads'.1, hleads'.2⟩, hb'', hn'', hlast⟩

/-- An error goes on from an earlier builder. -/
theorem throw_from (hs : s.Reachable) (hn : s.KnowsNames n) (hb : R b s.builder)
    (e : ShaderError) : Plays (LeadsFrom R b) (MonadExcept.throw e : Run α) s n post :=
  ⟨s, hs, ⟨refl_of Later s, hb⟩, rfl, hn, fun _ h => by cases h⟩

/-- A rearrangement, told from an earlier builder. -/
theorem rearranges_from {act : Build α} (hs : s.Reachable) (hn : s.KnowsNames n)
    (hact : Build.Rearranges act) (hb : R b (s.builder.run act).2) :
    Plays (LeadsFrom R b) act s n fun _ s' => s.Grows s' := by
  have hgrows := grows_after (hact s.builder).extends []
  refine ⟨_, .rearranged hs (hact s.builder), ⟨⟨(hact s.builder).stage, Or.inl hgrows⟩, hb⟩, rfl,
    hgrows.knowsNames hn, fun _ _ => hgrows⟩

end From

end Plays

/-- A value or a failure that no builder is asked for. -/
theorem plays_except [IsPreorder Session L] (hs : s.Reachable) (hn : s.KnowsNames n)
    (x : Except ShaderError α) : Plays L (x : Run α) s n fun _ _ => True := by
  unfold Plays
  rw [runFrom_except]
  exact ⟨s, hs, refl_of L s, rfl, hn, fun _ _ => trivial⟩

/-! ## Steps of the builder -/

section Steps

variable (hs : s.Reachable) (hn : s.KnowsNames n)

/-- A step of the builder that a session can take. -/
theorem plays_step (hn : s.KnowsNames n) {act : Build α} {handles : List Expr}
    (hstep : (s.after (s.builder.run act).2 handles).Reachable)
    (hext : s.builder.Extends (s.builder.run act).2)
    (hstage : s.builder.stage = none → (s.builder.run act).2.stage = none)
    (hL : s.GoesOn L (s.builder.run act).2 handles) :
    Plays L act s n fun a s' =>
      s.Grows s' ∧ s.builder.run act = (.ok a, s'.builder) ∧ handles ⊆ s'.known := by
  have hgrows := grows_after hext handles
  refine ⟨_, hstep, hL hext hstage, rfl, hgrows.knowsNames hn, ?_⟩
  exact fun a ha => ⟨hgrows, Prod.ext ha rfl, List.subset_append_left _ _⟩

include hs hn

/-- A look at the builder leaves the session as it is. -/
theorem plays_reads [IsPreorder Session L] {act : Build α} (hact : Build.Reads act) :
    Plays L act s n fun a s' => s' = s ∧ s.builder.run act = (.ok a, s.builder) := by
  have hsame := hact s.builder
  exact ⟨s, hs, refl_of L s, hsame, hn, fun a ha => ⟨rfl, Prod.ext ha hsame.symm⟩⟩

/-- A step that leaves the expressions and the variables as they are. -/
theorem plays_rearranged {act : Build α} (hact : Build.Rearranges act)
    (hL : s.GoesOn L (s.builder.run act).2 []) :
    Plays L act s n fun a s' => s.Grows s' ∧ s.builder.run act = (.ok a, s'.builder) :=
  (plays_step hn (.rearranged hs (hact s.builder)) (hact s.builder).extends
    (hact s.builder).stage hL).mono fun _ _ _ h => ⟨h.1, h.2.1⟩

/-- An operation that rearranges is played as such. -/
theorem plays_rearranges {act : Build α} (hact : Build.Rearranges act) (hR : Build.Follows R act) :
    Plays (Leads R) act s n fun a s' => s.Grows s' ∧ s.builder.run act = (.ok a, s'.builder) :=
  plays_rearranged hs hn hact (goesOn_leads (hR s.builder) [])

/-- An operand that is lowered has been recorded. -/
theorem plays_lower {v : Value} (hv : s.Knows v) (hint : Option ScalarKind)
    (hL : s.GoesOn L (s.builder.run (Build.lower v hint)).2 []) :
    Plays L (Build.lower v hint : Run Expr) s n fun e s' =>
      s.Grows s' ∧ e.node.index < s'.builder.nodes.size := by
  have hensures := Build.ensures_lower hs.typed.resolved (hs.typed.knows hv) hint
  have hnests := Build.follows_lower (R := Builder.Nests) v hint s.builder
  refine (plays_step hn (.lower hint hs hv) hensures.1 hnests.stage_eq_none hL).mono
    fun e s' _ ⟨hgrows, hrun, _⟩ => ⟨hgrows, ?_⟩
  exact Builder.lt_size_of_typeOf? (hensures.2.2 e s'.builder hrun).1

/-- The author is given the handle of a variable that is declared. -/
theorem plays_newVar (name : String) {t : TypeId} (role : Role) (init : Option NodeId)
    (ht : t.index < s.builder.types.size)
    (hL : s.GoesOn L (s.builder.run (Build.newVar name t role init)).2
      ((s.builder.run (Build.newVar name t role init)).1.toOption.toList.map (·.2))) :
    Plays L (Build.newVar name t role init : Run (VarId × Expr)) s n fun x s' =>
      s.Grows s' ∧ x.2 ∈ s'.known := by
  have hensures := Build.ensures_newVar hs.typed.resolved name role init ht
  have hnests := nests_newVar name t role init s.builder
  refine (plays_step hn (.declare name role init hs ht) hensures.1 hnests.stage_eq_none hL).mono ?_
  rintro x s' - ⟨hgrows, hrun, hgiven⟩
  refine ⟨hgrows, hgiven ?_⟩
  rw [hrun]
  exact List.mem_singleton.mpr rfl

end Steps

/-! ## Scopes -/

section Scopes

variable [IsTraced R] (hs : s.Reachable) (hn : s.KnowsNames n)

include hs hn

/-- A scope can only be left if the stage is still there, and then the session has grown. -/
theorem plays_inScope (kind : ScopeKind) (hkind : kind.opening = kind) {act : Run α}
    (hact : ∀ s' n', s'.Reachable → s'.KnowsNames n' → s.Grows s' →
      Plays (Leads R) act s' n' fun _ _ => True) :
    Plays (Leads R) (inScope kind act) s n fun x s' =>
      s.Grows s' ∧ s.builder.Leaves R kind x.2 s'.builder := by
  have hpush := Build.rearranges_pushScope kind s.builder
  unfold Plays inScope
  rw [runFrom_bind, runFrom_lift]
  cases hstage : s.builder.stage with
  | none =>
      rw [show s.builder.run (Build.pushScope kind) = (.error (.internal .noStage), s.builder) from
        Builder.run_modifyStage_of_none hstage _]
      exact ⟨s, hs, refl_of (Leads R) s, rfl, hn, fun _ h => by cases h⟩
  | some st =>
      rw [run_pushScope_of_some hstage] at hpush ⊢
      dsimp only at hpush ⊢
      -- the body is a part of the session that has opened the scope
      have hgrows₁ := grows_after hpush.extends []
      obtain ⟨s₂, hs₂, hleads, hb₂, hn₂, -⟩ :=
        hact _ n (.rearranged hs hpush) (hgrows₁.knowsNames hn) hgrows₁
      have hbody : R (s.builder.withFrame st { kind } st.frames) s₂.builder := hleads.2
      rw [runFrom_bind, runFrom_attempt]
      rcases hrun : act.runFrom (s.builder.withFrame st { kind } st.frames, n) with ⟨result, b₂, n₂⟩
      change s₂.builder = (act.runFrom (s.builder.withFrame st { kind } st.frames, n)).2.1 at hb₂
      change s₂.KnowsNames (act.runFrom (s.builder.withFrame st { kind } st.frames, n)).2.2 at hn₂
      rw [hrun] at hb₂ hn₂
      obtain rfl : s₂.builder = b₂ := hb₂
      dsimp only
      rw [runFrom_bind, runFrom_lift]
      have hpop := Build.rearranges_popScope s₂.builder
      have hgrows₃ := grows_after hpop.extends []
      have hlost : s.builder.stage = none → (s₂.builder.run Build.popScope).2.stage = none :=
        fun h => by rw [hstage] at h; cases h
      rcases run_popScope_cases s₂.builder with ⟨e, hpopped, -⟩ | ⟨t, f, g, rest, ht, -, hpopped⟩
      · rw [hpopped]
        have hstuck := IsTraced.stuck hkind hstage hbody hpopped
        refine ⟨s₂, hs₂, ⟨⟨?_, hleads.1.grows.imp_left hgrows₁.trans⟩, hstuck⟩, rfl, hn₂,
          fun _ h => by cases h⟩
        exact fun h => by rw [hstage] at h; cases h
      · have hleaves : s.builder.Leaves R kind f (s₂.builder.run Build.popScope).2 :=
          ⟨hkind, st, s₂.builder, hstage, hbody, by rw [hpopped]⟩
        have hgrows : s.Grows (s₂.after (s₂.builder.run Build.popScope).2 []) := by
          rcases hleads.1.grows with hgrows₂ | hnone
          · exact hgrows₁.trans (hgrows₂.trans hgrows₃)
          · rw [ht] at hnone
            cases hnone
        have hleads : Leads R _ _ := ⟨⟨hlost, Or.inl hgrows⟩, IsTraced.leave hleaves⟩
        refine ⟨_, .rearranged hs₂ hpop, hleads, ?_, ?_, ?_⟩
        · rw [hpopped]
          rfl
        · rw [hpopped]
          exact hgrows₃.knowsNames hn₂
        · intro x hx
          rw [hpopped] at hx
          rw [← Except.ok.inj hx]
          exact ⟨hgrows, hleaves⟩

/-- A body is played in a scope of its own. -/
theorem plays_collect (kind : ScopeKind) (hkind : kind.opening = kind) {body : Run Unit}
    (hbody : ∀ s' n', s'.Reachable → s'.KnowsNames n' → s.Grows s' →
      Plays (Leads R) body s' n' fun _ _ => True) :
    Plays (Leads R) (collect kind body) s n fun block s' =>
      s.Grows s' ∧ ∃ f : Frame, f.body = block ∧ s.builder.Leaves R kind f s'.builder := by
  refine (plays_inScope hs hn kind hkind hbody).bind ?_
  rintro ⟨result, frame⟩ s₁ n₁ hs₁ hn₁ - ⟨hgrows, hleaves⟩
  cases result with
  | ok _ => exact .pure hs₁ hn₁ ⟨hgrows, frame, rfl, hleaves⟩
  | error e => exact .throw hs₁ hn₁ e

/-- A scope is collected and closed by its statement, whose other expressions are recorded. -/
theorem plays_construct {kind : ScopeKind} {st : Block → Stmt NodeId}
    (hst : ∀ block, kind.Closes block (st block))
    (hexprs : ∀ block, ∀ e ∈ (st block).exprs,
      e ∈ Stmt.blockExprs block ∨ e.index < s.builder.nodes.size) {body : Run Unit}
    (hbody : ∀ s' n', s'.Reachable → s'.KnowsNames n' → s.Grows s' →
      Plays (Leads R) body s' n' fun _ _ => True) :
    Plays (Leads R) (do let block ← collect kind body; Build.emit (st block)) s n
      fun _ s' => s.Grows s' := by
  refine (plays_collect hs hn kind (hst []).opening hbody).bind_from (refl_of R s.builder) ?_
  rintro _ s₁ n₁ hs₁ hn₁ - ⟨hgrows, f, rfl, hleaves⟩
  have hemit := IsTraced.construct hleaves (refl_of R s₁.builder) (hst f.body) (Or.inl le_rfl)
    fun e he => (hexprs f.body e he).imp_right hgrows.lt_size
  exact (Plays.rearranges_from hs₁ hn₁ (Build.rearranges_emit _) hemit).mono
    fun _ _ _ h => hgrows.trans h

/-- A scope is collected and joins the conditional before it, maybe on a condition that is
recorded. -/
theorem plays_join {g : Block → Stmt NodeId → Option (Stmt NodeId)}
    (hg : ∀ block, Stmt.Joins block (g block)) (failure : InternalFault)
    (hexprs : ∀ block st st', g block st = some st' → ∀ e ∈ st'.exprs,
      e ∈ st.exprs ∨ e ∈ Stmt.blockExprs block ∨ e.index < s.builder.nodes.size) {body : Run Unit}
    (hbody : ∀ s' n', s'.Reachable → s'.KnowsNames n' → s.Grows s' →
      Plays (Leads R) body s' n' fun _ _ => True) :
    Plays (Leads R) (do let block ← collect .branch body; Build.extendLast failure (g block)) s n
      fun _ s' => s.Grows s' := by
  refine (plays_collect hs hn .branch rfl hbody).bind_from (refl_of R s.builder) ?_
  rintro _ s₁ n₁ hs₁ hn₁ - ⟨hgrows, f, rfl, hleaves⟩
  have hextend := IsTraced.extend failure hleaves (hg f.body) fun st st' hst e he =>
    (hexprs f.body st st' hst e he).imp_right (Or.imp_right hgrows.lt_size)
  exact (Plays.rearranges_from hs₁ hn₁ (Build.rearranges_extendLast _ _) hextend).mono
    fun _ _ _ h => hgrows.trans h

end Scopes

/-! ## Steps within a stage -/

/-- A run that is a part of every session, whatever it has been given, and goes along a relation of
sessions. -/
def PlaysAlong (L : Session → Session → Prop) (act : Run α) : Prop :=
  ∀ s n, s.Reachable → s.KnowsNames n → Plays L act s n fun _ _ => True

/-- A relation of sessions along which operands are lowered and variables other than constants are
declared, and along which statements are put together if their bodies go along. -/
class IsStepped (L : Session → Session → Prop) : Prop extends IsPreorder Session L where
  lower : ∀ {s : Session} {n : Notes} {v : Value}, s.Reachable → s.KnowsNames n → s.Knows v →
    ∀ hint, Plays L (Build.lower v hint : Run Expr) s n fun e s' =>
      s.Grows s' ∧ e.node.index < s'.builder.nodes.size
  newVar : ∀ {s : Session} {n : Notes} {t : TypeId}, s.Reachable → s.KnowsNames n →
    ∀ name role, role ≠ .constant → ∀ init, t.index < s.builder.types.size →
    Plays L (Build.newVar name t role init : Run (VarId × Expr)) s n fun x s' =>
      s.Grows s' ∧ x.2 ∈ s'.known
  inherit : ∀ v, PlaysAlong L
    (Build.modifyDecls fun d => { d with inputs := d.inputs ++ [v] } : Run PUnit)
  construct : ∀ {s : Session} {n : Notes} {kind : ScopeKind} {st : Block → Stmt NodeId}
    {body : Run Unit}, s.Reachable → s.KnowsNames n → (∀ block, kind.Closes block (st block)) →
    (∀ block, ∀ e ∈ (st block).exprs,
      e ∈ Stmt.blockExprs block ∨ e.index < s.builder.nodes.size) → PlaysAlong L body →
    Plays L (do let block ← collect kind body; Build.emit (st block)) s n fun _ s' => s.Grows s'
  join : ∀ {s : Session} {n : Notes} {g : Block → Stmt NodeId → Option (Stmt NodeId)}
    {body : Run Unit}, s.Reachable → s.KnowsNames n → (∀ block, Stmt.Joins block (g block)) →
    ∀ failure, (∀ block st st', g block st = some st' → ∀ e ∈ st'.exprs,
      e ∈ st.exprs ∨ e ∈ Stmt.blockExprs block ∨ e.index < s.builder.nodes.size) →
    PlaysAlong L body →
    Plays L (do let block ← collect .branch body; Build.extendLast failure (g block)) s n
      fun _ s' => s.Grows s'

/-- A relation of builders that holds along sessions is one of the sessions. -/
instance [IsTraced R] : IsStepped (Leads R) where
  lower hs hn hv hint :=
    plays_lower hs hn hv hint (goesOn_leads (Build.follows_lower _ hint _) _)
  newVar hs hn name role _ init ht :=
    plays_newVar hs hn name role init ht (goesOn_leads (IsTraced.newVar name _ role init _) _)
  inherit v _ _ hs hn := (plays_rearranges hs hn (Build.rearranges_inherit v)
    (IsTraced.inherit v)).mono fun _ _ _ _ => trivial
  construct hs hn hst hexprs hbody :=
    plays_construct hs hn hst hexprs fun s' n' hs' hn' _ => hbody s' n' hs' hn'
  join hs hn hg failure hexprs hbody :=
    plays_join hs hn hg failure hexprs fun s' n' hs' hn' _ => hbody s' n' hs' hn'

section Stepped

variable [IsStepped L] (hs : s.Reachable) (hn : s.KnowsNames n)

include hs hn

/-- A condition is recorded. -/
theorem plays_condition {v : Value} (hv : s.Knows v) :
    Plays L (Build.condition v : Run NodeId) s n fun c s' =>
      s.Grows s' ∧ c.index < s'.builder.nodes.size := by
  refine .lift_bind ((IsStepped.lower hs hn hv _).bind fun e s₁ n₁ hs₁ hn₁ _ ⟨hgrows, he⟩ => ?_)
  refine (plays_reads hs₁ hn₁ ?_).mono ?_
  · grind
  · rintro c _ - ⟨rfl, hrun⟩
    rw [Builder.run_get_bind] at hrun
    obtain ⟨-, hrun⟩ := Builder.run_refuse_eq_ok_iff.mp hrun
    rw [← (Builder.run_pure_eq_ok_iff.mp hrun).1]
    exact ⟨hgrows, he⟩

/-- An operand is recorded. -/
theorem plays_lowerNear {v : Value} (hv : s.Knows v) (hint : Option ScalarKind) :
    Plays L (Build.lowerNear v hint : Run Expr) s n fun e s' =>
      s.Grows s' ∧ e.node.index < s'.builder.nodes.size := by
  unfold Build.lowerNear
  repeat' split
  all_goals exact IsStepped.lower hs hn hv _

/-- Two operands are recorded. -/
theorem plays_lowerPair {lhs rhs : Value} (hl : s.Knows lhs) (hr : s.Knows rhs) :
    Plays L (Build.lowerPair lhs rhs : Run (Expr × Expr)) s n fun x s' => s.Grows s' ∧
      x.1.node.index < s'.builder.nodes.size ∧ x.2.node.index < s'.builder.nodes.size := by
  have hknown : ∀ {e : Expr}, s.Knows (.expr e) → e.node.index < s.builder.nodes.size :=
    fun he => Builder.lt_size_of_typeOf? (hs.typed.known _ he)
  unfold Build.lowerPair
  split
  · refine .lift_get_bind (.lift_bind ((plays_lowerNear hs hn hr _).bind ?_))
    exact fun e s₁ n₁ hs₁ hn₁ _ h => .pure hs₁ hn₁ ⟨h.1, h.1.lt_size (hknown hl), h.2⟩
  · refine .lift_get_bind (.lift_bind ((plays_lowerNear hs hn hl _).bind ?_))
    exact fun e s₁ n₁ hs₁ hn₁ _ h => .pure hs₁ hn₁ ⟨h.1, h.2, h.1.lt_size (hknown hr)⟩
  · refine .lift_bind ((plays_lowerNear hs hn hl _).bind fun e s₁ n₁ hs₁ hn₁ _ h => ?_)
    refine .lift_get_bind (.lift_bind ((plays_lowerNear hs₁ hn₁ (h.1.knows hr) _).bind ?_))
    exact fun e s₂ n₂ hs₂ hn₂ _ h' =>
      .pure hs₂ hn₂ ⟨h.1.trans h'.1, h'.1.lt_size h.2, h'.2⟩

/-- The author is given the handles of the parameters that are declared. -/
theorem plays_declareParams {params : List (String × TypeId)}
    (hparams : ∀ p ∈ params, p.2.index < s.builder.types.size) :
    Plays L (Build.declareParams params : Run (List (VarId × Expr))) s n fun xs s' =>
      s.Grows s' ∧ ∀ x ∈ xs, x.2 ∈ s'.known := by
  induction params generalizing s n with
  | nil => exact .pure hs hn ⟨.refl s, by simp⟩
  | cons p params ih =>
      obtain ⟨ht, hrest⟩ := List.forall_mem_cons.mp hparams
      refine .lift_bind ((IsStepped.newVar hs hn p.1 .param nofun none ht).bind ?_)
      rintro x s₁ n₁ hs₁ hn₁ - ⟨hgrows, hx⟩
      have hrest : ∀ p ∈ params, p.2.index < s₁.builder.types.size :=
        fun p hp => Nat.lt_of_lt_of_le (hrest p hp) hgrows.builder.types_size_le
      refine .lift_bind ((ih hs₁ hn₁ hrest).bind ?_)
      rintro xs s₂ n₂ hs₂ hn₂ - ⟨hgrows', hxs⟩
      refine .pure hs₂ hn₂ ⟨hgrows.trans hgrows', ?_⟩
      exact List.forall_mem_cons.mpr ⟨hgrows'.known hx, hxs⟩

/-- The outputs of a stage, whose types are registered, become inputs of the one at hand. -/
theorem plays_inputsFrom (outs : List VarId) :
    Plays L (Build.inputsFrom outs : Run Unit) s n fun _ _ => True := by
  induction outs generalizing s n with
  | nil => exact .pure hs hn trivial
  | cons out rest ih =>
      refine .lift_get_bind ?_
      split
      · rename_i name t location _ _ hout
        have ht := hs.typed.builder.vars out _ hout
        have hinput : Role.input location none ≠ .constant := nofun
        refine .lift_bind ((IsStepped.newVar hs hn name _ hinput none ht).bind ?_)
        rintro x s₁ n₁ hs₁ hn₁ - -
        refine .lift_bind ((IsStepped.inherit x.1 s₁ n₁ hs₁ hn₁).bind ?_)
        exact fun _ s₂ n₂ hs₂ hn₂ _ _ => ih hs₂ hn₂
      · exact .throw hs hn _

end Stepped

end Script

end WebShader
