import WebShader.Proofs.TypedOperations

/-!
# Sessions

The states that a builder can be brought to. A session is a builder together with the handles its
author has been given and the functions that calls have been resolved to; it goes on with any
operation on these handles, failed or not.
-/

namespace WebShader

/-! ## Replies -/

namespace Script

/-- The handle that an operation has given its author. -/
def given : Except ShaderError Reply → List Expr
  | .ok (.expr e _ _) => [e]
  | _ => []

/-! ### Names -/

section Names

variable {n : Notes} {P : Expr → Prop} (hn : ∀ x ∈ n.names, P x.2)

include hn

/-- What holds of all that is named holds of what a name is looked up to. -/
theorem holds_of_exprOf {name : String} {e : Expr} (h : exprOf n name = .ok e) : P e := by
  unfold exprOf at h
  split at h
  · rename_i e' hfind
    obtain ⟨x, hx, rfl⟩ := Option.map_eq_some_iff.mp hfind
    obtain rfl := Except.ok.inj h
    exact hn x (List.mem_of_find?_eq_some hx)
  · cases h

/-- An operand is a value that holds. -/
theorem holds_of_value {o : Operand} {v : Value} (h : o.value n = .ok v) : v.Holds P := by
  cases o with
  | host v' =>
      obtain rfl := Except.ok.inj h
      trivial
  | named name =>
      rw [Operand.value] at h
      cases hexpr : exprOf n name with
      | error e =>
          rw [hexpr] at h
          cases h
      | ok e =>
          rw [hexpr] at h
          obtain rfl := Except.ok.inj h
          exact holds_of_exprOf hn hexpr

/-- Operands are values that hold. -/
theorem holds_of_values {os : List Operand} {vs : List Value} (h : os.mapM (·.value n) = .ok vs) :
    ∀ v ∈ vs, v.Holds P := forall_of_mapM h fun _ _ _ ho => holds_of_value hn ho

end Names

end Script

/-! ## Operations -/

namespace Script

open Authoring

/-- From a typed builder, an operation of a script leaves a typed builder that extends it, failed or
not, and gives a handle that carries the type of its expression. -/
def Gives (act : Run Reply) (callees : Callees) (b : Builder) (n : Notes) : Prop :=
  b.Extends (act.runFrom (b, n)).2.1 ∧ (act.runFrom (b, n)).2.1.Typed callees ∧
    ∀ e ∈ given (act.runFrom (b, n)).1, (act.runFrom (b, n)).2.1.Carries e

variable {callees : Callees} {b : Builder} {n n' : Notes}

/-- A run without effect on the builder gives what its reply does. -/
theorem Gives.of_run {act : Run Reply} {reply : Reply} (hb : b.Typed callees)
    (hrun : act.runFrom (b, n) = (.ok reply, (b, n'))) (h : ∀ e ∈ given (.ok reply), b.Carries e) :
    Gives act callees b n := by
  unfold Gives
  rw [hrun]
  exact ⟨.refl b, hb, h⟩

/-- What follows an operation of the builder. -/
theorem Gives.lift_bind {α : Type} {act : Build α} {f : α → Run Reply} {post : α → Builder → Prop}
    (h : act.Ensures callees b post)
    (hf : ∀ a b', b'.Typed callees → post a b' → Gives (f a) callees b' n) :
    Gives ((act : Run α) >>= f) callees b n := by
  obtain ⟨hext, hb', hpost⟩ := h
  unfold Gives
  rw [runFrom_bind, runFrom_lift]
  rcases hrun : b.run act with ⟨fault | a, b'⟩
  · rw [hrun] at hext hb'
    exact ⟨hext, hb', by simp [given]⟩
  · rw [hrun] at hext hb'
    obtain ⟨hext', hb'', hgiven⟩ := hf a b' hb' (hpost a b' hrun)
    exact ⟨hext.trans hext', hb'', hgiven⟩

/-- A reply gives what it says. -/
theorem gives_reply (hb : b.Typed callees) {reply : Reply}
    (h : ∀ e ∈ given (.ok reply), b.Carries e) :
    Gives (pure reply) callees b n := .of_run hb rfl h

/-- An expression that is shown is given. -/
theorem gives_showExpr (hb : b.Typed callees) {e : Expr} (he : b.Carries e) :
    Gives (showExpr e) callees b n := by
  refine .of_run hb rfl fun e' he' => ?_
  rw [List.mem_singleton.mp he']
  exact he

theorem ensures_current (hb : b.Typed callees) :
    Build.current.Ensures callees b fun b' b'' => b' = b ∧ b'' = b :=
  .of_run rfl (.refl b) hb ⟨rfl, rfl⟩

/-- The result of an operation is given. -/
theorem gives_showResult {act : Build Expr} (h : act.Ensures callees b fun e b' => b'.Carries e) :
    Gives (showResult act) callees b n :=
  .lift_bind h fun _ _ hb' he => gives_showExpr hb' he

/-- An operation without a result gives nothing. -/
theorem gives_quietly {act : Build Unit} (h : act.Ensures callees b fun _ _ => True) :
    Gives (quietly act) callees b n :=
  .lift_bind h fun _ _ hb' _ => gives_reply hb' (by simp [given])

/-- An answer gives nothing. -/
theorem gives_answer (hb : b.Typed callees) {f : Builder → Reply}
    (hf : ∀ b', given (.ok (f b')) = []) : Gives (answer f) callees b n :=
  .lift_bind (ensures_current hb) fun b' _ hb' _ => gives_reply hb' (by simp [hf])

/-- What is found is given. -/
theorem gives_showOption (hb : b.Typed callees) {find : Builder → Option Expr}
    (hfind : ∀ e, find b = some e → b.Carries e) : Gives (showOption find) callees b n := by
  refine .lift_bind (ensures_current hb) ?_
  rintro b' b'' hb' ⟨rfl, rfl⟩
  split
  · exact gives_showExpr hb' (hfind _ ‹_›)
  · exact gives_reply hb' (by simp [given])

/-- A type gives no handle. -/
theorem gives_showType (hb : b.Typed callees) (shape : TypeShape) :
    Gives (Operation.showType shape) callees b n :=
  .lift_bind (Build.ensures_type hb shape) fun _ _ hb' _ => gives_answer hb' fun _ => rfl

/-- Every operation but a reset keeps a builder typed. -/
theorem gives_operation (hb : b.Typed callees)
    (hcallees : ∀ n f, b.nodes.size ≤ n.index → callees n f = b.function? f)
    (hn : ∀ x ∈ n.names, b.Carries x.2) {op : Operation} (hop : op ≠ .reset) {act : Run Reply}
    (h : op.action n = .ok act) : Gives act callees b n' := by
  have hexpr : ∀ {name e}, exprOf n name = .ok e → b.Carries e := holds_of_exprOf hn
  have hvalue : ∀ {o v}, Operand.value n o = .ok v → b.Knows v := holds_of_value hn
  cases op with
  | reset => exact absurd rfl hop
  | lastError | currentStage | builder | structNamed =>
      obtain rfl := Except.ok.inj h
      exact gives_answer hb fun _ => rfl
  | type shape =>
      obtain rfl := Except.ok.inj h
      exact gives_showType hb shape
  | vertexInput name shape semantic =>
      obtain rfl := Except.ok.inj h
      exact gives_showResult (Build.ensures_vertexInput hb name shape semantic)
  | output name shape =>
      obtain rfl := Except.ok.inj h
      exact gives_showResult (Build.ensures_output hb name shape)
  | uniform name shape group =>
      obtain rfl := Except.ok.inj h
      exact gives_showResult (Build.ensures_uniform hb name shape group)
  | uniformTexture name texture group =>
      obtain rfl := Except.ok.inj h
      exact gives_showResult (Build.ensures_uniformTexture hb name texture group)
  | uniformSampler name kind group =>
      obtain rfl := Except.ok.inj h
      exact gives_showResult (Build.ensures_uniformSampler hb name kind group)
  | storage name shape group readOnly =>
      obtain rfl := Except.ok.inj h
      exact gives_showResult (Build.ensures_storage hb name shape group readOnly)
  | workgroup name shape =>
      obtain rfl := Except.ok.inj h
      exact gives_showResult (Build.ensures_workgroup hb name shape)
  | constant name o =>
      obtain ⟨v, hv, h⟩ := bind_eq_ok_iff.mp h
      obtain rfl := Except.ok.inj h
      exact gives_showResult (Build.ensures_constant hb name (hvalue hv))
  | declareLocal name o =>
      obtain ⟨v, hv, h⟩ := bind_eq_ok_iff.mp h
      obtain rfl := Except.ok.inj h
      exact gives_showResult (Build.ensures_declareLocal hb name (hvalue hv))
  | declareVar name shape =>
      obtain rfl := Except.ok.inj h
      exact gives_showResult (Build.ensures_declareVar hb name shape)
  | assignNamed name o =>
      obtain ⟨v, hv, h⟩ := bind_eq_ok_iff.mp h
      obtain rfl := Except.ok.inj h
      exact gives_showResult (Build.ensures_assignNamed hb name (hvalue hv))
  | resolve name =>
      obtain rfl := Except.ok.inj h
      exact gives_showResult (Build.ensures_resolve hb name)
  | lookup name =>
      obtain rfl := Except.ok.inj h
      exact gives_showOption hb fun _ => hb.carries_of_lookup
  | workgroupSize x y z =>
      obtain rfl := Except.ok.inj h
      exact gives_quietly (.rearranges hb (Build.rearranges_setWorkgroupSize x y z))
  | builtin x =>
      obtain rfl := Except.ok.inj h
      exact gives_showResult (Build.ensures_builtin hb x)
  | assign target o =>
      obtain ⟨e, he, h⟩ := bind_eq_ok_iff.mp h
      obtain ⟨v, hv, h⟩ := bind_eq_ok_iff.mp h
      obtain rfl := Except.ok.inj h
      exact gives_quietly (Build.ensures_assign hb e (hvalue hv))
  | assignOp target op o =>
      obtain ⟨e, he, h⟩ := bind_eq_ok_iff.mp h
      obtain ⟨v, hv, h⟩ := bind_eq_ok_iff.mp h
      obtain rfl := Except.ok.inj h
      exact gives_quietly (Build.ensures_assignOp hb (hexpr he) op (hvalue hv))
  | assignBuiltin x o =>
      obtain ⟨v, hv, h⟩ := bind_eq_ok_iff.mp h
      obtain rfl := Except.ok.inj h
      exact gives_quietly (Build.ensures_assignBuiltin hb x (hvalue hv))
  | eval name =>
      obtain ⟨e, he, h⟩ := bind_eq_ok_iff.mp h
      obtain rfl := Except.ok.inj h
      exact gives_quietly (.rearranges hb (Build.rearranges_emit _))
  | literal o =>
      obtain ⟨v, hv, h⟩ := bind_eq_ok_iff.mp h
      obtain rfl := Except.ok.inj h
      exact gives_showResult ((Build.ensures_lower hb (hvalue hv) none).mono fun _ _ _ h => h.1)
  | binary op lhs rhs =>
      obtain ⟨l, hl, h⟩ := bind_eq_ok_iff.mp h
      obtain ⟨r, hr, h⟩ := bind_eq_ok_iff.mp h
      obtain rfl := Except.ok.inj h
      exact gives_showResult (Build.ensures_binary hb op (hvalue hl) (hvalue hr))
  | unary op o =>
      obtain ⟨v, hv, h⟩ := bind_eq_ok_iff.mp h
      obtain rfl := Except.ok.inj h
      exact gives_showResult (Build.ensures_unary hb op (hvalue hv))
  | cast o k =>
      obtain ⟨v, hv, h⟩ := bind_eq_ok_iff.mp h
      obtain rfl := Except.ok.inj h
      exact gives_showResult (Build.ensures_cast hb (hvalue hv) k)
  | member base name =>
      obtain ⟨e, he, h⟩ := bind_eq_ok_iff.mp h
      obtain rfl := Except.ok.inj h
      exact gives_showResult (Build.ensures_member hb (hexpr he) name)
  | swizzle base mask =>
      obtain ⟨e, he, h⟩ := bind_eq_ok_iff.mp h
      obtain rfl := Except.ok.inj h
      exact gives_showResult (Build.ensures_swizzle hb (hexpr he) mask)
  | element base o =>
      obtain ⟨e, he, h⟩ := bind_eq_ok_iff.mp h
      obtain ⟨v, hv, h⟩ := bind_eq_ok_iff.mp h
      obtain rfl := Except.ok.inj h
      exact gives_showResult (Build.ensures_at hb (hexpr he) (hvalue hv))
  | addressOf name =>
      obtain ⟨e, he, h⟩ := bind_eq_ok_iff.mp h
      obtain rfl := Except.ok.inj h
      exact gives_showResult (Build.ensures_addressOf hb (hexpr he))
  | deref name =>
      obtain ⟨e, he, h⟩ := bind_eq_ok_iff.mp h
      obtain rfl := Except.ok.inj h
      exact gives_showResult (Build.ensures_deref hb (hexpr he))
  | construct shape os =>
      obtain ⟨vs, hvs, h⟩ := bind_eq_ok_iff.mp h
      obtain rfl := Except.ok.inj h
      exact gives_showResult (Build.ensures_construct hb shape (holds_of_values hn hvs))
  | intrinsic f os =>
      obtain ⟨vs, hvs, h⟩ := bind_eq_ok_iff.mp h
      obtain rfl := Except.ok.inj h
      exact gives_showResult (Build.ensures_intrinsic hb f (holds_of_values hn hvs))
  | call f os =>
      obtain ⟨vs, hvs, h⟩ := bind_eq_ok_iff.mp h
      obtain rfl := Except.ok.inj h
      exact gives_showResult (Build.ensures_call hb hcallees f (holds_of_values hn hvs))
  | returnValue o =>
      obtain ⟨v, hv, h⟩ := bind_eq_ok_iff.mp h
      obtain rfl := Except.ok.inj h
      exact gives_quietly (Build.ensures_returnValue hb (hvalue hv))
  | returnVoid =>
      obtain rfl := Except.ok.inj h
      exact gives_quietly (.rearranges hb Build.rearranges_returnVoid)
  | breakLoop =>
      obtain rfl := Except.ok.inj h
      exact gives_quietly (.rearranges hb Build.rearranges_breakLoop)
  | continueLoop =>
      obtain rfl := Except.ok.inj h
      exact gives_quietly (.rearranges hb Build.rearranges_continueLoop)
  | discard =>
      obtain rfl := Except.ok.inj h
      exact gives_quietly (.rearranges hb Build.rearranges_discard)
  | tag name path =>
      obtain ⟨e, he, h⟩ := bind_eq_ok_iff.mp h
      obtain rfl := Except.ok.inj h
      exact gives_quietly (Build.ensures_tag hb (hexpr he) path)
  | tagged path =>
      obtain rfl := Except.ok.inj h
      exact gives_showOption hb fun _ => hb.carries_of_tagged
  | tagsOf name =>
      obtain ⟨e, he, h⟩ := bind_eq_ok_iff.mp h
      obtain rfl := Except.ok.inj h
      exact gives_answer hb fun _ => rfl
  | info name =>
      obtain ⟨e, he, h⟩ := bind_eq_ok_iff.mp h
      obtain rfl := Except.ok.inj h
      exact gives_answer hb fun _ => rfl

end Script

/-! ## Sessions -/

/-- A builder with the handles that its author has been given and the functions that calls have been
resolved to. -/
structure Session where
  builder : Builder
  known : List Expr := []
  callees : Callees := fun _ _ => none

namespace Session

/-- The functions that calls have been resolved to, those that come next being resolved among the
functions of the stage at hand. -/
def resolved (s : Session) : Callees := fun n =>
  if n.index < s.builder.nodes.size then s.callees n else s.builder.function?

/-- The session after an operation that has left a builder and given handles. -/
def after (s : Session) (b : Builder) (handles : List Expr) : Session :=
  ⟨b, handles ++ s.known, s.resolved⟩

/-- The author knows what the names of a script stand for. -/
def KnowsNames (s : Session) (n : Script.Notes) : Prop := ∀ x ∈ n.names, x.2 ∈ s.known

/-- A handle among the operands was given before. -/
def Knows (s : Session) (v : Value) : Prop := v.Holds (· ∈ s.known)

/-- The sessions that operations lead to, from a new builder. Operations are those of scripts on
handles that the author knows. The bodies of stages, functions and statements are opened and closed
by finer steps: a condition or a bound is lowered, a parameter or a counter is declared, a stage is
opened, and the builder is rearranged. -/
inductive Reachable : Session → Prop
  | new (config : Config) : Reachable { builder := .new config }
  | reset {s : Session} : Reachable s → Reachable { builder := s.builder.reset }
  | operation {s : Session} {n n' : Script.Notes} {op : Script.Operation}
      {act : Script.Run Script.Reply} : Reachable s → s.KnowsNames n → op ≠ .reset →
      op.action n = .ok act → Reachable (s.after (act.runFrom (s.builder, n')).2.1
        (Script.given (act.runFrom (s.builder, n')).1))
  | lower {s : Session} {v : Value} (hint : Option ScalarKind) : Reachable s → s.Knows v →
      Reachable (s.after (s.builder.run (Build.lower v hint)).2 [])
  | declare {s : Session} {t : TypeId} (name : String) (role : Role) (init : Option NodeId) :
      Reachable s → t.index < s.builder.types.size →
      Reachable (s.after (s.builder.run (Build.newVar name t role init)).2
        ((s.builder.run (Build.newVar name t role init)).1.toOption.toList.map (·.2)))
  | opened {s : Session} (which : Stage) : Reachable s →
      Reachable (s.after (s.builder.opened which) [])
  | rearranged {s : Session} {b : Builder} : Reachable s → s.builder.Rearranges b →
      Reachable (s.after b [])

/-! ## Typed sessions -/

/-- The builder of a session is typed, and the handles that its author knows carry the types of
their expressions. -/
structure Typed (s : Session) : Prop where
  builder : s.builder.Typed s.callees
  known : ∀ e ∈ s.known, s.builder.Carries e

variable {s : Session}

/-- Recorded calls stay resolved. -/
theorem resolved_of_lt {n : NodeId} (hn : n.index < s.builder.nodes.size) :
    s.resolved n = s.callees n := if_pos hn

/-- Calls that are recorded later are resolved by the functions at hand. -/
theorem resolved_of_le {n : NodeId} (hn : s.builder.nodes.size ≤ n.index) (f : FunctionId) :
    s.resolved n f = s.builder.function? f := by
  rw [resolved, if_neg (Nat.not_lt.mpr hn)]

/-- The calls recorded so far do not depend on how those that come next are resolved. -/
theorem Typed.resolved (h : s.Typed) : s.builder.Typed s.resolved where
  toHasSoundTypes := h.builder.toHasSoundTypes
  dictated n node hn := by
    refine (h.builder.dictated n node hn).of_callees (resolved_of_lt ?_)
    exact (Array.getElem?_eq_some_iff.mp hn).1
  descends := h.builder.descends
  handles := h.builder.handles

/-- A session stays typed when its builder extends to a typed one. -/
theorem Typed.after (h : s.Typed) {b : Builder} {handles : List Expr} (hext : s.builder.Extends b)
    (hb : b.Typed s.resolved) (hhandles : ∀ e ∈ handles, b.Carries e) :
    (s.after b handles).Typed where
  builder := hb
  known e he := by
    rcases List.mem_append.mp he with he | he
    · exact hhandles e he
    · exact (h.known e he).of_extends hext

/-- What the session knows, its builder does. -/
theorem Typed.knows (h : s.Typed) {v : Value} (hv : s.Knows v) : s.builder.Knows v :=
  Value.Holds.imp hv h.known

/-- A new session is typed. -/
theorem typed_new (config : Config) (lastError : Option String) (remarks : List Remark) :
    Typed { builder := { Builder.new config with lastError, remarks } } := by
  refine ⟨⟨⟨Registry.sound_empty, ?_⟩, ?_, ?_, ?_⟩, by simp⟩
  · intro v d hv
    simp [Builder.var?, Builder.new] at hv
  · intro n node hn
    simp [Builder.node?, Builder.new] at hn
  · intro n node hn
    simp [Builder.node?, Builder.new] at hn
  · intro e he
    simp [Builder.handles, Builder.new] at he

/-- A new stage gives out no handle. -/
theorem Typed.opened (h : s.Typed) (which : Stage) :
    (s.builder.opened which).Typed s.resolved := by
  refine h.resolved.of_shares (.of_eq rfl rfl rfl rfl) fun e he => ?_
  rcases Builder.mem_handles_iff.mp he with haccess | ⟨s', hs', he⟩
  · exact h.builder.handles e (Builder.mem_handles_iff.mpr (Or.inl haccess))
  · obtain rfl := Option.some.inj hs'
    simp [OpenStage.handles] at he

/-- Every reachable session is typed. -/
theorem Reachable.typed (h : s.Reachable) : s.Typed := by
  induction h with
  | new config => exact typed_new config none []
  | @reset s _ => exact typed_new s.builder.config s.builder.lastError s.builder.remarks
  | operation _ hn hop hact ih =>
      have hnames := fun x hx => ih.known _ (hn x hx)
      obtain ⟨hext, hb, hgiven⟩ :=
        Script.gives_operation ih.resolved (fun _ f hle => resolved_of_le hle f) hnames hop hact
      exact ih.after hext hb hgiven
  | lower hint _ hv ih =>
      obtain ⟨hext, hb, -⟩ := Build.ensures_lower ih.resolved (ih.knows hv) hint
      exact ih.after hext hb (by simp)
  | @declare s t name role init _ ht ih =>
      obtain ⟨hext, hb, hpost⟩ := Build.ensures_newVar ih.resolved name role init ht
      refine ih.after hext hb fun e he => ?_
      obtain ⟨x, hx, rfl⟩ := List.mem_map.mp he
      rcases hrun : s.builder.run (Build.newVar name t role init) with ⟨_ | y, b'⟩
      · rw [hrun] at hx
        cases hx
      · rw [hrun] at hx
        rw [List.mem_singleton.mp hx]
        exact (hpost y b' hrun).1
  | @opened s which _ ih =>
      have hshares : s.builder.Shares (s.builder.opened which) := .of_eq rfl rfl rfl rfl
      exact ih.after hshares.extends (ih.opened which) (by simp)
  | rearranged _ hb ih =>
      exact ih.after hb.extends (ih.resolved.of_rearranges hb) (by simp)

end Session

end WebShader
