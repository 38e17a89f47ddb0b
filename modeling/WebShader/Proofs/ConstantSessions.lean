import WebShader.Proofs.ConstantOrder
import WebShader.Proofs.TypedScripts

/-!
# Sessions that declare constants

Whatever a script does while a stage is open, its author can only reach the constants of the stage
that have been declared, and these stay in their order: operations work on handles that have been
given, and the bodies of functions and statements open and close without declaring a constant.
-/

namespace WebShader

/-! ## Operations of scripts -/

namespace Script

open Authoring Session

/-- From a builder that keeps to a reach, a run leaves one that does, failed or not, and shows a
handle that is within reach. -/
def KeepsTo (act : Run Reply) (r : Reach) : Prop :=
  ∀ s : Builder × Notes, s.1.KeepsTo r →
    (act.runFrom s).2.1.KeepsTo r ∧ ∀ e ∈ given (act.runFrom s).1, r.Has e

section Operations

variable {α : Type} {r : Reach} {n : Notes} {post : α → Prop}

/-- What follows an operation of the builder may use what it gives. -/
theorem KeepsTo.lift_bind {act : Build α} {f : α → Run Reply} (h : act.KeepsTo r post)
    (hf : ∀ a, post a → KeepsTo (f a) r) : KeepsTo ((act : Run α) >>= f) r := by
  rintro ⟨b, n⟩ hb
  obtain ⟨hb', hpost⟩ := h b hb
  rw [runFrom_bind, runFrom_lift]
  rcases hrun : b.run act with ⟨e | a, b'⟩
  · rw [hrun] at hb'
    exact ⟨hb', by simp [given]⟩
  · rw [hrun] at hb' hpost
    exact hf a (hpost a rfl) (b', n) hb'

theorem keepsTo_reply {reply : Reply} (h : ∀ e ∈ given (.ok reply), r.Has e) :
    KeepsTo (pure reply) r := fun _ hb => ⟨hb, h⟩

theorem keepsTo_showExpr {e : Expr} (he : r.Has e) : KeepsTo (showExpr e) r :=
  fun _ hb => ⟨hb, List.forall_mem_singleton.mpr he⟩

theorem keepsTo_showResult {act : Build Expr} (h : act.KeepsTo r r.Has) :
    KeepsTo (showResult act) r := .lift_bind h fun _ => keepsTo_showExpr

theorem keepsTo_quietly {act : Build Unit} {post : Unit → Prop} (h : act.KeepsTo r post) :
    KeepsTo (quietly act) r := .lift_bind h fun _ _ => keepsTo_reply (by simp [given])

/-- What is looked up in the builder. -/
theorem keepsTo_current_bind {f : Builder → Run Reply}
    (hf : ∀ b : Builder, b.KeepsTo r → KeepsTo (f b) r) :
    KeepsTo ((Build.current : Run Builder) >>= f) r := by
  have hcurrent : Build.current.KeepsTo r (Builder.KeepsTo r) :=
    fun _ hb => ⟨hb, fun _ ha => Except.ok.inj ha ▸ hb⟩
  exact .lift_bind hcurrent hf

theorem keepsTo_answer {f : Builder → Reply} (hf : ∀ b, given (.ok (f b)) = []) :
    KeepsTo (answer f) r :=
  keepsTo_current_bind fun b _ => keepsTo_reply (by simp [hf])

theorem keepsTo_showOption {find : Builder → Option Expr}
    (hfind : ∀ (b : Builder) e, find b = some e → e ∈ b.handles) : KeepsTo (showOption find) r := by
  refine keepsTo_current_bind fun b hb => ?_
  split
  · exact keepsTo_showExpr (hb.handles _ (hfind b _ ‹_›))
  · exact keepsTo_reply (by simp [given])

theorem keepsTo_showType (shape : TypeShape) : KeepsTo (Operation.showType shape) r :=
  .lift_bind (.conserves (Build.conserves_type shape)) fun _ _ => keepsTo_answer fun _ => rfl

/-- Every operation on handles that are within reach keeps to it, but for a reset and the
declaration of a constant. -/
theorem keepsTo_operation (hn : ∀ x ∈ n.names, r.Has x.2) {op : Operation} (hreset : op ≠ .reset)
    (hconstant : ∀ name o, op ≠ .constant name o) {act : Run Reply}
    (h : op.action n = .ok act) : KeepsTo act r := by
  have hexpr : ∀ {name e}, exprOf n name = .ok e → r.Has e := holds_of_exprOf hn
  have hvalue : ∀ {o v}, Operand.value n o = .ok v → v.Holds r.Has := holds_of_value hn
  cases op with
  | reset => exact absurd rfl hreset
  | constant name o => exact absurd rfl (hconstant name o)
  | lastError | currentStage | builder | structNamed =>
      obtain rfl := Except.ok.inj h
      exact keepsTo_answer fun _ => rfl
  | type shape =>
      obtain rfl := Except.ok.inj h
      exact keepsTo_showType shape
  | vertexInput name shape semantic =>
      obtain rfl := Except.ok.inj h
      exact keepsTo_showResult (Build.keepsTo_vertexInput name shape semantic)
  | output name shape =>
      obtain rfl := Except.ok.inj h
      exact keepsTo_showResult (Build.keepsTo_output name shape)
  | uniform name shape group =>
      obtain rfl := Except.ok.inj h
      exact keepsTo_showResult (Build.keepsTo_uniform name shape group)
  | uniformTexture name texture group =>
      obtain rfl := Except.ok.inj h
      exact keepsTo_showResult (Build.keepsTo_uniformTexture name texture group)
  | uniformSampler name kind group =>
      obtain rfl := Except.ok.inj h
      exact keepsTo_showResult (Build.keepsTo_uniformSampler name kind group)
  | storage name shape group readOnly =>
      obtain rfl := Except.ok.inj h
      exact keepsTo_showResult (Build.keepsTo_storage name shape group readOnly)
  | workgroup name shape =>
      obtain rfl := Except.ok.inj h
      exact keepsTo_showResult (Build.keepsTo_workgroup name shape)
  | declareLocal name o =>
      obtain ⟨v, hv, h⟩ := bind_eq_ok_iff.mp h
      obtain rfl := Except.ok.inj h
      exact keepsTo_showResult (Build.keepsTo_declareLocal name (hvalue hv))
  | declareVar name shape =>
      obtain rfl := Except.ok.inj h
      exact keepsTo_showResult (Build.keepsTo_declareVar name shape)
  | assignNamed name o =>
      obtain ⟨v, hv, h⟩ := bind_eq_ok_iff.mp h
      obtain rfl := Except.ok.inj h
      exact keepsTo_showResult (Build.keepsTo_assignNamed name (hvalue hv))
  | resolve name =>
      obtain rfl := Except.ok.inj h
      exact keepsTo_showResult (Build.keepsTo_resolve name)
  | lookup name =>
      obtain rfl := Except.ok.inj h
      exact keepsTo_showOption fun _ _ => Builder.mem_handles_of_lookup
  | workgroupSize x y z =>
      obtain rfl := Except.ok.inj h
      exact keepsTo_quietly (.conserves (Build.conserves_setWorkgroupSize x y z))
  | builtin x =>
      obtain rfl := Except.ok.inj h
      exact keepsTo_showResult (Build.keepsTo_builtin x)
  | assign target o =>
      obtain ⟨e, -, h⟩ := bind_eq_ok_iff.mp h
      obtain ⟨v, hv, h⟩ := bind_eq_ok_iff.mp h
      obtain rfl := Except.ok.inj h
      exact keepsTo_quietly (Build.keepsTo_assign e (hvalue hv))
  | assignOp target op o =>
      obtain ⟨e, -, h⟩ := bind_eq_ok_iff.mp h
      obtain ⟨v, hv, h⟩ := bind_eq_ok_iff.mp h
      obtain rfl := Except.ok.inj h
      exact keepsTo_quietly (Build.keepsTo_assignOp e op (hvalue hv))
  | assignBuiltin x o =>
      obtain ⟨v, hv, h⟩ := bind_eq_ok_iff.mp h
      obtain rfl := Except.ok.inj h
      exact keepsTo_quietly (Build.keepsTo_assignBuiltin x (hvalue hv))
  | eval name =>
      obtain ⟨e, -, h⟩ := bind_eq_ok_iff.mp h
      obtain rfl := Except.ok.inj h
      exact keepsTo_quietly (.conserves (Build.conserves_emit _))
  | literal o =>
      obtain ⟨v, hv, h⟩ := bind_eq_ok_iff.mp h
      obtain rfl := Except.ok.inj h
      exact keepsTo_showResult (Build.keepsTo_lower (hvalue hv) none)
  | binary op lhs rhs =>
      obtain ⟨l, hl, h⟩ := bind_eq_ok_iff.mp h
      obtain ⟨r, hr, h⟩ := bind_eq_ok_iff.mp h
      obtain rfl := Except.ok.inj h
      exact keepsTo_showResult (Build.keepsTo_binary op (hvalue hl) (hvalue hr))
  | unary op o =>
      obtain ⟨v, hv, h⟩ := bind_eq_ok_iff.mp h
      obtain rfl := Except.ok.inj h
      exact keepsTo_showResult (Build.keepsTo_unary op (hvalue hv))
  | cast o k =>
      obtain ⟨v, hv, h⟩ := bind_eq_ok_iff.mp h
      obtain rfl := Except.ok.inj h
      exact keepsTo_showResult (Build.keepsTo_cast (hvalue hv) k)
  | member base name =>
      obtain ⟨e, he, h⟩ := bind_eq_ok_iff.mp h
      obtain rfl := Except.ok.inj h
      exact keepsTo_showResult (Build.keepsTo_member (hexpr he) name)
  | swizzle base mask =>
      obtain ⟨e, he, h⟩ := bind_eq_ok_iff.mp h
      obtain rfl := Except.ok.inj h
      exact keepsTo_showResult (Build.keepsTo_swizzle (hexpr he) mask)
  | element base o =>
      obtain ⟨e, he, h⟩ := bind_eq_ok_iff.mp h
      obtain ⟨v, hv, h⟩ := bind_eq_ok_iff.mp h
      obtain rfl := Except.ok.inj h
      exact keepsTo_showResult (Build.keepsTo_at (hexpr he) (hvalue hv))
  | addressOf name =>
      obtain ⟨e, he, h⟩ := bind_eq_ok_iff.mp h
      obtain rfl := Except.ok.inj h
      exact keepsTo_showResult (Build.keepsTo_addressOf (hexpr he))
  | deref name =>
      obtain ⟨e, he, h⟩ := bind_eq_ok_iff.mp h
      obtain rfl := Except.ok.inj h
      exact keepsTo_showResult (Build.keepsTo_deref (hexpr he))
  | construct shape os =>
      obtain ⟨vs, hvs, h⟩ := bind_eq_ok_iff.mp h
      obtain rfl := Except.ok.inj h
      exact keepsTo_showResult (Build.keepsTo_construct shape (holds_of_values hn hvs))
  | intrinsic f os =>
      obtain ⟨vs, hvs, h⟩ := bind_eq_ok_iff.mp h
      obtain rfl := Except.ok.inj h
      exact keepsTo_showResult (Build.keepsTo_intrinsic f (holds_of_values hn hvs))
  | call f os =>
      obtain ⟨vs, hvs, h⟩ := bind_eq_ok_iff.mp h
      obtain rfl := Except.ok.inj h
      exact keepsTo_showResult (Build.keepsTo_call f (holds_of_values hn hvs))
  | returnValue o =>
      obtain ⟨v, hv, h⟩ := bind_eq_ok_iff.mp h
      obtain rfl := Except.ok.inj h
      exact keepsTo_quietly (Build.keepsTo_returnValue (hvalue hv))
  | returnVoid =>
      obtain rfl := Except.ok.inj h
      exact keepsTo_quietly (.conserves Build.conserves_returnVoid)
  | breakLoop =>
      obtain rfl := Except.ok.inj h
      exact keepsTo_quietly (.conserves Build.conserves_breakLoop)
  | continueLoop =>
      obtain rfl := Except.ok.inj h
      exact keepsTo_quietly (.conserves Build.conserves_continueLoop)
  | discard =>
      obtain rfl := Except.ok.inj h
      exact keepsTo_quietly (.conserves Build.conserves_discard)
  | tag name path =>
      obtain ⟨e, he, h⟩ := bind_eq_ok_iff.mp h
      obtain rfl := Except.ok.inj h
      exact keepsTo_quietly (Build.keepsTo_tag (hexpr he) path)
  | tagged path =>
      obtain rfl := Except.ok.inj h
      exact keepsTo_showOption fun _ _ => Builder.mem_handles_of_tagged
  | tagsOf name =>
      obtain ⟨e, -, h⟩ := bind_eq_ok_iff.mp h
      obtain rfl := Except.ok.inj h
      exact keepsTo_answer fun _ => rfl
  | info name =>
      obtain ⟨e, -, h⟩ := bind_eq_ok_iff.mp h
      obtain rfl := Except.ok.inj h
      exact keepsTo_answer fun _ => rfl

end Operations

end Script

/-! ## Sessions -/

namespace Session

open Script

variable {s s' : Session} {n n' : Notes} {start : Nat}

/-- While a stage is open, the author of a session can reach its constants alone, which are
initialized in their order. -/
def OrdersConstants (start : Nat) (s : Session) : Prop :=
  s.builder.stage ≠ none → s.builder.OrdersConstants start s.known

/-- A later session that orders its constants if the one before does. -/
def KeepsConstants (start : Nat) (s s' : Session) : Prop :=
  s.Later s' ∧ (s.OrdersConstants start → s'.OrdersConstants start)

instance : IsPreorder Session (KeepsConstants start) where
  refl s := ⟨refl_of Later s, id⟩
  trans _ _ _ h h' := ⟨trans_of Later h.1 h'.1, fun hs => h'.2 (h.2 hs)⟩

/-- A step that orders the constants of a builder. -/
theorem goesOn_keepsConstants {b : Builder} {handles : List Expr}
    (h : s.builder.Extends b → s.builder.OrdersConstants start s.known →
      b.OrdersConstants start (handles ++ s.known)) :
    s.GoesOn (KeepsConstants start) b handles :=
  fun hext hstage => ⟨⟨hstage, Or.inl (grows_after hext handles)⟩,
    fun hs hb => h hext (hs fun hnone => hb (hstage hnone))⟩

/-- Every operation on handles that the author knows orders the constants. -/
theorem ordersConstants_operation (hs : s.Reachable) (hn : s.KnowsNames n) {op : Operation}
    (hreset : op ≠ .reset) {act : Run Reply} (h : op.action n = .ok act)
    (hordered : s.builder.OrdersConstants start s.known) :
    (act.runFrom (s.builder, n')).2.1.OrdersConstants start
      (given (act.runFrom (s.builder, n')).1 ++ s.known) := by
  have htyped := hs.typed
  by_cases hconstant : ∃ name o, op = .constant name o
  · obtain ⟨name, o, rfl⟩ := hconstant
    obtain ⟨v, hv, h⟩ := bind_eq_ok_iff.mp h
    have hdeclared := Build.ordersConstants_constant htyped.builder hordered htyped.known name
      (holds_of_value hn hv)
    rw [← Except.ok.inj h, showResult, Authoring.runFrom_bind, Authoring.runFrom_lift]
    rcases hrun : s.builder.run (Build.constant name v) with ⟨e | e, b⟩
    · rw [hrun] at hdeclared
      exact hdeclared
    · rw [hrun] at hdeclared
      exact hdeclared
  · have hgives : Gives act s.resolved s.builder n' := gives_operation htyped.resolved
      (fun _ f hle => resolved_of_le hle f) (fun x hx => htyped.known _ (hn x hx)) hreset h
    refine hordered.of_keepsTo htyped.builder hgives.1 fun r hr hknown => ?_
    have hnames : ∀ x ∈ n.names, r.Has x.2 := fun x hx => hknown _ (hn x hx)
    exact keepsTo_operation hnames hreset (fun name o hop => hconstant ⟨name, o, hop⟩) h
      (s.builder, n') hr

end Session

/-! ## Parts of sessions -/

namespace Script

open Authoring Session

variable {α : Type} {s : Session} {n : Notes} {start : Nat}

section Steps

variable (hs : s.Reachable) (hn : s.KnowsNames n)

include hs hn

/-- A step that neither builds on anything nor declares a constant. -/
theorem keepsConstants_conserves {act : Build α} (hact : Build.Rearranges act)
    (hconserves : Build.Conserves act) :
    Plays (KeepsConstants start) act s n fun a s' =>
      s.Grows s' ∧ s.builder.run act = (.ok a, s'.builder) :=
  plays_rearranged hs hn hact <| goesOn_keepsConstants fun hext h =>
    h.of_keepsTo hs.typed.builder hext fun r hr _ => ⟨hr.conserves (hconserves _), by simp⟩

theorem keepsConstants_lower {v : Value} (hv : s.Knows v) (hint : Option ScalarKind) :
    Plays (KeepsConstants start) (Build.lower v hint : Run Expr) s n fun e s' =>
      s.Grows s' ∧ e.node.index < s'.builder.nodes.size := by
  refine plays_lower hs hn hv hint <| goesOn_keepsConstants fun hext h =>
    h.of_keepsTo hs.typed.builder hext fun r hr hknown => ⟨?_, by simp⟩
  exact (Build.keepsTo_lower (hv.imp hknown) hint s.builder hr).1

theorem keepsConstants_newVar (name : String) {t : TypeId} (role : Role) (hrole : role ≠ .constant)
    (init : Option NodeId) (ht : t.index < s.builder.types.size) :
    Plays (KeepsConstants start) (Build.newVar name t role init : Run (VarId × Expr)) s n
      fun x s' => s.Grows s' ∧ x.2 ∈ s'.known := by
  refine plays_newVar hs hn name role init ht <| goesOn_keepsConstants fun hext h =>
    h.of_keepsTo hs.typed.builder hext fun r hr _ => ?_
  obtain ⟨hr', hhas⟩ := Build.keepsTo_newVar name t role hrole init s.builder hr
  refine ⟨hr', fun e he => ?_⟩
  obtain ⟨x, hx, rfl⟩ := List.mem_map.mp he
  rcases hrun : s.builder.run (Build.newVar name t role init) with ⟨fault | y, b⟩
  · rw [hrun] at hx
    cases hx
  · rw [hrun] at hx
    rw [List.mem_singleton.mp hx]
    exact hhas y (congrArg Prod.fst hrun)

end Steps

/-! ## Scopes -/

section Scopes

variable (hs : s.Reachable) (hn : s.KnowsNames n)

include hs hn

/-- A scope can only be left if the stage is still there, and then the session has grown. -/
theorem keepsConstants_inScope (kind : ScopeKind) {act : Run α}
    (hact : ∀ s' n', s'.Reachable → s'.KnowsNames n' → s.Grows s' →
      Plays (KeepsConstants start) act s' n' fun _ _ => True) :
    Plays (KeepsConstants start) (inScope kind act) s n fun _ s' => s.Grows s' := by
  refine (keepsConstants_conserves hs hn (Build.rearranges_pushScope kind)
    (Build.conserves_pushScope kind)).bind ?_
  rintro _ s₁ n₁ hs₁ hn₁ - ⟨hgrows₁, -⟩
  refine (hact s₁ n₁ hs₁ hn₁ hgrows₁).attempt.bind ?_
  rintro result s₂ n₂ hs₂ hn₂ ⟨hlater, -⟩ -
  refine (keepsConstants_conserves hs₂ hn₂ Build.rearranges_popScope
    Build.conserves_popScope).bind ?_
  rintro frame s₃ n₃ hs₃ hn₃ - ⟨hgrows₃, hpop⟩
  refine .pure hs₃ hn₃ ?_
  rcases hlater.grows with hgrows₂ | hlost
  · exact hgrows₁.trans (hgrows₂.trans hgrows₃)
  · rcases run_popScope_cases s₂.builder with ⟨e, hfails, -⟩ | ⟨t, _, _, _, ht, -, -⟩
    · cases hpop.symm.trans hfails
    · cases hlost.symm.trans ht

theorem keepsConstants_collect (kind : ScopeKind) {body : Run Unit}
    (hbody : PlaysAlong (KeepsConstants start) body) :
    Plays (KeepsConstants start) (collect kind body) s n fun _ s' => s.Grows s' := by
  refine (keepsConstants_inScope hs hn kind fun s' n' hs' hn' _ => hbody s' n' hs' hn').bind ?_
  rintro ⟨result, frame⟩ s₁ n₁ hs₁ hn₁ - hgrows
  cases result with
  | ok _ => exact .pure hs₁ hn₁ hgrows
  | error e => exact .throw hs₁ hn₁ e

/-- What is done with a scope once it is left neither builds on anything nor declares a constant. -/
theorem keepsConstants_closed (kind : ScopeKind) {body : Run Unit} {act : Block → Build Unit}
    (hbody : PlaysAlong (KeepsConstants start) body)
    (hact : ∀ block, Build.Rearranges (act block))
    (hconserves : ∀ block, Build.Conserves (act block)) :
    Plays (KeepsConstants start) (do let block ← collect kind body; act block) s n
      fun _ s' => s.Grows s' := by
  refine (keepsConstants_collect hs hn kind hbody).bind fun block s₁ n₁ hs₁ hn₁ _ hgrows => ?_
  exact (keepsConstants_conserves hs₁ hn₁ (hact block) (hconserves block)).mono
    fun _ _ _ h => hgrows.trans h.1

end Scopes

instance : IsStepped (KeepsConstants start) where
  lower hs hn := keepsConstants_lower hs hn
  newVar hs hn name role hrole init := keepsConstants_newVar hs hn name role hrole init
  inherit v _ _ hs hn := (keepsConstants_conserves hs hn (Build.rearranges_inherit v)
    (Build.conserves_modifyDecls (fun _ => rfl) fun _ => rfl)).mono fun _ _ _ _ => trivial
  construct hs hn _ _ hbody := keepsConstants_closed hs hn _ hbody
    (fun _ => Build.rearranges_emit _) fun _ => Build.conserves_emit _
  join hs hn _ failure _ hbody := keepsConstants_closed hs hn _ hbody
    (fun _ => Build.rearranges_extendLast failure _) fun _ => Build.conserves_extendLast failure _

/-! ## Functions and loops -/

section Bodies

variable {body : Run Unit}

theorem keepsConstants_forRange (hs : s.Reachable) (hn : s.KnowsNames n) (counter : String)
    {first last : Value} {body : Expr → Run Unit} (hfirst : s.Knows first) (hlast : s.Knows last)
    (hbody : ∀ e s n, s.Reachable → s.KnowsNames n → e ∈ s.known →
      Plays (KeepsConstants start) (body e) s n fun _ _ => True) :
    Plays (KeepsConstants start) (forRange counter first last body) s n fun _ _ => True := by
  refine (plays_reads hs hn (Build.reads_requireFunction _)).bind ?_
  rintro _ _ n₁ hs₁ hn₁ - ⟨rfl, -⟩
  refine (plays_lowerPair hs₁ hn₁ hfirst hlast).bind ?_
  rintro ⟨first, last⟩ s₂ n₂ hs₂ hn₂ - -
  refine (plays_reads hs₂ hn₂ (Build.reads_requireBounds first last)).bind ?_
  rintro _ s₃ n₃ hs₃ hn₃ - ⟨rfl, hbounds⟩
  have ht : first.type.index < s₃.builder.types.size := Build.lt_size_of_run_requireBounds hbounds
  refine (keepsConstants_inScope hs₃ hn₃ .loop fun s' n' hs' hn' hgrows' => ?_).bind ?_
  · have ht' := Nat.lt_of_lt_of_le ht hgrows'.builder.types_size_le
    exact plays_counted hs' hn' counter ht' hbody
  · rintro ⟨result, frame⟩ s₄ n₄ hs₄ hn₄ - -
    cases result with
    | ok v => exact (keepsConstants_conserves hs₄ hn₄ (Build.rearranges_emit _)
        (Build.conserves_emit _)).mono fun _ _ _ _ => trivial
    | error e => exact .throw hs₄ hn₄ e

theorem keepsConstants_doWhile {cond : Run Value} (hbody : PlaysAlong (KeepsConstants start) body)
    (hcond : ∀ s n, s.Reachable → s.KnowsNames n →
      Plays (KeepsConstants start) cond s n fun v s' => s'.Knows v) :
    PlaysAlong (KeepsConstants start) (doWhile body cond) := by
  intro s n hs hn
  refine (plays_reads hs hn (Build.reads_requireFunction _)).bind ?_
  rintro _ _ n₁ hs₁ hn₁ - ⟨rfl, -⟩
  refine (keepsConstants_collect hs₁ hn₁ .loop hbody).bind fun block s₂ n₂ hs₂ hn₂ _ _ => ?_
  refine (hcond s₂ n₂ hs₂ hn₂).bind fun v s₃ n₃ hs₃ hn₃ _ hv => ?_
  refine (plays_condition hs₃ hn₃ hv).bind fun c s₄ n₄ hs₄ hn₄ _ _ => ?_
  exact (keepsConstants_conserves hs₄ hn₄ (Build.rearranges_emit _)
    (Build.conserves_emit _)).mono fun _ _ _ _ => trivial

theorem keepsConstants_func (hs : s.Reachable) (hn : s.KnowsNames n) (name : String)
    (params : List (String × TypeShape)) {body : List Expr → Run Unit}
    (hbody : ∀ es s n, s.Reachable → s.KnowsNames n → (∀ e ∈ es, e ∈ s.known) →
      Plays (KeepsConstants start) (body es) s n fun _ _ => True) :
    Plays (KeepsConstants start) (func name params body) s n fun _ _ => True := by
  refine (plays_reads hs hn (Build.reads_checkFunctionName name)).bind ?_
  rintro _ s₁ n₁ hs₁ hn₁ - ⟨rfl, -⟩
  refine (keepsConstants_conserves hs₁ hn₁ (Build.rearranges_paramTypes name params)
    (Build.conserves_paramTypes name params)).bind ?_
  rintro types s₂ n₂ hs₂ hn₂ - ⟨-, hparams⟩
  have htypes := (Build.ensures_paramTypes hs₁.typed.builder name params).2.2 _ _ hparams
  refine (plays_reads hs₂ hn₂ Build.reads_stage).bind ?_
  rintro stage s₃ n₃ hs₃ hn₃ - ⟨rfl, -⟩
  refine (plays_reads hs₃ hn₃ (Build.reads_requireNewParams _ _ _)).bind ?_
  rintro _ s₄ n₄ hs₄ hn₄ - ⟨rfl, -⟩
  refine (keepsConstants_inScope hs₄ hn₄ (.function false none)
    fun s' n' hs' hn' hgrows' => ?_).bind ?_
  · have hregistered : ∀ p ∈ (params.map (·.1)).zip types, p.2.index < s'.builder.types.size :=
      fun p hp => Nat.lt_of_lt_of_le (htypes p.2 (List.of_mem_zip hp).2)
        hgrows'.builder.types_size_le
    exact plays_parameterized hs' hn' hregistered hbody
  · rintro ⟨outcome, scope⟩ s₅ n₅ hs₅ hn₅ - -
    cases outcome with
    | error e => exact .throw hs₅ hn₅ e
    | ok vars =>
        refine (keepsConstants_conserves hs₅ hn₅ (Build.rearranges_resultType name scope)
          (Build.conserves_resultType name scope)).bind fun result s₆ n₆ hs₆ hn₆ _ _ => ?_
        exact (keepsConstants_conserves hs₆ hn₆ (Build.rearranges_addFunction _)
          (Build.conserves_addFunction _)).mono fun _ _ _ _ => trivial

theorem keepsConstants_main (hbody : PlaysAlong (KeepsConstants start) body) :
    PlaysAlong (KeepsConstants start) (main body) := by
  intro s n hs hn
  refine (plays_reads hs hn (Build.reads_requireGlobal _)).bind ?_
  rintro _ s₁ n₁ hs₁ hn₁ - ⟨rfl, -⟩
  refine (plays_reads hs₁ hn₁ Build.reads_stage).bind ?_
  rintro stage s₂ n₂ hs₂ hn₂ - ⟨rfl, -⟩
  have hdefine : ∀ block,
      Build.Rearranges (Build.modifyStage fun s => { s with main := some block }) :=
    fun _ => Build.rearranges_modifyStage fun _ _ he => he
  dsimp only
  split
  · exact .throw_bind hs₂ hn₂ _
  · exact (keepsConstants_closed hs₂ hn₂ _ hbody hdefine Build.conserves_setMain).mono
      fun _ _ _ _ => trivial

end Bodies

/-! ## Programs and operations -/

/-- What keeps the constants in their order is a part of every session. -/
theorem simulates_of_keepsConstants {act : Run α} (h : PlaysAlong (KeepsConstants start) act) :
    Simulates act := by
  intro s n hs hn
  obtain ⟨s', hs', hkeeps, hrest⟩ := h s n hs hn
  exact ⟨s', hs', ⟨hkeeps.1, trivial⟩, hrest⟩

/-- A program that is compiled leaves no stage. -/
theorem keepsConstants_asProgram {compile : Run α} (h : Simulates (asProgram compile)) :
    PlaysAlong (KeepsConstants start) (asProgram compile) := by
  intro s n hs hn
  obtain ⟨s', hs', hleads, hb, hn', -⟩ := h s n hs hn
  unfold Plays
  cases hphase : s.builder.phase with
  | building | done =>
      rw [runFrom_asProgram, hphase]
      exact ⟨s, hs, refl_of (KeepsConstants start) s, rfl, hn, fun _ _ => trivial⟩
  | idle =>
      have hnone : s'.builder.stage = none := by
        rw [hb, runFrom_asProgram, hphase]
      exact ⟨s', hs', ⟨hleads.1, fun _ hstage => absurd hnone hstage⟩, hb, hn', fun _ _ => trivial⟩

/-- What a script does while a stage is open keeps its constants in their order. -/
instance : IsPlayed (KeepsConstants start) where
  operation hs hn hn' hop h := plays_operation hs hn hn' hop h <|
    goesOn_keepsConstants fun _ => ordersConstants_operation hs hn hop h
  reset hs n := plays_reset hs n ⟨⟨fun _ => rfl, Or.inr rfl⟩, fun _ hstage => absurd rfl hstage⟩
  setLastError report _ _ hs hn := (keepsConstants_conserves hs hn
    (Build.rearranges_setLastError report) (Build.conserves_setLastError report)).mono
      fun _ _ _ _ => trivial
  remark x _ _ hs hn := (keepsConstants_conserves hs hn (Build.rearranges_remark x)
    (Build.conserves_remark x)).mono fun _ _ _ _ => trivial
  takeRemarks _ _ hs hn := (keepsConstants_conserves hs hn Build.rearranges_takeRemarks
    Build.conserves_takeRemarks).mono fun _ _ _ _ => trivial
  render label _ _ hv hf := keepsConstants_asProgram
    (traces_render label (simulates_of_keepsConstants hv) (simulates_of_keepsConstants hf))
  compute label _ hbody := keepsConstants_asProgram
    (traces_compute label (simulates_of_keepsConstants hbody))
  func := keepsConstants_func
  main := keepsConstants_main
  forRange hs hn counter := keepsConstants_forRange hs hn counter
  doWhile := keepsConstants_doWhile

end Script

end WebShader
