import WebShader.Proofs.PrintedCalls
import WebShader.Proofs.ReachedOperations

/-!
# The order of constants

A constant is initialized with an expression that is made of literals and of constants, by
operators, constructors and accesses. Those of the same stage that are within reach have been
declared before, so that the constants of a stage are initialized in the order in which they are
declared.
-/

namespace WebShader

open Relation (ReflTransGen TransGen)

/-! ## Initializers -/

/-- Whether a constant may be made of an expression, by what it is. -/
def NodeKind.isFoldable : NodeKind → Bool
  | literal _ | var _ | member _ _ | swizzle _ _ | index _ _ | unary _ _ | binary _ _ _
  | construct _ => true
  | builtin _ | call _ _ | intrinsic _ _ | addressOf _ | deref _ => false

namespace Builder

/-- An expression is made, through operands of any depth, of parts of constants and only names
constants, which from some place on are those of a list. -/
structure MadeOf (b : Builder) (start : Nat) (vars : List VarId) (n : NodeId) : Prop where
  parts : ∀ m, ReflTransGen b.HasOperand n m →
    ∃ node, b.node? m = some node ∧ node.kind.isFoldable = true
  constant : ∀ m v, ReflTransGen b.HasOperand n m → b.varOf? m = some v →
    ∃ d, b.var? v = some d ∧ d.role = .constant
  named : ∀ m v, ReflTransGen b.HasOperand n m → b.varOf? m = some v → start ≤ v.index → v ∈ vars

/-- Each of some constants is initialized with an expression that is made of those before it. -/
structure InitializesInOrder (b : Builder) (start : Nat) (constants : List VarId) : Prop where
  nodup : constants.Nodup
  initialized : ∀ (k : Nat) v, constants[k]? = some v → ∃ d n, b.var? v = some d ∧
    d.role = .constant ∧ d.init = some n ∧ b.MadeOf start (constants.take k) n

variable {b b' : Builder} {callees : Callees} {r : Reach} {start : Nat}
  {vars constants : List VarId} {n m : NodeId} {v : VarId}

/-! ### Growth -/

/-- What is made of constants is recorded. -/
theorem MadeOf.recorded (h : b.MadeOf start vars n) : n.index < b.nodes.size := by
  obtain ⟨node, hnode, -⟩ := h.parts n .refl
  exact (Array.getElem?_eq_some_iff.mp hnode).1

/-- An expression stands for the same variable in a longer arena. -/
theorem varOf?_of_starts (hnodes : b.nodes.toList <+: b'.nodes.toList)
    (hn : n.index < b.nodes.size) : b'.varOf? n = b.varOf? n := by
  rw [varOf?, varOf?, node?_of_starts hnodes hn]

/-- What is made of constants stays so as the builder grows. -/
theorem MadeOf.of_starts (h : b.MadeOf start vars n) (hb : b.Typed callees)
    (hnodes : b.nodes.toList <+: b'.nodes.toList) (hvars : b.vars.toList <+: b'.vars.toList) :
    b'.MadeOf start vars n where
  parts m hm := by
    obtain ⟨hm, hlt⟩ := hb.leads_of_starts hnodes h.recorded hm
    rw [node?_of_starts hnodes hlt]
    exact h.parts m hm
  constant m v hm hv := by
    obtain ⟨hm, hlt⟩ := hb.leads_of_starts hnodes h.recorded hm
    rw [varOf?_of_starts hnodes hlt] at hv
    obtain ⟨d, hd, hrole⟩ := h.constant m v hm hv
    exact ⟨d, getElem?_of_starts hvars hd, hrole⟩
  named m v hm hv := by
    obtain ⟨hm, hlt⟩ := hb.leads_of_starts hnodes h.recorded hm
    rw [varOf?_of_starts hnodes hlt] at hv
    exact h.named m v hm hv

/-- Constants stay in order as the builder grows. -/
theorem InitializesInOrder.of_starts (h : b.InitializesInOrder start constants)
    (hb : b.Typed callees) (hnodes : b.nodes.toList <+: b'.nodes.toList)
    (hvars : b.vars.toList <+: b'.vars.toList) : b'.InitializesInOrder start constants where
  nodup := h.nodup
  initialized k v hv := by
    obtain ⟨d, n, hd, hrole, hinit, hmade⟩ := h.initialized k v hv
    exact ⟨d, n, getElem?_of_starts hvars hd, hrole, hinit, hmade.of_starts hb hnodes hvars⟩

/-- One more constant may be initialized with what is made of the others. -/
theorem InitializesInOrder.append (h : b.InitializesInOrder start constants) (hv : v ∉ constants)
    {d : Variable} (hd : b.var? v = some d) (hrole : d.role = .constant) (hinit : d.init = some n)
    (hn : b.MadeOf start constants n) : b.InitializesInOrder start (constants ++ [v]) where
  nodup := h.nodup.append (List.nodup_singleton v) (by simpa using hv)
  initialized k w hw := by
    rcases Nat.lt_trichotomy k constants.length with hk | rfl | hk
    · rw [List.getElem?_append_left hk] at hw
      rw [List.take_append_of_le_length hk.le]
      exact h.initialized k w hw
    · rw [List.getElem?_concat_length] at hw
      rw [List.take_left, ← Option.some.inj hw]
      exact ⟨d, n, hd, hrole, hinit, hn⟩
    · rw [List.getElem?_eq_none (by rw [List.length_append, List.length_singleton]; omega)] at hw
      cases hw

/-! ### What is constant -/

/-- What is constant is a part of constants, and its operands are constant. -/
theorem isConstant_eq_true (h : b.isConstant n = true) :
    (∃ node, b.node? n = some node ∧ node.kind.isFoldable = true) ∧
      (∀ v, b.varOf? n = some v → ∃ d, b.var? v = some d ∧ d.role = .constant) ∧
      ∀ m, b.HasOperand n m → b.isConstant m = true := by
  rw [isConstant] at h
  cases hnode : b.node? n with
  | none =>
      rw [hnode] at h
      cases h
  | some node =>
      obtain ⟨t, kind⟩ := node
      rw [hnode] at h
      dsimp only at h
      -- the parts of an initializer are looked through at whatever depth
      have hoperands : (kind.operands.all fun m =>
          if m.index < n.index then b.isConstant m else false) = true →
          ∀ m, b.HasOperand n m → b.isConstant m = true := by
        rintro hall m ⟨node, hnode', hm⟩
        rw [hnode, Option.some.injEq] at hnode'
        subst hnode'
        have hm := List.all_eq_true.mp hall m hm
        split at hm
        · exact hm
        · cases hm
      have hnone : (∀ v, kind ≠ .var v) → ∀ v, b.varOf? n = some v →
          ∃ d, b.var? v = some d ∧ d.role = .constant := by
        intro hkind v hv
        obtain ⟨t', hv⟩ := varOf?_eq_some_iff.mp hv
        rw [hnode] at hv
        exact absurd (congrArg Node.kind (Option.some.inj hv)) (hkind v)
      cases kind with
      | literal value =>
          exact ⟨⟨_, rfl, rfl⟩, hnone (by simp), hoperands rfl⟩
      | var v =>
          refine ⟨⟨_, rfl, rfl⟩, fun w hw => ?_, hoperands rfl⟩
          obtain ⟨t', hw⟩ := varOf?_eq_some_iff.mp hw
          rw [hnode] at hw
          obtain rfl := NodeKind.var.inj (congrArg Node.kind (Option.some.inj hw))
          dsimp only at h
          cases hd : b.var? v with
          | none =>
              rw [hd] at h
              cases h
          | some d =>
              rw [hd] at h
              exact ⟨d, rfl, by simpa using h⟩
      | member | swizzle | index | unary | binary | construct =>
          exact ⟨⟨_, rfl, rfl⟩, hnone (by simp), hoperands h⟩
      | builtin | call | intrinsic | addressOf | deref => cases h

/-- What a constant expression leads to is constant. -/
theorem isConstant_of_leads (h : b.isConstant n = true) (hm : ReflTransGen b.HasOperand n m) :
    b.isConstant m = true := by
  induction hm with
  | refl => exact h
  | tail _ hoperand ih => exact (isConstant_eq_true ih).2.2 _ hoperand

/-- What an expression within reach leads to is within reach. -/
theorem KeepsTo.exprs_of_leads (h : b.KeepsTo r) (hn : r.exprs n)
    (hm : ReflTransGen b.HasOperand n m) : r.exprs m := by
  cases hm.cases_tail with
  | inl hm => exact hm ▸ hn
  | inr hm =>
      obtain ⟨_, -, node, hnode, hm⟩ := hm
      exact h.operands _ node hnode m hm

/-- A constant expression within reach is made of the constants that have been declared. -/
theorem KeepsTo.madeOf (h : b.KeepsTo r) (hn : r.exprs n) (hconstant : b.isConstant n = true) :
    b.MadeOf r.start r.constants n where
  parts m hm := (isConstant_eq_true (isConstant_of_leads hconstant hm)).1
  constant m v hm := (isConstant_eq_true (isConstant_of_leads hconstant hm)).2.1 v
  named m v hm hv hstart := by
    obtain ⟨d, hd, hrole⟩ := (isConstant_eq_true (isConstant_of_leads hconstant hm)).2.1 v hv
    exact h.named m v d (h.exprs_of_leads hn hm) hv hd hstart hrole

/-! ## Declarations -/

/-- The variable that an expression names has been recorded. -/
theorem Typed.var?_of_varOf? (hb : b.Typed callees) (h : b.varOf? n = some v) :
    ∃ d, b.var? v = some d := by
  obtain ⟨t, h⟩ := varOf?_eq_some_iff.mp h
  cases hb.dictated n _ h with
  | var hv => exact ⟨_, hv⟩

/-- A variable that could not be declared is left behind: its expression is out of reach. -/
theorem KeepsTo.leavesBehind (h : b.KeepsTo r) (hb : b.Typed callees) (d : Variable) :
    (b.withVar d).KeepsTo { r with exprs := fun n => r.exprs n ∧ n ≠ ⟨b.nodes.size⟩ } where
  operands n node hn m hm := by
    rcases node?_pushNode_cases hn with hn | ⟨-, rfl⟩
    · have hlt := hb.descends n node hn m hm
      have hsize := (Array.getElem?_eq_some_iff.mp hn).1
      refine ⟨h.operands n node hn m hm, ?_⟩
      rintro rfl
      exact absurd hlt (Nat.not_lt.mpr hsize.le)
    · cases hm
  handles e he := by
    refine ⟨h.handles e he, fun hnode => ?_⟩
    have hlt := lt_size_of_typeOf? (hb.handles e he)
    rw [hnode] at hlt
    exact absurd hlt (Nat.lt_irrefl _)
  recent n hn := by
    rw [Builder.withVar, Array.size_push] at hn
    refine ⟨h.recent n (by omega), ?_⟩
    rintro rfl
    exact absurd hn (by simp)
  named n v found hn hv hfound := by
    obtain ⟨t, hv⟩ := varOf?_eq_some_iff.mp hv
    rcases node?_pushNode_cases hv with hv | ⟨hlast, -⟩
    · have hv := varOf?_eq_some_iff.mpr ⟨t, hv⟩
      obtain ⟨d', hd'⟩ := hb.var?_of_varOf? hv
      have hsame : (b.withVar d).var? v = some d' :=
        getElem?_of_starts (by simp [Builder.withVar]) hd'
      rw [← Option.some.inj (hsame.symm.trans hfound)]
      exact h.named n v d' hn.1 hv hd'
    · exact absurd hlast hn.2
  constants := h.constants

/-- A constant that is declared joins the others of the stage. -/
theorem KeepsTo.declares (h : b.KeepsTo r) {s s' : OpenStage} (hs : b.stage = some s) (d : Variable)
    (hhandles : ∀ e ∈ s'.handles, e ∈ s.handles ∨ e.node = ⟨b.nodes.size⟩)
    (hconstants : s'.decls.constants = s.decls.constants ++ [⟨b.vars.size⟩]) :
    KeepsTo { r with constants := r.constants ++ [⟨b.vars.size⟩] }
      { b.withVar d with stage := some s' } where
  operands n node hn := by
    rcases node?_pushNode_cases hn with hn | ⟨-, rfl⟩
    · exact h.operands n node hn
    · simp [NodeKind.operands]
  handles e he := by
    rcases mem_handles_iff.mp he with haccess | ⟨_, hs', he⟩
    · exact h.handles e (mem_handles_iff.mpr (Or.inl haccess))
    · obtain rfl := Option.some.inj hs'
      rcases hhandles e he with he | he
      · exact h.handles e (mem_handles_iff.mpr (Or.inr ⟨s, hs, he⟩))
      · exact h.recent _ (by rw [he])
  recent n hn := by
    rw [Builder.withVar, Array.size_push] at hn
    exact h.recent n (by omega)
  named n v found hn hv hfound hstart hrole := by
    rw [Builder.withVar, var?, Array.getElem?_push] at hfound
    obtain ⟨t, hv⟩ := varOf?_eq_some_iff.mp hv
    rcases node?_pushNode_cases hv with hv | ⟨-, hnode⟩
    · split at hfound
      · rename_i hlast
        exact List.mem_append_right _ (List.mem_singleton.mpr (congrArg VarId.mk hlast))
      · exact List.mem_append_left _
          (h.named n v found hn (varOf?_eq_some_iff.mpr ⟨t, hv⟩) hfound hstart hrole)
    · rw [NodeKind.var.inj (congrArg Node.kind hnode)]
      exact List.mem_append_right _ (List.mem_singleton.mpr rfl)
  constants s'' hs'' := by
    rw [← Option.some.inj hs'', hconstants, h.constants s hs]

/-- An author who knows some handles can reach the constants of the stage alone, which are
initialized in their order. -/
def OrdersConstants (b : Builder) (start : Nat) (known : List Expr) : Prop :=
  ∃ r : Reach, r.start = start ∧ b.KeepsTo r ∧ (∀ e ∈ known, r.Has e) ∧
    b.InitializesInOrder start r.constants

/-- A builder that keeps to every reach of another one. -/
theorem OrdersConstants.of_keepsTo {known given : List Expr} (h : b.OrdersConstants start known)
    (hb : b.Typed callees) (hext : b.Extends b')
    (hkeeps : ∀ r, b.KeepsTo r → (∀ e ∈ known, r.Has e) → b'.KeepsTo r ∧ ∀ e ∈ given, r.Has e) :
    b'.OrdersConstants start (given ++ known) := by
  obtain ⟨r, hstart, hr, hknown, hinit⟩ := h
  obtain ⟨hr', hgiven⟩ := hkeeps r hr hknown
  exact ⟨r, hstart, hr', List.forall_mem_append.mpr ⟨hgiven, hknown⟩,
    hinit.of_starts hb hext.nodes hext.vars⟩

end Builder

namespace Build

open Builder

variable {b b' : Builder} {callees : Callees} {r : Reach} {start : Nat} {known : List Expr}

/-- The expression of a variable that is declared is the last one. -/
theorem expr_of_run_newVar {name : String} {t : TypeId} {role : Role} {init : Option NodeId}
    {x : VarId × Expr} (h : b.run (newVar name t role init) = (.ok x, b')) :
    x.2.node = ⟨b.nodes.size⟩ := by
  obtain ⟨_, b₁, hcheck, h⟩ := run_bind_eq_ok_iff.mp h
  obtain rfl : b = b₁ := (Follows.liftM (R := Eq) _).of_run hcheck
  obtain ⟨s, b₂, hstage, h⟩ := run_bind_eq_ok_iff.mp h
  obtain rfl : b = b₂ := reads_stage.of_run hstage
  obtain ⟨v, b₃, hvar, h⟩ := run_bind_eq_ok_iff.mp h
  obtain ⟨e, b₄, hnode, h⟩ := run_bind_eq_ok_iff.mp h
  obtain ⟨_, b₅, -, h⟩ := run_bind_eq_ok_iff.mp h
  rw [← (run_pure_eq_ok_iff.mp h).1, ← Except.ok.inj (Prod.mk.inj hnode).1,
    ← (Prod.mk.inj hvar).2]

/-- A constant expression within reach may initialize a constant. -/
theorem ordersConstants_declareIn (hb : b.Typed callees) (hr : b.KeepsTo r)
    (hinit : b.InitializesInOrder r.start r.constants)
    (hknown : ∀ e ∈ known, r.Has e ∧ b.Carries e) (name : String) (t : TypeId) {n : NodeId}
    (hn : r.exprs n) (hconstant : b.isConstant n = true) :
    (b.run (declareIn .constants name t .constant (some n))).2.OrdersConstants r.start
      ((b.run (declareIn .constants name t .constant (some n))).1.toOption.toList ++ known) := by
  have hvar : ∀ d : Variable, b.InitializesInOrder r.start r.constants →
      (b.withVar d).InitializesInOrder r.start r.constants :=
    fun d h => h.of_starts hb (by simp [Builder.withVar]) (by simp [Builder.withVar])
  unfold declareIn
  rw [Builder.run_bind]
  rcases run_newVar_cases b name t .constant (some n) with
    ⟨fault, b', hrun, rfl | ⟨d, rfl⟩⟩ | ⟨s, f, rest, e, hs, hframes, -, hrun⟩
  · rw [hrun]
    exact ⟨r, rfl, hr, fun e he => (hknown e he).1, hinit⟩
  · rw [hrun]
    -- a name that is refused leaves its variable behind, which no expression in sight leads to
    refine ⟨{ r with exprs := fun m => r.exprs m ∧ m ≠ ⟨b.nodes.size⟩ }, rfl,
      hr.leavesBehind hb d, fun e he => ⟨(hknown e he).1, fun hnode => ?_⟩, hvar d hinit⟩
    have hlt := lt_size_of_typeOf? (hknown e he).2
    rw [hnode] at hlt
    exact absurd hlt (Nat.lt_irrefl _)
  · have hlast := expr_of_run_newVar hrun
    have hrecent : r.Has e := hr.recent _ (by rw [hlast])
    rw [hrun]
    dsimp only
    rw [Builder.run_bind, modifyDecls, Builder.run_modifyStage_of_some rfl]
    refine ⟨{ r with constants := r.constants ++ [⟨b.vars.size⟩] }, rfl,
      hr.declares hs ⟨name, t, .constant, s.decls.stage, some n⟩ (fun e' he' => ?_) rfl,
      List.forall_mem_cons.mpr ⟨hrecent, fun e' he' => (hknown e' he').1⟩, ?_⟩
    · exact (OpenStage.mem_handles_of_symbol hframes he').imp_right fun (h : e' = e) => h ▸ hlast
    -- the new constant comes after all that its initializer reads
    · have hnew : (⟨b.vars.size⟩ : VarId) ∉ r.constants := by
        intro hmem
        obtain ⟨k, hk⟩ := List.mem_iff_getElem?.mp hmem
        obtain ⟨d, n, hd, -⟩ := hinit.initialized k _ hk
        exact absurd (Array.getElem?_eq_some_iff.mp hd).1 (Nat.lt_irrefl _)
      have hmade := hr.madeOf hn hconstant
      refine InitializesInOrder.append (d := ⟨name, t, .constant, s.decls.stage, some n⟩)
        (hinit.of_starts hb ?_ ?_) hnew ?_ rfl rfl (hmade.of_starts hb ?_ ?_)
      all_goals simp [Builder.withVar, Builder.withFrame, var?]

/-- The declaration of a constant keeps the constants in their order, and gives a handle that is
within reach. -/
theorem ordersConstants_constant (hb : b.Typed callees) (h : b.OrdersConstants start known)
    (hknown : ∀ e ∈ known, b.Carries e) (name : String) {value : Value}
    (hvalue : value.Holds (· ∈ known)) :
    (b.run (constant name value)).2.OrdersConstants start
      ((b.run (constant name value)).1.toOption.toList ++ known) := by
  obtain ⟨r, rfl, hr, hhas, hinit⟩ := h
  have hlowered := keepsTo_lower (hvalue.imp hhas) none b hr
  obtain ⟨hext, hb₁, -⟩ := ensures_lower hb (hvalue.imp hknown) none
  unfold constant
  rw [Builder.run_bind]
  have hsame := reads_requireGlobal "constants" b
  rcases hglobal : b.run (requireGlobal "constants") with ⟨e | _, b₀⟩
  all_goals
    rw [hglobal] at hsame
    obtain rfl : b = b₀ := hsame
  · exact ⟨r, rfl, hr, hhas, hinit⟩
  dsimp only
  rw [Builder.run_bind]
  rcases hlower : b.run (lower value none) with ⟨e | init, b₁⟩
  · rw [hlower] at hlowered hext
    exact ⟨r, rfl, hlowered.1, hhas, hinit.of_starts hb hext.nodes hext.vars⟩
  rw [hlower] at hlowered hext hb₁
  have hinit₁ := hinit.of_starts hb hext.nodes hext.vars
  dsimp only
  rw [Builder.run_get_bind]
  by_cases hconstant : b₁.isConstant init.node = true
  · rw [if_neg (by simp [hconstant])]
    refine ordersConstants_declareIn hb₁ hlowered.1 hinit₁ (fun e he => ?_) name init.type
      (hlowered.2 init rfl) hconstant
    exact ⟨hhas e he, (hknown e he).of_extends hext⟩
  · rw [if_pos (by simp [hconstant])]
    exact ⟨r, rfl, hlowered.1, hhas, hinit₁⟩

end Build

/-! ## Stages -/

namespace Builder

variable {b : Builder} {callees : Callees} {start : Nat} {known : List Expr}

/-- When a stage is opened, none of its variables have been declared, and all is within reach. -/
theorem ordersConstants_opened (b : Builder) (which : Stage) (known : List Expr) :
    (b.opened which).OrdersConstants b.vars.size known := by
  refine ⟨⟨b.vars.size, [], fun _ => True⟩, rfl, ?_, fun _ _ => trivial, List.nodup_nil, by simp⟩
  refine ⟨fun _ _ _ _ _ => trivial, fun _ _ => trivial, fun _ _ => trivial, ?_, ?_⟩
  · intro n v d _ _ hd hstart
    exact absurd (Array.getElem?_eq_some_iff.mp hd).1 (Nat.not_lt.mpr hstart)
  · intro s hs
    rw [← Option.some.inj hs]

/-- The initializer of a variable leads, through operands of any depth, to an expression that names
another one. -/
def InitReads (b : Builder) (v w : VarId) : Prop :=
  ∃ d n m, b.var? v = some d ∧ d.init = some n ∧ ReflTransGen b.HasOperand n m ∧
    b.varOf? m = some w

end Builder

namespace BuiltStage

/-- The variables that the initializers of a stage read have been declared from some place on. -/
def OwnsConstants (b : Builder) (start : Nat) (st : BuiltStage) : Prop :=
  ∀ v ∈ st.decls.constants, ∀ w, b.InitReads v w → start ≤ w.index

/-- Constants are initialized with parts of constants. They only read constants of the stage that
are declared before them, directly or through others, so that none leads back to itself. -/
structure ClosesConstants (b : Builder) (st : BuiltStage) : Prop where
  initialized : ∀ v ∈ st.decls.constants, ∃ d n, b.var? v = some d ∧ d.role = .constant ∧
    d.init = some n ∧ ∀ m, ReflTransGen b.HasOperand n m →
      ∃ node, b.node? m = some node ∧ node.kind.isFoldable = true
  earlier : ∀ (k : Nat) v, st.decls.constants[k]? = some v → ∀ w, TransGen b.InitReads v w →
    ∃ j < k, st.decls.constants[j]? = some w
  acyclic : ∀ v ∈ st.decls.constants, ¬ TransGen b.InitReads v v

end BuiltStage

namespace Builder

variable {b : Builder} {callees : Callees} {start : Nat} {known : List Expr} {st : BuiltStage}

/-- What an initializer reads is a constant, and has been declared before if it has been declared
from some place on. -/
theorem InitializesInOrder.reads (h : b.InitializesInOrder start st.decls.constants) {k : Nat}
    {v w : VarId} (hv : st.decls.constants[k]? = some v) (hreads : b.InitReads v w) :
    (∃ d, b.var? w = some d ∧ d.role = .constant) ∧
      (start ≤ w.index → w ∈ st.decls.constants.take k) := by
  obtain ⟨d, n, hd, -, hinit, hmade⟩ := h.initialized k v hv
  obtain ⟨d', n', m, hd', hinit', hm, hw⟩ := hreads
  obtain rfl := Option.some.inj (hd.symm.trans hd')
  obtain rfl := Option.some.inj (hinit.symm.trans hinit')
  exact ⟨hmade.constant m w hm hw, hmade.named m w hm hw⟩

/-- A stage owns what its constants read if no constant had been declared before. -/
theorem InitializesInOrder.ownsConstants {b₀ : Builder}
    (h : b.InitializesInOrder b₀.vars.size st.decls.constants)
    (hvars : WebShader.Extends b₀.vars b.vars) (hnone : ∀ d ∈ b₀.vars, d.role ≠ .constant) :
    st.OwnsConstants b b₀.vars.size := by
  intro v hv w hreads
  obtain ⟨k, hk⟩ := List.mem_iff_getElem?.mp hv
  obtain ⟨⟨d, hd, hrole⟩, -⟩ := h.reads hk hreads
  by_contra hlt
  have hold := hvars w.index _ (Array.getElem?_eq_getElem (Nat.lt_of_not_le hlt))
  rw [Option.some.inj (hd.symm.trans hold)] at hrole
  exact hnone _ (Array.getElem_mem _) hrole

/-- What an initializer reads has been declared before. -/
theorem InitializesInOrder.exists_earlier (h : b.InitializesInOrder start st.decls.constants)
    (hown : st.OwnsConstants b start) {k : Nat} {v w : VarId}
    (hv : st.decls.constants[k]? = some v) (hreads : b.InitReads v w) :
    ∃ j < k, st.decls.constants[j]? = some w := by
  have hstart := hown v (List.mem_of_getElem? hv) w hreads
  obtain ⟨j, hj⟩ := List.mem_iff_getElem?.mp ((h.reads hv hreads).2 hstart)
  rw [List.getElem?_take] at hj
  split at hj
  · exact ⟨j, ‹_›, hj⟩
  · cases hj

/-- Chains of constants go back in the order of their declarations. -/
theorem InitializesInOrder.closesConstants (h : b.InitializesInOrder start st.decls.constants)
    (hown : st.OwnsConstants b start) : st.ClosesConstants b := by
  have hearlier : ∀ (k : Nat) v, st.decls.constants[k]? = some v → ∀ w, TransGen b.InitReads v w →
      ∃ j < k, st.decls.constants[j]? = some w := by
    intro k v hv w hchain
    induction hchain with
    | single hreads => exact h.exists_earlier hown hv hreads
    | tail _ hreads ih =>
        obtain ⟨j, hj, hu⟩ := ih
        obtain ⟨i, hi, hw⟩ := h.exists_earlier hown hu hreads
        exact ⟨i, by omega, hw⟩
  refine ⟨fun v hv => ?_, hearlier, fun v hv hchain => ?_⟩
  · obtain ⟨k, hk⟩ := List.mem_iff_getElem?.mp hv
    obtain ⟨d, n, hd, hrole, hinit, hmade⟩ := h.initialized k v hk
    exact ⟨d, n, hd, hrole, hinit, hmade.parts⟩
  · obtain ⟨k, hk⟩ := List.mem_iff_getElem?.mp hv
    obtain ⟨j, hj, hsame⟩ := hearlier k v hk v hchain
    have hlt := (List.getElem?_eq_some_iff.mp hsame).1
    exact absurd ((List.getElem?_inj hlt h.nodup).mp (hsame.trans hk.symm)) (by omega)

/-- The constants of a stage that is closed are those in their order. -/
theorem OrdersConstants.initializes (h : b.OrdersConstants start known) (hb : b.Typed callees)
    {s : OpenStage} (hs : b.stage = some s) :
    InitializesInOrder { b with stage := none } start s.decls.constants := by
  obtain ⟨r, rfl, hr, -, hinit⟩ := h
  rw [hr.constants s hs]
  exact hinit.of_starts hb (List.prefix_refl _) (List.prefix_refl _)

end Builder

end WebShader
