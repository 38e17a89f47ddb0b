import WebShader.Proofs.PrintedCalls

/-!
# How often calls are written

The text of a statement has as many calls of a function as the expressions of the statement, unless
what is written several times calls it. In GLSL ES that is the target of a compound assignment that
is written out. In WGSL it is what is wrapped, unwrapped or taken a floored remainder of, and the
target of a compound assignment that is written out.
-/

namespace WebShader

/-! ## Calls in code -/

namespace Code

variable {τ : Type}

namespace Expr

mutual

/-- How many calls of a function the text of an expression has. A floored remainder is written with
each of its operands twice. -/
def callCount (f : String) : Expr τ → Nat
  | literal _ | name _ => 0
  | field base _ => base.callCount f
  | index base i => base.callCount f + i.callCount f
  | unary _ operand => operand.callCount f
  | binary _ lhs rhs => lhs.callCount f + rhs.callCount f
  | apply (.function g) args => (if g = f then 1 else 0) + callCounts f args
  | apply _ args => callCounts f args
  | floored lhs rhs => 2 * (lhs.callCount f + rhs.callCount f)
  | addressOf place => place.callCount f
  | deref pointer => pointer.callCount f

/-- How many calls of a function the texts of several expressions have. -/
def callCounts (f : String) : List (Expr τ) → Nat
  | [] => 0
  | e :: rest => e.callCount f + callCounts f rest

end

variable {f : String} {args : List (Expr τ)}

@[simp] theorem callCount_construct (t : τ) :
    (construct t args).callCount f = callCounts f args := rfl

@[simp] theorem callCount_builtin (name : String) :
    (builtin name args : Expr τ).callCount f = callCounts f args := rfl

mutual

/-- What an expression does not call is not called in its text. -/
theorem callCount_eq_zero : (e : Expr τ) → f ∉ e.calls → e.callCount f = 0
  | literal _, _ | name _, _ => rfl
  | field base _, h | unary _ base, h | addressOf base, h | deref base, h =>
      callCount_eq_zero base h
  | index lhs rhs, h | binary _ lhs rhs, h => by
      obtain ⟨hl, hr⟩ := not_or.mp (mt List.mem_append.mpr h)
      rw [callCount, callCount_eq_zero lhs hl, callCount_eq_zero rhs hr]
  | floored lhs rhs, h => by
      obtain ⟨hl, hr⟩ := not_or.mp (mt List.mem_append.mpr h)
      rw [callCount, callCount_eq_zero lhs hl, callCount_eq_zero rhs hr]
  | apply (.function g) args, h => by
      obtain ⟨hg, hargs⟩ := not_or.mp (mt List.mem_cons.mpr h)
      rw [callCount, if_neg (Ne.symm hg), callCounts_eq_zero args hargs]
  | apply (.type _) args, h | apply (.builtin _) args, h => callCounts_eq_zero args h

theorem callCounts_eq_zero : (args : List (Expr τ)) → f ∉ callsOf args → callCounts f args = 0
  | [], _ => rfl
  | e :: rest, h => by
      obtain ⟨he, hrest⟩ := not_or.mp (mt List.mem_append.mpr h)
      rw [callCounts, callCount_eq_zero e he, callCounts_eq_zero rest hrest]

end

end Expr

namespace Stmt

mutual

/-- How many calls of a function the text of a statement has. -/
def callCount (f : String) : Stmt τ → Nat
  | declare _ _ (some e) | eval e | discardValue e | returnWith (some e) => e.callCount f
  | assign target _ value => target.callCount f + value.callCount f
  | conditional branches (some otherwise) =>
    branchCallCount f branches + blockCallCount f otherwise
  | conditional branches none => branchCallCount f branches
  | forRange _ _ first last body => first.callCount f + last.callCount f + blockCallCount f body
  | whileDo cond body | doWhile body cond | loop body cond =>
    cond.callCount f + blockCallCount f body
  | block body => blockCallCount f body
  | declare _ _ none | returnWith none | breakLoop | continueLoop | discard => 0
termination_by structural s => s

/-- How many calls of a function the text of a block has. -/
def blockCallCount (f : String) : List (Stmt τ) → Nat
  | [] => 0
  | s :: rest => s.callCount f + blockCallCount f rest
termination_by structural body => body

/-- How many calls of a function the texts of branches have. -/
def branchCallCount (f : String) : List (Expr τ × List (Stmt τ)) → Nat
  | [] => 0
  | (cond, body) :: rest => cond.callCount f + blockCallCount f body + branchCallCount f rest
termination_by structural branches => branches

end

end Stmt

end Code

/-! ## Calls in trees -/

namespace ResolvedStage

variable {s : ResolvedStage} {f : String}

/-- How many calls of functions of a name a tree has. -/
def callCount (s : ResolvedStage) (f : String) (e : Term) : Nat := (s.calling e).count f

/-- How many calls of functions of a name several trees have. -/
def callCounts (s : ResolvedStage) (f : String) (es : List Term) : Nat :=
  ((Term.calleesOf es).filterMap s.callName?).count f

@[simp] theorem callCounts_nil : s.callCounts f [] = 0 := rfl

@[simp] theorem callCounts_cons (e : Term) (es : List Term) :
    s.callCounts f (e :: es) = s.callCount f e + s.callCounts f es := by
  rw [callCounts, Term.calleesOf, List.filterMap_append, List.count_append]
  rfl

theorem callCounts_append (es es' : List Term) :
    s.callCounts f (es ++ es') = s.callCounts f es + s.callCounts f es' := by
  induction es with
  | nil => simp
  | cons e es ih => rw [List.cons_append, callCounts_cons, callCounts_cons, ih, Nat.add_assoc]

/-- A tree of two operands has the calls of both. -/
theorem count_calling_append (e e' : Term) :
    ((e.callees ++ e'.callees).filterMap s.callName?).count f =
      s.callCount f e + s.callCount f e' := by
  rw [List.filterMap_append, List.count_append]
  rfl

/-- A call is one of the function, besides those in its arguments. -/
theorem callCount_call (t : TypeId) {g : FunctionId} {fn : Function} (hg : s.function g = .ok fn)
    (args : List Term) : s.callCount f (.call t g args) =
      (if s.functionName fn = f then 1 else 0) + s.callCounts f args := by
  rw [callCount, calling, Term.callees, List.filterMap_cons_some (callName?_of_function hg),
    List.count_cons, Nat.add_comm]
  simp [callCounts]

theorem callCount_eq_zero {e : Term} (h : e.callees = []) : s.callCount f e = 0 := by
  rw [callCount, calling, h]
  rfl

end ResolvedStage

/-! ## Lowering -/

namespace Stmt

variable {ε : Type}

mutual

/-- The assignments of a statement, at every depth. -/
def assignments : Stmt ε → List (ε × Option BinaryOp × ε)
  | assign target op value => [(target, op, value)]
  | conditional branches (some otherwise) =>
    branchAssignments branches ++ blockAssignments otherwise
  | conditional branches none => branchAssignments branches
  | forRange _ _ _ body | whileDo _ body | doWhile body _ | block body => blockAssignments body
  | declare _ _ | eval _ | returnWith _ | breakLoop | continueLoop | discard => []
termination_by structural s => s

/-- The assignments of a block. -/
def blockAssignments : List (Stmt ε) → List (ε × Option BinaryOp × ε)
  | [] => []
  | s :: rest => s.assignments ++ blockAssignments rest
termination_by structural body => body

/-- The assignments of the branches of a conditional. -/
def branchAssignments : List (ε × List (Stmt ε)) → List (ε × Option BinaryOp × ε)
  | [] => []
  | (_, body) :: rest => blockAssignments body ++ branchAssignments rest
termination_by structural branches => branches

end

end Stmt

namespace Code.Lowering

variable {τ : Type} {rules : Lowering τ} {s : ResolvedStage} {f : String} {E : Term → Prop}
  {A : Term × Option BinaryOp × Term → Prop}

/-- Rules that write as many calls of a function as there are, given expressions and assignments of
some kind. -/
structure WritesCalls (rules : Lowering τ) (s : ResolvedStage) (f : String) (E : Term → Prop)
    (A : Term × Option BinaryOp × Term → Prop) : Prop where
  expr : ∀ {e code}, E e → rules.expr e = .ok code → code.callCount f = s.callCount f e
  assign : ∀ {target op value code}, E target → E value → A (target, op, value) →
    rules.assign target op value = .ok code →
      code.callCount f = s.callCount f target + s.callCount f value
  eval : ∀ {e code}, E e → rules.eval e = .ok code → code.callCount f = s.callCount f e
  doWhile : ∀ body cond, (rules.doWhile body cond).callCount f =
    cond.callCount f + Stmt.blockCallCount f body

mutual

/-- The text of a statement has as many calls of a function as the statement. -/
theorem WritesCalls.stmt (h : rules.WritesCalls s f E A) : (st : WebShader.Stmt Term) →
    {code : Stmt τ} → rules.stmt st = .ok code → (∀ e ∈ st.exprs, E e) →
      (∀ a ∈ st.assignments, A a) → code.callCount f = s.callCounts f st.exprs
  | .declare v none, code, hcode, _, _ => by
      simp only [Lowering.stmt, bind_eq_ok_iff] at hcode
      obtain ⟨d, -, type, -, init, hinit, hcode⟩ := hcode
      obtain rfl := Except.ok.inj hinit
      rw [← Except.ok.inj hcode]
      rfl
  | .declare v (some e), code, hcode, hexprs, _ => by
      simp only [Lowering.stmt, bind_eq_ok_iff] at hcode
      obtain ⟨d, -, type, -, init, hinit, hcode⟩ := hcode
      obtain ⟨value, hvalue, rfl⟩ := exists_of_optional hinit
      rw [← Except.ok.inj hcode, Stmt.callCount, WebShader.Stmt.exprs]
      simpa using h.expr (hexprs e (by simp [WebShader.Stmt.exprs])) hvalue
  | .assign target op value, code, hcode, hexprs, hassigns => by
      rw [WebShader.Stmt.exprs] at hexprs ⊢
      have hcount := h.assign (hexprs target (by simp)) (hexprs value (by simp))
        (hassigns _ (by simp [WebShader.Stmt.assignments])) hcode
      simpa using hcount
  | .eval e, code, hcode, hexprs, _ => by
      rw [WebShader.Stmt.exprs] at hexprs ⊢
      simpa using h.eval (hexprs e (by simp)) hcode
  | .conditional branches none, code, hcode, hexprs, hassigns => by
      simp only [Lowering.stmt, bind_eq_ok_iff] at hcode
      obtain ⟨branches', hbranches, hcode⟩ := hcode
      rw [WebShader.Stmt.exprs] at hexprs
      rw [WebShader.Stmt.assignments] at hassigns
      rw [← Except.ok.inj hcode, Stmt.callCount, WebShader.Stmt.exprs]
      exact h.branches branches hbranches hexprs hassigns
  | .conditional branches (some otherwise), code, hcode, hexprs, hassigns => by
      simp only [Lowering.stmt, bind_eq_ok_iff] at hcode
      obtain ⟨branches', hbranches, otherwise', hotherwise, hcode⟩ := hcode
      rw [WebShader.Stmt.exprs, List.forall_mem_append] at hexprs
      rw [WebShader.Stmt.assignments, List.forall_mem_append] at hassigns
      rw [← Except.ok.inj hcode, Stmt.callCount, WebShader.Stmt.exprs,
        ResolvedStage.callCounts_append, h.branches branches hbranches hexprs.1 hassigns.1,
        h.block otherwise hotherwise hexprs.2 hassigns.2]
  | .forRange counter first last body, code, hcode, hexprs, hassigns => by
      simp only [Lowering.stmt, bind_eq_ok_iff] at hcode
      obtain ⟨d, -, type, -, first', hfirst, last', hlast, body', hbody, hcode⟩ := hcode
      rw [WebShader.Stmt.exprs, List.forall_mem_cons, List.forall_mem_cons] at hexprs
      rw [WebShader.Stmt.assignments] at hassigns
      rw [← Except.ok.inj hcode, Stmt.callCount, WebShader.Stmt.exprs,
        ResolvedStage.callCounts_cons, ResolvedStage.callCounts_cons, h.expr hexprs.1 hfirst,
        h.expr hexprs.2.1 hlast, h.block body hbody hexprs.2.2 hassigns, Nat.add_assoc]
  | .whileDo cond body, code, hcode, hexprs, hassigns => by
      simp only [Lowering.stmt, bind_eq_ok_iff] at hcode
      obtain ⟨cond', hcond, body', hbody, hcode⟩ := hcode
      rw [WebShader.Stmt.exprs, List.forall_mem_cons] at hexprs
      rw [WebShader.Stmt.assignments] at hassigns
      rw [← Except.ok.inj hcode, Stmt.callCount, WebShader.Stmt.exprs,
        ResolvedStage.callCounts_cons, h.expr hexprs.1 hcond, h.block body hbody hexprs.2 hassigns]
  | .doWhile body cond, code, hcode, hexprs, hassigns => by
      simp only [Lowering.stmt, bind_eq_ok_iff] at hcode
      obtain ⟨body', hbody, cond', hcond, hcode⟩ := hcode
      rw [WebShader.Stmt.exprs, List.forall_mem_append, List.forall_mem_singleton] at hexprs
      rw [WebShader.Stmt.assignments] at hassigns
      rw [← Except.ok.inj hcode, h.doWhile, WebShader.Stmt.exprs,
        ResolvedStage.callCounts_append, ResolvedStage.callCounts_cons,
        ResolvedStage.callCounts_nil, h.expr hexprs.2 hcond, h.block body hbody hexprs.1 hassigns,
        Nat.add_zero, Nat.add_comm]
  | .block body, code, hcode, hexprs, hassigns => by
      simp only [Lowering.stmt, bind_eq_ok_iff] at hcode
      obtain ⟨body', hbody, hcode⟩ := hcode
      rw [WebShader.Stmt.exprs] at hexprs
      rw [WebShader.Stmt.assignments] at hassigns
      rw [← Except.ok.inj hcode, Stmt.callCount, WebShader.Stmt.exprs]
      exact h.block body hbody hexprs hassigns
  | .returnWith none, code, hcode, _, _ => by
      simp only [Lowering.stmt, bind_eq_ok_iff] at hcode
      obtain ⟨value, hvalue, hcode⟩ := hcode
      obtain rfl := Except.ok.inj hvalue
      rw [← Except.ok.inj hcode]
      rfl
  | .returnWith (some e), code, hcode, hexprs, _ => by
      simp only [Lowering.stmt, bind_eq_ok_iff] at hcode
      obtain ⟨init, hinit, hcode⟩ := hcode
      obtain ⟨value, hvalue, rfl⟩ := exists_of_optional hinit
      rw [← Except.ok.inj hcode, Stmt.callCount, WebShader.Stmt.exprs]
      simpa using h.expr (hexprs e (by simp [WebShader.Stmt.exprs])) hvalue
  | .breakLoop, code, hcode, _, _ | .continueLoop, code, hcode, _, _
  | .discard, code, hcode, _, _ => by
      rw [← Except.ok.inj hcode]
      rfl
termination_by structural st => st

/-- The calls of a block are written, by recursion on it. -/
theorem WritesCalls.block (h : rules.WritesCalls s f E A) : (body : List (WebShader.Stmt Term)) →
    {code : List (Stmt τ)} → rules.block body = .ok code →
      (∀ e ∈ WebShader.Stmt.blockExprs body, E e) →
      (∀ a ∈ WebShader.Stmt.blockAssignments body, A a) →
        Stmt.blockCallCount f code = s.callCounts f (WebShader.Stmt.blockExprs body)
  | [], code, hcode, _, _ => by
      rw [← Except.ok.inj hcode]
      rfl
  | st :: rest, code, hcode, hexprs, hassigns => by
      simp only [Lowering.block, bind_eq_ok_iff] at hcode
      obtain ⟨st', hst, rest', hrest, hcode⟩ := hcode
      rw [WebShader.Stmt.blockExprs, List.forall_mem_append] at hexprs
      rw [WebShader.Stmt.blockAssignments, List.forall_mem_append] at hassigns
      rw [← Except.ok.inj hcode, Stmt.blockCallCount, WebShader.Stmt.blockExprs,
        ResolvedStage.callCounts_append, h.stmt st hst hexprs.1 hassigns.1,
        h.block rest hrest hexprs.2 hassigns.2]
termination_by structural body => body

/-- The calls of branches are written, by recursion on them. -/
theorem WritesCalls.branches (h : rules.WritesCalls s f E A) :
    (branches : List (Term × List (WebShader.Stmt Term))) →
      {code : List (Expr τ × List (Stmt τ))} → rules.branches branches = .ok code →
      (∀ e ∈ WebShader.Stmt.branchExprs branches, E e) →
      (∀ a ∈ WebShader.Stmt.branchAssignments branches, A a) →
        Stmt.branchCallCount f code = s.callCounts f (WebShader.Stmt.branchExprs branches)
  | [], code, hcode, _, _ => by
      rw [← Except.ok.inj hcode]
      rfl
  | (cond, body) :: rest, code, hcode, hexprs, hassigns => by
      simp only [Lowering.branches, bind_eq_ok_iff] at hcode
      obtain ⟨cond', hcond, body', hbody, rest', hrest, hcode⟩ := hcode
      rw [WebShader.Stmt.branchExprs, List.forall_mem_append, List.forall_mem_cons] at hexprs
      rw [WebShader.Stmt.branchAssignments, List.forall_mem_append] at hassigns
      rw [← Except.ok.inj hcode, Stmt.branchCallCount, WebShader.Stmt.branchExprs,
        ResolvedStage.callCounts_append, ResolvedStage.callCounts_cons, h.expr hexprs.1.1 hcond,
        h.block body hbody hexprs.1.2 hassigns.1, h.branches rest hrest hexprs.2 hassigns.2]
termination_by structural branches => branches

end

end Code.Lowering

end WebShader
