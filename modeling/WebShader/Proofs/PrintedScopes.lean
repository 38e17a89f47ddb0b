import Mathlib.Data.List.Forall2
import WebShader.Code.Lowering
import WebShader.Proofs.LexicalScopes

/-!
# Scopes of printed code

Where the expressions of a source stand among the scopes of its names, and which names they
contain. Lowering keeps every scope and its declarations, and spells each expression by the names
of what it was recorded from.
-/

namespace WebShader

namespace Code

/-! ## Names in expressions -/

namespace Expr

variable {τ : Type}

mutual

/-- The names of variables in an expression, in order. -/
def names : Expr τ → List String
  | literal _ => []
  | name n => [n]
  | field base _ => base.names
  | index base i => base.names ++ i.names
  | unary _ operand => operand.names
  | binary _ lhs rhs | floored lhs rhs => lhs.names ++ rhs.names
  | apply _ args => namesOf args
  | addressOf place => place.names
  | deref pointer => pointer.names

/-- The names of variables in several expressions. -/
def namesOf : List (Expr τ) → List String
  | [] => []
  | e :: rest => e.names ++ namesOf rest

end

/-- A name is a name. -/
@[simp] theorem names_name (n : String) : (name n : Expr τ).names = [n] := rfl

/-- A part is read by the names of its base. -/
@[simp] theorem names_field (base : Expr τ) (part : String) :
    (field base part).names = base.names := rfl

/-- An element is read by the names of its base and of its index. -/
@[simp] theorem names_index (base i : Expr τ) : (index base i).names = base.names ++ i.names := rfl

/-- A number has no name. -/
@[simp] theorem names_number (n : Nat) : (number n : Expr τ).names = [] := rfl

/-- The names in arguments are those in each of them. -/
theorem namesOf_eq_flatMap (args : List (Expr τ)) : namesOf args = args.flatMap names := by
  induction args with
  | nil => rfl
  | cons e rest ih => exact congrArg (e.names ++ ·) ih

mutual

/-- The names of the functions that an expression calls, in order. -/
def calls : Expr τ → List String
  | literal _ | name _ => []
  | field base _ => base.calls
  | index base i => base.calls ++ i.calls
  | unary _ operand => operand.calls
  | binary _ lhs rhs | floored lhs rhs => lhs.calls ++ rhs.calls
  | apply (.function f) args => f :: callsOf args
  | apply _ args => callsOf args
  | addressOf place => place.calls
  | deref pointer => pointer.calls

/-- The names of the functions that several expressions call. -/
def callsOf : List (Expr τ) → List String
  | [] => []
  | e :: rest => e.calls ++ callsOf rest

end

/-- The calls in arguments are those in each of them. -/
theorem callsOf_eq_flatMap (args : List (Expr τ)) : callsOf args = args.flatMap calls := by
  induction args with
  | nil => rfl
  | cons e rest ih => exact congrArg (e.calls ++ ·) ih

/-- The names of variables in an expression are among some, and those of the functions that it calls
among others. -/
structure Within (allowed called : List String) (e : Expr τ) : Prop where
  names : e.names ⊆ allowed
  calls : e.calls ⊆ called

section Within

variable {allowed called : List String} {e lhs rhs : Expr τ} {args : List (Expr τ)}

/-- More may be allowed after what is allowed. -/
theorem Within.append_right (h : e.Within allowed called) (more moreCalled : List String) :
    e.Within (allowed ++ more) (called ++ moreCalled) :=
  ⟨List.subset_append_of_subset_left _ h.names, List.subset_append_of_subset_left _ h.calls⟩

/-- More may be allowed before what is allowed. -/
theorem Within.append_left (h : e.Within allowed called) (more moreCalled : List String) :
    e.Within (more ++ allowed) (moreCalled ++ called) :=
  ⟨List.subset_append_of_subset_right _ h.names, List.subset_append_of_subset_right _ h.calls⟩

/-- Two expressions are within some names exactly when what is made of both is. -/
theorem within_append_iff :
    lhs.names ++ rhs.names ⊆ allowed ∧ lhs.calls ++ rhs.calls ⊆ called ↔
      lhs.Within allowed called ∧ rhs.Within allowed called := by
  rw [List.append_subset, List.append_subset]
  exact ⟨fun h => ⟨⟨h.1.1, h.2.1⟩, ⟨h.1.2, h.2.2⟩⟩,
    fun h => ⟨⟨h.1.names, h.2.names⟩, ⟨h.1.calls, h.2.calls⟩⟩⟩

@[simp] theorem within_literal (s : String) : (literal s : Expr τ).Within allowed called :=
  ⟨List.nil_subset _, List.nil_subset _⟩

@[simp] theorem within_number (n : Nat) : (number n : Expr τ).Within allowed called :=
  within_literal _

@[simp] theorem within_name {n : String} :
    (name n : Expr τ).Within allowed called ↔ n ∈ allowed :=
  ⟨fun h => h.names (List.mem_singleton_self n),
    fun h => ⟨List.cons_subset.mpr ⟨h, List.nil_subset _⟩, List.nil_subset _⟩⟩

@[simp] theorem within_field {part : String} :
    (field e part).Within allowed called ↔ e.Within allowed called :=
  ⟨fun h => ⟨h.names, h.calls⟩, fun h => ⟨h.names, h.calls⟩⟩

@[simp] theorem within_unary {op : UnaryOp} :
    (unary op e).Within allowed called ↔ e.Within allowed called :=
  ⟨fun h => ⟨h.names, h.calls⟩, fun h => ⟨h.names, h.calls⟩⟩

@[simp] theorem within_addressOf :
    (addressOf e).Within allowed called ↔ e.Within allowed called :=
  ⟨fun h => ⟨h.names, h.calls⟩, fun h => ⟨h.names, h.calls⟩⟩

@[simp] theorem within_deref : (deref e).Within allowed called ↔ e.Within allowed called :=
  ⟨fun h => ⟨h.names, h.calls⟩, fun h => ⟨h.names, h.calls⟩⟩

@[simp] theorem within_index :
    (index lhs rhs).Within allowed called ↔
      lhs.Within allowed called ∧ rhs.Within allowed called :=
  ⟨fun h => within_append_iff.mp ⟨h.names, h.calls⟩,
    fun h => ⟨(within_append_iff.mpr h).1, (within_append_iff.mpr h).2⟩⟩

@[simp] theorem within_binary {op : BinaryOp} :
    (binary op lhs rhs).Within allowed called ↔
      lhs.Within allowed called ∧ rhs.Within allowed called :=
  ⟨fun h => within_append_iff.mp ⟨h.names, h.calls⟩,
    fun h => ⟨(within_append_iff.mpr h).1, (within_append_iff.mpr h).2⟩⟩

@[simp] theorem within_floored :
    (floored lhs rhs).Within allowed called ↔
      lhs.Within allowed called ∧ rhs.Within allowed called :=
  ⟨fun h => within_append_iff.mp ⟨h.names, h.calls⟩,
    fun h => ⟨(within_append_iff.mpr h).1, (within_append_iff.mpr h).2⟩⟩

/-- Several expressions are within some names exactly when each of them is. -/
theorem withinAll_iff :
    namesOf args ⊆ allowed ∧ callsOf args ⊆ called ↔ ∀ e ∈ args, e.Within allowed called := by
  rw [namesOf_eq_flatMap, callsOf_eq_flatMap]
  constructor
  · intro h e he
    exact ⟨fun name hname => h.1 (List.mem_flatMap.mpr ⟨e, he, hname⟩),
      fun name hname => h.2 (List.mem_flatMap.mpr ⟨e, he, hname⟩)⟩
  · intro h
    constructor
    · intro name hname
      obtain ⟨e, he, hname⟩ := List.mem_flatMap.mp hname
      exact (h e he).names hname
    · intro name hname
      obtain ⟨e, he, hname⟩ := List.mem_flatMap.mp hname
      exact (h e he).calls hname

@[simp] theorem within_construct {t : τ} :
    (construct t args).Within allowed called ↔ ∀ e ∈ args, e.Within allowed called :=
  ⟨fun h => withinAll_iff.mp ⟨h.names, h.calls⟩,
    fun h => ⟨(withinAll_iff.mpr h).1, (withinAll_iff.mpr h).2⟩⟩

@[simp] theorem within_builtin {f : String} :
    (builtin f args).Within allowed called ↔ ∀ e ∈ args, e.Within allowed called :=
  ⟨fun h => withinAll_iff.mp ⟨h.names, h.calls⟩,
    fun h => ⟨(withinAll_iff.mpr h).1, (withinAll_iff.mpr h).2⟩⟩

@[simp] theorem within_call {f : String} :
    (apply (.function f) args).Within allowed called ↔
      f ∈ called ∧ ∀ e ∈ args, e.Within allowed called := by
  constructor
  · intro h
    obtain ⟨hf, hargs⟩ := List.cons_subset.mp h.calls
    exact ⟨hf, withinAll_iff.mp ⟨h.names, hargs⟩⟩
  · intro h
    obtain ⟨hnames, hcalls⟩ := withinAll_iff.mpr h.2
    exact ⟨hnames, List.cons_subset.mpr ⟨h.1, hcalls⟩⟩

end Within

end Expr

/-! ## Scopes in statements -/

/-- An expression of a source, with the scopes around it from the innermost out. A scope holds the
names declared in it before that point. -/
structure Use (τ : Type) where
  scopes : List (List String)
  expr : Expr τ

namespace Stmt

variable {τ : Type}

/-- What a statement of a source declares for those that follow it. -/
def declared : Stmt τ → List String
  | declare _ name _ => [name]
  | _ => []

/-- What the statements of a block of a source declare. -/
def declaredBy (body : List (Stmt τ)) : List String := body.flatMap declared

mutual

/-- The expressions of a statement inside some scopes, in the order of the text. What follows
`continuing` is inside the body of its loop. -/
def uses (outer : List (List String)) : Stmt τ → List (Use τ)
  | declare _ _ (some e) | eval e | discardValue e | returnWith (some e) => [⟨outer, e⟩]
  | assign target _ value => [⟨outer, target⟩, ⟨outer, value⟩]
  | conditional branches (some otherwise) =>
    branchUses outer branches ++ blockUses outer [] otherwise
  | conditional branches none => branchUses outer branches
  | forRange _ counter first last body =>
    ⟨outer, first⟩ :: ⟨[counter] :: outer, last⟩ :: blockUses outer [counter] body
  | whileDo cond body => ⟨outer, cond⟩ :: blockUses outer [] body
  | doWhile body cond => blockUses outer [] body ++ [⟨outer, cond⟩]
  | loop body breakIf => blockUses outer [] body ++ [⟨declaredBy body :: outer, breakIf⟩]
  | block body => blockUses outer [] body
  | declare _ _ none | returnWith none | breakLoop | continueLoop | discard => []
termination_by structural s => s

/-- The expressions of a block, in whose scope some names are declared before it starts. -/
def blockUses (outer : List (List String)) (heads : List String) : List (Stmt τ) → List (Use τ)
  | [] => []
  | s :: rest => s.uses (heads :: outer) ++ blockUses outer (heads ++ s.declared) rest
termination_by structural body => body

/-- The expressions of the branches of a conditional. -/
def branchUses (outer : List (List String)) : List (Expr τ × List (Stmt τ)) → List (Use τ)
  | [] => []
  | (cond, body) :: rest => ⟨outer, cond⟩ :: blockUses outer [] body ++ branchUses outer rest
termination_by structural branches => branches

end

end Stmt

/-! ## Lowering keeps scopes -/

/-- An expression of a source stands in the scopes of a place, inside some outermost ones, and each
of its names is spelled for one of the expressions of the place, as is each function it calls. -/
structure Prints {τ : Type} (nameOf : VarId → String) (spelling calling : Term → List String)
    (base : List (List String)) (u : Use τ) (q : Place Term) : Prop where
  scopes : u.scopes = q.printed.map (·.map nameOf) ++ base
  within : u.expr.Within (q.exprs.flatMap spelling) (q.exprs.flatMap calling)

namespace Lowering

/-- Rules that declare variables under their names, add no scopes to those of the statements, spell
expressions by names of their own and call no other functions. A loop may test its condition inside
its body. -/
structure KeepsScopes {τ : Type} (rules : Lowering τ) (nameOf : VarId → String)
    (spelling calling : Term → List String) (testsInside : Bool) : Prop where
  var : ∀ {v d}, rules.var v = .ok d → d.name = nameOf v
  expr : ∀ {e code}, rules.expr e = .ok code → code.Within (spelling e) (calling e)
  assign : ∀ {target op value s}, rules.assign target op value = .ok s →
    ∃ place op' v, s = .assign place op' v ∧ place.Within (spelling target) (calling target) ∧
      v.Within (spelling target ++ spelling value) (calling target ++ calling value)
  eval : ∀ {e s}, rules.eval e = .ok s →
    ∃ v, (s = .eval v ∨ s = .discardValue v) ∧ v.Within (spelling e) (calling e)
  doWhile : ∀ body cond, ∃ test, (∀ allowed called, cond.Within allowed called →
      test.Within allowed called) ∧
    rules.doWhile body cond = if testsInside then .loop body test else .doWhile body test

section Lowered

variable {τ : Type} {rules : Lowering τ} {nameOf : VarId → String}
  {spelling calling : Term → List String} {testsInside : Bool}

/-- An initial value is lowered to the code of it. -/
theorem exists_of_optional {e : Term} {init : Option (Expr τ)}
    (h : rules.optional (some e) = .ok init) :
    ∃ value, rules.expr e = .ok value ∧ init = some value := by
  rw [optional] at h
  cases he : rules.expr e with
  | error fault =>
      rw [he] at h
      cases h
  | ok value =>
      rw [he] at h
      exact ⟨value, rfl, (Except.ok.inj h).symm⟩

/-- A single expression is spelled by its names, wherever it stands. -/
theorem prints_single (base : List (List String)) (opened printed : List (List VarId)) {e : Term}
    {code : Expr τ} (hcode : code.Within (spelling e) (calling e)) :
    Prints nameOf spelling calling base ⟨printed.map (·.map nameOf) ++ base, code⟩
      ⟨opened, printed, [e]⟩ := ⟨rfl, by simpa using hcode⟩

/-- Code prints the names of its expression. -/
theorem KeepsScopes.prints (h : rules.KeepsScopes nameOf spelling calling testsInside)
    (base : List (List String)) (opened printed : List (List VarId)) {e : Term} {code : Expr τ}
    (hcode : rules.expr e = .ok code) : Prints nameOf spelling calling base
      ⟨printed.map (·.map nameOf) ++ base, code⟩ ⟨opened, printed, [e]⟩ :=
  prints_single base opened printed (h.expr hcode)

mutual

/-- A printed statement declares what it should, and its expressions stand in the scopes they
should. -/
theorem prints_stmt (h : rules.KeepsScopes nameOf spelling calling testsInside)
    (base : List (List String)) (outer : List (List VarId)) :
    (s : WebShader.Stmt Term) → {code : Stmt τ} → rules.stmt s = .ok code →
      code.declared = s.declared.map nameOf ∧
        List.Forall₂ (Prints nameOf spelling calling base)
          (code.uses (outer.map (·.map nameOf) ++ base)) (s.places testsInside outer)
  | .declare v none, code, hcode => by
      simp only [stmt, bind_eq_ok_iff] at hcode
      obtain ⟨d, hd, type, -, init, hinit, hcode⟩ := hcode
      obtain rfl := Except.ok.inj hinit
      rw [← Except.ok.inj hcode, Stmt.uses, WebShader.Stmt.places]
      exact ⟨congrArg (fun name => [name]) (h.var hd), .nil⟩
  | .declare v (some e), code, hcode => by
      simp only [stmt, bind_eq_ok_iff] at hcode
      obtain ⟨d, hd, type, -, init, hinit, hcode⟩ := hcode
      obtain ⟨value, hvalue, rfl⟩ := exists_of_optional hinit
      rw [← Except.ok.inj hcode, Stmt.uses, WebShader.Stmt.places]
      exact ⟨congrArg (fun name => [name]) (h.var hd), .cons
        (h.prints base outer outer hvalue) .nil⟩
  | .assign target op value, code, hcode => by
      obtain ⟨place, op', v, rfl, hplace, hv⟩ := h.assign hcode
      rw [Stmt.uses, WebShader.Stmt.places]
      -- the value may repeat the target, where its operator is written out
      exact ⟨rfl, .cons (prints_single base outer outer hplace)
        (.cons ⟨rfl, by simpa using hv⟩ .nil)⟩
  | .eval e, code, hcode => by
      obtain ⟨v, hshape, hv⟩ := h.eval hcode
      rw [WebShader.Stmt.places]
      rcases hshape with rfl | rfl
      · rw [Stmt.uses]
        exact ⟨rfl, .cons (prints_single base outer outer hv) .nil⟩
      · rw [Stmt.uses]
        exact ⟨rfl, .cons (prints_single base outer outer hv) .nil⟩
  | .conditional cases none, code, hcode => by
      simp only [stmt, bind_eq_ok_iff] at hcode
      obtain ⟨branches', hbranches, hcode⟩ := hcode
      rw [← Except.ok.inj hcode, Stmt.uses, WebShader.Stmt.places]
      exact ⟨rfl, prints_branches h base outer cases hbranches⟩
  | .conditional cases (some otherwise), code, hcode => by
      simp only [stmt, bind_eq_ok_iff] at hcode
      obtain ⟨branches', hbranches, otherwise', hotherwise, hcode⟩ := hcode
      rw [← Except.ok.inj hcode, Stmt.uses, WebShader.Stmt.places]
      exact ⟨rfl, List.rel_append (prints_branches h base outer cases hbranches)
        (prints_block h base outer [] otherwise hotherwise).2⟩
  | .forRange counter first last body, code, hcode => by
      simp only [stmt, bind_eq_ok_iff] at hcode
      obtain ⟨d, hd, type, -, first', hfirst, last', hlast, body', hbody, hcode⟩ := hcode
      have hblock := (prints_block h base outer [counter] body hbody).2
      rw [← Except.ok.inj hcode, Stmt.uses, WebShader.Stmt.places, h.var hd]
      exact ⟨rfl, .cons (h.prints base outer outer hfirst)
        (.cons (h.prints base outer ([counter] :: outer) hlast) hblock)⟩
  | .whileDo cond body, code, hcode => by
      simp only [stmt, bind_eq_ok_iff] at hcode
      obtain ⟨cond', hcond, body', hbody, hcode⟩ := hcode
      rw [← Except.ok.inj hcode, Stmt.uses, WebShader.Stmt.places]
      exact ⟨rfl, .cons (h.prints base outer outer hcond)
        (prints_block h base outer [] body hbody).2⟩
  | .doWhile body cond, code, hcode => by
      simp only [stmt, bind_eq_ok_iff] at hcode
      obtain ⟨body', hbody, cond', hcond, hcode⟩ := hcode
      obtain ⟨hdeclared, hblock⟩ := prints_block h base outer [] body hbody
      obtain ⟨test, htest, hloop⟩ := h.doWhile body' cond'
      have htest : test.Within ([cond].flatMap spelling) ([cond].flatMap calling) :=
        htest _ _ (by simpa using h.expr hcond)
      rw [← Except.ok.inj hcode, hloop, WebShader.Stmt.places]
      cases testsInside with
      | false =>
          rw [if_neg Bool.false_ne_true, if_neg Bool.false_ne_true, Stmt.uses]
          exact ⟨rfl, List.rel_append hblock (.cons ⟨rfl, htest⟩ .nil)⟩
      | true =>
          rw [if_pos rfl, if_pos rfl, Stmt.uses, hdeclared]
          exact ⟨rfl, List.rel_append hblock (.cons ⟨rfl, htest⟩ .nil)⟩
  | .block body, code, hcode => by
      simp only [stmt, bind_eq_ok_iff] at hcode
      obtain ⟨body', hbody, hcode⟩ := hcode
      rw [← Except.ok.inj hcode, Stmt.uses, WebShader.Stmt.places]
      exact ⟨rfl, (prints_block h base outer [] body hbody).2⟩
  | .returnWith none, code, hcode => by
      simp only [stmt, bind_eq_ok_iff] at hcode
      obtain ⟨value, hvalue, hcode⟩ := hcode
      obtain rfl := Except.ok.inj hvalue
      rw [← Except.ok.inj hcode, Stmt.uses, WebShader.Stmt.places]
      exact ⟨rfl, .nil⟩
  | .returnWith (some e), code, hcode => by
      simp only [stmt, bind_eq_ok_iff] at hcode
      obtain ⟨init, hinit, hcode⟩ := hcode
      obtain ⟨value, hvalue, rfl⟩ := exists_of_optional hinit
      rw [← Except.ok.inj hcode, Stmt.uses, WebShader.Stmt.places]
      exact ⟨rfl, .cons (h.prints base outer outer hvalue) .nil⟩
  | .breakLoop, code, hcode | .continueLoop, code, hcode | .discard, code, hcode => by
      rw [← Except.ok.inj hcode, Stmt.uses, WebShader.Stmt.places]
      exact ⟨rfl, .nil⟩
termination_by structural s => s

/-- A block prints its scopes, by recursion on it. -/
theorem prints_block (h : rules.KeepsScopes nameOf spelling calling testsInside)
    (base : List (List String)) (outer : List (List VarId)) (heads : List VarId) :
    (body : List (WebShader.Stmt Term)) → {code : List (Stmt τ)} → rules.block body = .ok code →
      Stmt.declaredBy code = (WebShader.Stmt.declaredBy body).map nameOf ∧
        List.Forall₂ (Prints nameOf spelling calling base)
          (Stmt.blockUses (outer.map (·.map nameOf) ++ base) (heads.map nameOf) code)
          (WebShader.Stmt.blockPlaces testsInside outer heads body)
  | [], code, hcode => by
      rw [← Except.ok.inj hcode]
      exact ⟨rfl, .nil⟩
  | s :: rest, code, hcode => by
      simp only [block, bind_eq_ok_iff] at hcode
      obtain ⟨s', hs, rest', hrest, hcode⟩ := hcode
      obtain ⟨hdeclared, hstmt⟩ := prints_stmt h base (heads :: outer) s hs
      obtain ⟨hdeclaredBy, hblock⟩ := prints_block h base outer (heads ++ s.declared) rest hrest
      rw [← Except.ok.inj hcode]
      constructor
      · unfold Stmt.declaredBy WebShader.Stmt.declaredBy at hdeclaredBy ⊢
        rw [List.flatMap_cons, List.flatMap_cons, List.map_append, hdeclared, hdeclaredBy]
      · rw [Stmt.blockUses, WebShader.Stmt.blockPlaces, hdeclared, ← List.map_append]
        exact List.rel_append hstmt hblock
termination_by structural body => body

/-- Branches print their scopes, by recursion on them. -/
theorem prints_branches (h : rules.KeepsScopes nameOf spelling calling testsInside)
    (base : List (List String)) (outer : List (List VarId)) :
    (cases : List (Term × List (WebShader.Stmt Term))) →
      {code : List (Expr τ × List (Stmt τ))} → rules.branches cases = .ok code →
        List.Forall₂ (Prints nameOf spelling calling base)
          (Stmt.branchUses (outer.map (·.map nameOf) ++ base) code)
          (WebShader.Stmt.branchPlaces testsInside outer cases)
  | [], code, hcode => by
      rw [← Except.ok.inj hcode]
      exact .nil
  | (cond, body) :: rest, code, hcode => by
      simp only [branches, bind_eq_ok_iff] at hcode
      obtain ⟨cond', hcond, body', hbody, rest', hrest, hcode⟩ := hcode
      have hblock := (prints_block h base outer [] body hbody).2
      rw [← Except.ok.inj hcode, Stmt.branchUses, WebShader.Stmt.branchPlaces]
      exact List.rel_append (.cons (h.prints base outer outer hcond) hblock)
        (prints_branches h base outer rest hrest)
termination_by structural cases => cases

end

end Lowered

end Lowering

end Code

end WebShader
