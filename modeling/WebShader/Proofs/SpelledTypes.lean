import WebShader.Code.Lowering
import WebShader.Proofs.LexicalScopes

/-!
# The types that sources spell

A source spells a type wherever it declares a variable and wherever a type is applied to arguments.
Lowering spells no types but those of the variables that the statements declare and those that the
spelling of their expressions asks for.
-/

namespace WebShader

/-- The types of a tree begin with its own. -/
theorem Term.type_mem_types (e : Term) : e.type ∈ e.types := by
  cases e <;> exact List.mem_cons_self

namespace Code

/-! ## Expressions -/

namespace Expr

variable {τ : Type}

mutual

/-- The types that an expression applies to arguments, in the order of the text. -/
def types : Expr τ → List τ
  | literal _ | name _ => []
  | field base _ => base.types
  | index base i => base.types ++ i.types
  | unary _ operand => operand.types
  | binary _ lhs rhs | floored lhs rhs => lhs.types ++ rhs.types
  | apply (.type t) args => t :: typesOf args
  | apply (.function _) args | apply (.builtin _) args => typesOf args
  | addressOf place => place.types
  | deref pointer => pointer.types

/-- The types that several expressions apply to arguments. -/
def typesOf : List (Expr τ) → List τ
  | [] => []
  | e :: rest => e.types ++ typesOf rest

end

/-- An expression only spells types with a property. -/
def Spells (P : τ → Prop) (e : Expr τ) : Prop := ∀ t ∈ e.types, P t

variable {P : τ → Prop}

@[simp] theorem spells_literal (s : String) : (literal s : Expr τ).Spells P := by
  simp [Spells, types]

@[simp] theorem spells_name (n : String) : (name n : Expr τ).Spells P := by simp [Spells, types]

@[simp] theorem spells_number (n : Nat) : (number n : Expr τ).Spells P := spells_literal _

@[simp] theorem spells_field {base : Expr τ} {part : String} :
    (field base part).Spells P ↔ base.Spells P := Iff.rfl

@[simp] theorem spells_index {base i : Expr τ} :
    (index base i).Spells P ↔ base.Spells P ∧ i.Spells P := List.forall_mem_append

@[simp] theorem spells_unary {op : UnaryOp} {operand : Expr τ} :
    (unary op operand).Spells P ↔ operand.Spells P := Iff.rfl

@[simp] theorem spells_binary {op : BinaryOp} {lhs rhs : Expr τ} :
    (binary op lhs rhs).Spells P ↔ lhs.Spells P ∧ rhs.Spells P := List.forall_mem_append

@[simp] theorem spells_floored {lhs rhs : Expr τ} :
    (floored lhs rhs).Spells P ↔ lhs.Spells P ∧ rhs.Spells P := List.forall_mem_append

@[simp] theorem spells_addressOf {place : Expr τ} :
    (addressOf place).Spells P ↔ place.Spells P := Iff.rfl

@[simp] theorem spells_deref {pointer : Expr τ} : (deref pointer).Spells P ↔ pointer.Spells P :=
  Iff.rfl

/-- The types in arguments are those in each of them. -/
theorem forall_mem_typesOf {args : List (Expr τ)} :
    (∀ t ∈ typesOf args, P t) ↔ ∀ e ∈ args, e.Spells P := by
  induction args with
  | nil => simp [typesOf]
  | cons e rest ih => rw [typesOf, List.forall_mem_append, List.forall_mem_cons, ih, Spells]

@[simp] theorem spells_construct {t : τ} {args : List (Expr τ)} :
    (construct t args).Spells P ↔ P t ∧ ∀ e ∈ args, e.Spells P := by
  rw [← forall_mem_typesOf]
  exact List.forall_mem_cons

@[simp] theorem spells_call {f : String} {args : List (Expr τ)} :
    (apply (.function f) args).Spells P ↔ ∀ e ∈ args, e.Spells P := forall_mem_typesOf

@[simp] theorem spells_builtin {f : String} {args : List (Expr τ)} :
    (builtin f args).Spells P ↔ ∀ e ∈ args, e.Spells P := forall_mem_typesOf

end Expr

/-! ## Statements -/

namespace Stmt

variable {τ : Type}

mutual

/-- The types that a statement spells, in the order of the text. -/
def types : Stmt τ → List τ
  | declare t _ (some e) => t :: e.types
  | declare t _ none => [t]
  | assign target _ value => target.types ++ value.types
  | eval e | discardValue e | returnWith (some e) => e.types
  | conditional branches (some otherwise) => branchTypes branches ++ blockTypes otherwise
  | conditional branches none => branchTypes branches
  | forRange t _ first last body => t :: (first.types ++ last.types ++ blockTypes body)
  | whileDo cond body => cond.types ++ blockTypes body
  | doWhile body cond | loop body cond => blockTypes body ++ cond.types
  | block body => blockTypes body
  | returnWith none | breakLoop | continueLoop | discard => []
termination_by structural s => s

/-- The types that a block spells. -/
def blockTypes : List (Stmt τ) → List τ
  | [] => []
  | s :: rest => s.types ++ blockTypes rest
termination_by structural body => body

/-- The types that the branches of a conditional spell. -/
def branchTypes : List (Expr τ × List (Stmt τ)) → List τ
  | [] => []
  | (cond, body) :: rest => cond.types ++ blockTypes body ++ branchTypes rest
termination_by structural branches => branches

end

end Stmt

end Code

/-! ## What statements declare and assign to -/

namespace Stmt

variable {ε δ : Type}

mutual

/-- At every depth, the variables that a statement declares and the targets that it assigns to are
as told, and a conditional has branches. -/
def Meets (declares : VarId → Prop) (assigns : ε → Prop) : Stmt ε → Prop
  | declare v _ => declares v
  | assign target _ _ => assigns target
  | conditional branches (some otherwise) =>
    branches ≠ [] ∧ BranchesMeet declares assigns branches ∧ BlockMeets declares assigns otherwise
  | conditional branches none => branches ≠ [] ∧ BranchesMeet declares assigns branches
  | forRange counter _ _ body => declares counter ∧ BlockMeets declares assigns body
  | whileDo _ body | doWhile body _ | block body => BlockMeets declares assigns body
  | eval _ | returnWith _ | breakLoop | continueLoop | discard => True
termination_by structural s => s

/-- What the statements of a block declare and assign to is as told. -/
def BlockMeets (declares : VarId → Prop) (assigns : ε → Prop) : List (Stmt ε) → Prop
  | [] => True
  | s :: rest => s.Meets declares assigns ∧ BlockMeets declares assigns rest
termination_by structural body => body

/-- What the branches of a conditional declare and assign to is as told. -/
def BranchesMeet (declares : VarId → Prop) (assigns : ε → Prop) :
    List (ε × List (Stmt ε)) → Prop
  | [] => True
  | (_, body) :: rest => BlockMeets declares assigns body ∧ BranchesMeet declares assigns rest
termination_by structural branches => branches

end

section Meets

variable {V V' : VarId → Prop} {A A' : ε → Prop}

/-- A longer block meets what both of its parts do. -/
theorem blockMeets_append {body more : List (Stmt ε)} :
    BlockMeets V A (body ++ more) ↔ BlockMeets V A body ∧ BlockMeets V A more := by
  induction body with
  | nil => simp [BlockMeets]
  | cons s rest ih => rw [List.cons_append, BlockMeets, BlockMeets, ih, and_assoc]

/-- More branches meet what all of them do. -/
theorem branchesMeet_append {branches more : List (ε × List (Stmt ε))} :
    BranchesMeet V A (branches ++ more) ↔ BranchesMeet V A branches ∧ BranchesMeet V A more := by
  induction branches with
  | nil => simp [BranchesMeet]
  | cons branch rest ih => rw [List.cons_append, BranchesMeet, BranchesMeet, ih, and_assoc]

/-- A block of one statement meets what the statement does. -/
theorem blockMeets_singleton {s : Stmt ε} : BlockMeets V A [s] ↔ s.Meets V A := by
  simp [BlockMeets]

/-- Replacing the last statement of a block by one that meets the same. -/
theorem BlockMeets.replaceLast {f : Stmt ε → Option (Stmt ε)}
    (hf : ∀ s s', f s = some s' → s.Meets V A → s'.Meets V A) {body body' : List (Stmt ε)}
    (h : replaceLast? f body = some body') (hbody : BlockMeets V A body) :
    BlockMeets V A body' := by
  fun_induction replaceLast? f body generalizing body' with
  | case1 => cases h
  | case2 s =>
      obtain ⟨s', hs', rfl⟩ := Option.map_eq_some_iff.mp h
      rw [blockMeets_singleton] at hbody ⊢
      exact hf s s' hs' hbody
  | case3 s rest _ ih =>
      obtain ⟨rest', hrest', rfl⟩ := Option.map_eq_some_iff.mp h
      exact ⟨hbody.1, ih hrest' hbody.2⟩

/-- A conditional still meets it with one more branch. -/
theorem Meets.addBranch {cond : ε} {body : List (Stmt ε)} {s s' : Stmt ε}
    (h : addBranch? cond body s = some s') (hs : s.Meets V A) (hbody : BlockMeets V A body) :
    s'.Meets V A := by
  unfold addBranch? at h
  split at h
  · obtain rfl := Option.some.inj h
    exact ⟨by simp, branchesMeet_append.mpr ⟨hs.2, hbody, trivial⟩⟩
  · cases h

/-- A conditional still meets it with a last branch. -/
theorem Meets.addElse {body : List (Stmt ε)} {s s' : Stmt ε} (h : addElse? body s = some s')
    (hs : s.Meets V A) (hbody : BlockMeets V A body) : s'.Meets V A := by
  unfold addElse? at h
  split at h
  · obtain rfl := Option.some.inj h
    exact ⟨hs.1, hs.2, hbody⟩
  · cases h

mutual

/-- A statement meets what is weaker, by recursion on it. -/
theorem Meets.imp (hV : ∀ v, V v → V' v) (hA : ∀ e, A e → A' e) :
    (s : Stmt ε) → s.Meets V A → s.Meets V' A'
  | declare v _, h => hV v h
  | assign target _ _, h => hA target h
  | conditional branches (some otherwise), h =>
    ⟨h.1, BranchesMeet.imp hV hA branches h.2.1, BlockMeets.imp hV hA otherwise h.2.2⟩
  | conditional branches none, h => ⟨h.1, BranchesMeet.imp hV hA branches h.2⟩
  | forRange counter _ _ body, h => ⟨hV counter h.1, BlockMeets.imp hV hA body h.2⟩
  | whileDo _ body, h | doWhile body _, h | block body, h => BlockMeets.imp hV hA body h
  | eval _, _ | returnWith _, _ | breakLoop, _ | continueLoop, _ | discard, _ => trivial
termination_by structural s => s

/-- A block meets what is weaker, by recursion on it. -/
theorem BlockMeets.imp (hV : ∀ v, V v → V' v) (hA : ∀ e, A e → A' e) :
    (body : List (Stmt ε)) → BlockMeets V A body → BlockMeets V' A' body
  | [], _ => trivial
  | s :: rest, h => ⟨Meets.imp hV hA s h.1, BlockMeets.imp hV hA rest h.2⟩
termination_by structural body => body

/-- Branches meet what is weaker, by recursion on them. -/
theorem BranchesMeet.imp (hV : ∀ v, V v → V' v) (hA : ∀ e, A e → A' e) :
    (branches : List (ε × List (Stmt ε))) → BranchesMeet V A branches →
      BranchesMeet V' A' branches
  | [], _ => trivial
  | (_, body) :: rest, h => ⟨BlockMeets.imp hV hA body h.1, BranchesMeet.imp hV hA rest h.2⟩
termination_by structural branches => branches

end

end Meets

/-! ### Statements read back -/

section Traversal

variable {V : VarId → Prop} {A : ε → Prop} {f : ε → Except ShaderError δ}

/-- An expression that has been read from one with a property. -/
def ReadFrom (f : ε → Except ShaderError δ) (A : ε → Prop) (e : δ) : Prop :=
  ∃ n, A n ∧ f n = .ok e

/-- As many branches are read back. -/
theorem traverseBranches_ne_nil {branches : List (ε × List (Stmt ε))}
    {branches' : List (δ × List (Stmt δ))} (hne : branches ≠ [])
    (h : traverseBranches f branches = .ok branches') : branches' ≠ [] := by
  cases branches with
  | nil => exact absurd rfl hne
  | cons b rest =>
      simp only [traverseBranches, bind_eq_ok_iff] at h
      obtain ⟨cond', -, body', -, rest', -, h⟩ := h
      rw [← Except.ok.inj h]
      exact List.cons_ne_nil _ _

mutual

/-- A statement read back declares the same, and assigns to what its targets are read back to. -/
theorem Meets.traverse : (s : Stmt ε) → {s' : Stmt δ} → s.traverse f = .ok s' → s.Meets V A →
    s'.Meets V (ReadFrom f A)
  | declare v init, s', h, hs => by
      simp only [Stmt.traverse, bind_eq_ok_iff] at h
      obtain ⟨init', -, h⟩ := h
      rw [← Except.ok.inj h]
      exact hs
  | assign target op value, s', h, hs => by
      simp only [Stmt.traverse, bind_eq_ok_iff] at h
      obtain ⟨target', htarget, value', -, h⟩ := h
      rw [← Except.ok.inj h]
      exact ⟨target, hs, htarget⟩
  | conditional branches (some otherwise), s', h, hs => by
      simp only [Stmt.traverse, bind_eq_ok_iff] at h
      obtain ⟨branches', hbranches, otherwise', hotherwise, h⟩ := h
      rw [← Except.ok.inj h]
      exact ⟨traverseBranches_ne_nil hs.1 hbranches,
        BranchesMeet.traverse branches hbranches hs.2.1,
        BlockMeets.traverse otherwise hotherwise hs.2.2⟩
  | conditional branches none, s', h, hs => by
      simp only [Stmt.traverse, bind_eq_ok_iff] at h
      obtain ⟨branches', hbranches, h⟩ := h
      rw [← Except.ok.inj h]
      exact ⟨traverseBranches_ne_nil hs.1 hbranches, BranchesMeet.traverse branches hbranches hs.2⟩
  | forRange counter first last body, s', h, hs => by
      simp only [Stmt.traverse, bind_eq_ok_iff] at h
      obtain ⟨first', -, last', -, body', hbody, h⟩ := h
      rw [← Except.ok.inj h]
      exact ⟨hs.1, BlockMeets.traverse body hbody hs.2⟩
  | whileDo cond body, s', h, hs => by
      simp only [Stmt.traverse, bind_eq_ok_iff] at h
      obtain ⟨cond', -, body', hbody, h⟩ := h
      rw [← Except.ok.inj h]
      exact BlockMeets.traverse body hbody hs
  | doWhile body cond, s', h, hs => by
      simp only [Stmt.traverse, bind_eq_ok_iff] at h
      obtain ⟨body', hbody, cond', -, h⟩ := h
      rw [← Except.ok.inj h]
      exact BlockMeets.traverse body hbody hs
  | block body, s', h, hs => by
      simp only [Stmt.traverse, bind_eq_ok_iff] at h
      obtain ⟨body', hbody, h⟩ := h
      rw [← Except.ok.inj h]
      exact BlockMeets.traverse body hbody hs
  | eval e, s', h, _ | returnWith e, s', h, _ => by
      simp only [Stmt.traverse, bind_eq_ok_iff] at h
      obtain ⟨e', -, h⟩ := h
      rw [← Except.ok.inj h]
      trivial
  | breakLoop, s', h, _ | continueLoop, s', h, _ | discard, s', h, _ => by
      rw [← Except.ok.inj h]
      trivial
termination_by structural s => s

/-- A block that is read back meets it, by recursion on it. -/
theorem BlockMeets.traverse : (body : List (Stmt ε)) → {body' : List (Stmt δ)} →
    traverseBlock f body = .ok body' → BlockMeets V A body → BlockMeets V (ReadFrom f A) body'
  | [], body', h, _ => by
      rw [← Except.ok.inj h]
      trivial
  | s :: rest, body', h, hbody => by
      simp only [traverseBlock, bind_eq_ok_iff] at h
      obtain ⟨s', hs, rest', hrest, h⟩ := h
      rw [← Except.ok.inj h]
      exact ⟨Meets.traverse s hs hbody.1, BlockMeets.traverse rest hrest hbody.2⟩
termination_by structural body => body

/-- Branches that are read back meet it, by recursion on them. -/
theorem BranchesMeet.traverse : (branches : List (ε × List (Stmt ε))) →
    {branches' : List (δ × List (Stmt δ))} → traverseBranches f branches = .ok branches' →
      BranchesMeet V A branches → BranchesMeet V (ReadFrom f A) branches'
  | [], branches', h, _ => by
      rw [← Except.ok.inj h]
      trivial
  | (cond, body) :: rest, branches', h, hbranches => by
      simp only [traverseBranches, bind_eq_ok_iff] at h
      obtain ⟨cond', -, body', hbody, rest', hrest, h⟩ := h
      rw [← Except.ok.inj h]
      exact ⟨BlockMeets.traverse body hbody hbranches.1,
        BranchesMeet.traverse rest hrest hbranches.2⟩
termination_by structural branches => branches

end

end Traversal

end Stmt

/-! ## Lowering -/

namespace Code

namespace Lowering

/-- Rules that spell types with a property, for variables, for expressions whose types have one of
their own, and for assignments to certain targets. -/
structure SpellsTypes {τ : Type} (rules : Lowering τ) (P : τ → Prop) (V : VarId → Prop)
    (D : TypeId → Prop) (A : Term → Prop) : Prop where
  var : ∀ {v d type}, V v → rules.var v = .ok d → rules.type d.type = .ok type → P type
  expr : ∀ {e code}, (∀ t ∈ e.types, D t) → rules.expr e = .ok code → code.Spells P
  assign : ∀ {target op value s}, A target → (∀ t ∈ target.types, D t) → (∀ t ∈ value.types, D t) →
    rules.assign target op value = .ok s → ∀ type ∈ s.types, P type
  eval : ∀ {e s}, (∀ t ∈ e.types, D t) → rules.eval e = .ok s → ∀ type ∈ s.types, P type
  doWhile : ∀ {body cond}, (∀ type ∈ Stmt.blockTypes body, P type) → cond.Spells P →
    ∀ type ∈ (rules.doWhile body cond).types, P type

section Lowered

variable {τ : Type} {rules : Lowering τ} {P : τ → Prop} {V : VarId → Prop} {D : TypeId → Prop}
  {A : Term → Prop}

theorem spells_of_optional (h : rules.SpellsTypes P V D A) {e : Term} {init : Option (Expr τ)}
    (he : ∀ t ∈ e.types, D t) (hinit : rules.optional (some e) = .ok init) :
    ∃ code, init = some code ∧ code.Spells P := by
  rw [optional] at hinit
  cases hcode : rules.expr e with
  | error fault =>
      rw [hcode] at hinit
      cases hinit
  | ok code =>
      rw [hcode] at hinit
      exact ⟨code, (Except.ok.inj hinit).symm, h.expr he hcode⟩

mutual

/-- A lowered statement spells the types of the variables that it declares and those that its
expressions ask for. -/
theorem spells_stmt (h : rules.SpellsTypes P V D A) :
    (s : WebShader.Stmt Term) → {code : Stmt τ} → s.Meets V A → (∀ t ∈ s.types, D t) →
      rules.stmt s = .ok code → ∀ type ∈ code.types, P type
  | .declare v none, code, hs, _, hcode => by
      simp only [stmt, bind_eq_ok_iff] at hcode
      obtain ⟨d, hd, type, htype, init, hinit, hcode⟩ := hcode
      obtain rfl := Except.ok.inj hinit
      rw [← Except.ok.inj hcode, Stmt.types, List.forall_mem_singleton]
      exact h.var hs hd htype
  | .declare v (some e), code, hs, he, hcode => by
      simp only [stmt, bind_eq_ok_iff] at hcode
      obtain ⟨d, hd, type, htype, init, hinit, hcode⟩ := hcode
      obtain ⟨value, rfl, hvalue⟩ := spells_of_optional h he hinit
      rw [← Except.ok.inj hcode, Stmt.types, List.forall_mem_cons]
      exact ⟨h.var hs hd htype, hvalue⟩
  | .assign target op value, code, hs, he, hcode => by
      rw [WebShader.Stmt.types, List.forall_mem_append] at he
      exact h.assign hs he.1 he.2 hcode
  | .eval e, code, _, he, hcode => h.eval he hcode
  | .conditional cases none, code, hs, he, hcode => by
      simp only [stmt, bind_eq_ok_iff] at hcode
      obtain ⟨branches', hbranches, hcode⟩ := hcode
      rw [← Except.ok.inj hcode, Stmt.types]
      exact spells_branches h cases hs.2 he hbranches
  | .conditional cases (some otherwise), code, hs, he, hcode => by
      simp only [stmt, bind_eq_ok_iff] at hcode
      obtain ⟨branches', hbranches, otherwise', hotherwise, hcode⟩ := hcode
      rw [WebShader.Stmt.types, List.forall_mem_append] at he
      rw [← Except.ok.inj hcode, Stmt.types, List.forall_mem_append]
      exact ⟨spells_branches h cases hs.2.1 he.1 hbranches,
        spells_block h otherwise hs.2.2 he.2 hotherwise⟩
  | .forRange counter first last body, code, hs, he, hcode => by
      simp only [stmt, bind_eq_ok_iff] at hcode
      obtain ⟨d, hd, type, htype, first', hfirst, last', hlast, body', hbody, hcode⟩ := hcode
      rw [WebShader.Stmt.types, List.forall_mem_append, List.forall_mem_append] at he
      rw [← Except.ok.inj hcode, Stmt.types, List.forall_mem_cons, List.forall_mem_append,
        List.forall_mem_append]
      exact ⟨h.var hs.1 hd htype, ⟨h.expr he.1.1 hfirst, h.expr he.1.2 hlast⟩,
        spells_block h body hs.2 he.2 hbody⟩
  | .whileDo cond body, code, hs, he, hcode => by
      simp only [stmt, bind_eq_ok_iff] at hcode
      obtain ⟨cond', hcond, body', hbody, hcode⟩ := hcode
      rw [WebShader.Stmt.types, List.forall_mem_append] at he
      rw [← Except.ok.inj hcode, Stmt.types, List.forall_mem_append]
      exact ⟨h.expr he.1 hcond, spells_block h body hs he.2 hbody⟩
  | .doWhile body cond, code, hs, he, hcode => by
      simp only [stmt, bind_eq_ok_iff] at hcode
      obtain ⟨body', hbody, cond', hcond, hcode⟩ := hcode
      rw [WebShader.Stmt.types, List.forall_mem_append] at he
      rw [← Except.ok.inj hcode]
      exact h.doWhile (spells_block h body hs he.2 hbody) (h.expr he.1 hcond)
  | .block body, code, hs, he, hcode => by
      simp only [stmt, bind_eq_ok_iff] at hcode
      obtain ⟨body', hbody, hcode⟩ := hcode
      rw [← Except.ok.inj hcode, Stmt.types]
      exact spells_block h body hs he hbody
  | .returnWith none, code, _, _, hcode => by
      simp only [stmt, bind_eq_ok_iff] at hcode
      obtain ⟨value, hvalue, hcode⟩ := hcode
      obtain rfl := Except.ok.inj hvalue
      rw [← Except.ok.inj hcode]
      simp [Stmt.types]
  | .returnWith (some e), code, _, he, hcode => by
      simp only [stmt, bind_eq_ok_iff] at hcode
      obtain ⟨init, hinit, hcode⟩ := hcode
      obtain ⟨value, rfl, hvalue⟩ := spells_of_optional h he hinit
      rw [← Except.ok.inj hcode, Stmt.types]
      exact hvalue
  | .breakLoop, code, _, _, hcode | .continueLoop, code, _, _, hcode
  | .discard, code, _, _, hcode => by
      rw [← Except.ok.inj hcode]
      simp [Stmt.types]
termination_by structural s => s

theorem spells_block (h : rules.SpellsTypes P V D A) :
    (body : List (WebShader.Stmt Term)) → {code : List (Stmt τ)} →
      WebShader.Stmt.BlockMeets V A body → (∀ t ∈ WebShader.Stmt.blockTypes body, D t) →
        rules.block body = .ok code → ∀ type ∈ Stmt.blockTypes code, P type
  | [], code, _, _, hcode => by
      rw [← Except.ok.inj hcode]
      simp [Stmt.blockTypes]
  | s :: rest, code, hbody, he, hcode => by
      simp only [block, bind_eq_ok_iff] at hcode
      obtain ⟨s', hs, rest', hrest, hcode⟩ := hcode
      rw [WebShader.Stmt.blockTypes, List.forall_mem_append] at he
      rw [← Except.ok.inj hcode, Stmt.blockTypes, List.forall_mem_append]
      exact ⟨spells_stmt h s hbody.1 he.1 hs, spells_block h rest hbody.2 he.2 hrest⟩
termination_by structural body => body

theorem spells_branches (h : rules.SpellsTypes P V D A) :
    (cases : List (Term × List (WebShader.Stmt Term))) →
      {code : List (Expr τ × List (Stmt τ))} → WebShader.Stmt.BranchesMeet V A cases →
        (∀ t ∈ WebShader.Stmt.branchTypes cases, D t) → rules.branches cases = .ok code →
          ∀ type ∈ Stmt.branchTypes code, P type
  | [], code, _, _, hcode => by
      rw [← Except.ok.inj hcode]
      simp [Stmt.branchTypes]
  | (cond, body) :: rest, code, hcases, he, hcode => by
      simp only [branches, bind_eq_ok_iff] at hcode
      obtain ⟨cond', hcond, body', hbody, rest', hrest, hcode⟩ := hcode
      rw [WebShader.Stmt.branchTypes, List.forall_mem_append, List.forall_mem_append] at he
      rw [← Except.ok.inj hcode, Stmt.branchTypes, List.forall_mem_append, List.forall_mem_append]
      exact ⟨⟨h.expr he.1.1 hcond, spells_block h body hcases.1 he.1.2 hbody⟩,
        spells_branches h rest hcases.2 he.2 hrest⟩
termination_by structural cases => cases

end

end Lowered

end Lowering

end Code

end WebShader
