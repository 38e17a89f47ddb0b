import WebShader.Builder

/-!
# Terms

An expression read back from the arena as a tree, and blocks of statements over such trees.
-/

namespace WebShader

/-! ## Trees -/

/-- An expression as a tree; each tree starts with its type. -/
inductive Term where
  | literal (type : TypeId) (value : Literal)
  | var (type : TypeId) (v : VarId)
  | builtin (type : TypeId) (b : Builtin)
  | member (type : TypeId) (base : Term) (index : Nat)
  | swizzle (type : TypeId) (base : Term) (mask : Swizzle)
  | index (type : TypeId) (base index : Term)
  | unary (type : TypeId) (op : UnaryOp) (operand : Term)
  | binary (type : TypeId) (op : BinaryOp) (lhs rhs : Term)
  | construct (type : TypeId) (args : List Term)
  | call (type : TypeId) (f : FunctionId) (args : List Term)
  | intrinsic (type : TypeId) (f : Intrinsic) (args : List Term)
  | addressOf (type : TypeId) (place : Term)
  | deref (type : TypeId) (pointer : Term)

namespace Term

/-- The type of a tree. -/
def type : Term → TypeId
  | literal t _ | var t _ | builtin t _ | member t _ _ | swizzle t _ _ | index t _ _
  | unary t _ _ | binary t _ _ _ | construct t _ | call t _ _ | intrinsic t _ _ | addressOf t _
  | deref t _ => t

mutual

/-- The types of a tree and of its subtrees, each before those of its operands. -/
def types : Term → List TypeId
  | literal t _ | var t _ | builtin t _ => [t]
  | member t base _ | swizzle t base _ => t :: base.types
  | index t base i => t :: (base.types ++ i.types)
  | unary t _ operand => t :: operand.types
  | binary t _ lhs rhs => t :: (lhs.types ++ rhs.types)
  | construct t args | call t _ args | intrinsic t _ args => t :: typesOf args
  | addressOf t place => t :: place.types
  | deref t pointer => t :: pointer.types

/-- The types of several trees. -/
def typesOf : List Term → List TypeId
  | [] => []
  | e :: rest => e.types ++ typesOf rest

end

end Term

/-! ## Reading the arena -/

namespace Builder

/-- The tree of an expression. -/
def term (b : Builder) (n : NodeId) : Except ShaderError Term :=
  let operand (m : NodeId) : Except ShaderError Term :=
    if m.index < n.index then b.term m else .error (.internal (.undefinedExpression m.index))
  match b.node? n with
  | none => .error (.internal (.undefinedExpression n.index))
  | some ⟨t, kind⟩ =>
    match kind with
    | .literal value => .ok (.literal t value)
    | .var v => .ok (.var t v)
    | .builtin builtin => .ok (.builtin t builtin)
    | .member base i => return .member t (← operand base) i
    | .swizzle base mask => return .swizzle t (← operand base) mask
    | .index base i => return .index t (← operand base) (← operand i)
    | .unary op e => return .unary t op (← operand e)
    | .binary op lhs rhs => return .binary t op (← operand lhs) (← operand rhs)
    | .construct args => return .construct t (← args.mapM operand)
    | .call f args => return .call t f (← args.mapM operand)
    | .intrinsic f args => return .intrinsic t f (← args.mapM operand)
    | .addressOf place => return .addressOf t (← operand place)
    | .deref pointer => return .deref t (← operand pointer)
termination_by n.index

/-- The tree is read from the expressions alone. -/
theorem term_congr {b b' : Builder} (hnodes : b'.nodes = b.nodes) (n : NodeId) :
    b'.term n = b.term n := by
  have hoperand : ∀ (m : NodeId) x, (if m.index < n.index then b'.term m else x) =
      if m.index < n.index then b.term m else x := fun m x => by
    split
    · exact term_congr hnodes m
    · rfl
  have hnode : b'.node? n = b.node? n := by rw [node?, node?, hnodes]
  rw [term, term, hnode]
  simp only [hoperand]
termination_by n.index

end Builder

/-! ## Statements over trees -/

namespace Stmt

/-- The value with its content replaced, if there is one. -/
def optional {ε δ : Type} (f : ε → Except ShaderError δ) : Option ε → Except ShaderError (Option δ)
  | none => .ok none
  | some e => (f e).map some

mutual

/-- The statement with each of its expressions replaced. -/
def traverse {ε δ : Type} (f : ε → Except ShaderError δ) : Stmt ε → Except ShaderError (Stmt δ)
  | declare v init => return declare v (← optional f init)
  | assign target op value => return assign (← f target) op (← f value)
  | eval e => return eval (← f e)
  | conditional branches (some otherwise) =>
    return conditional (← traverseBranches f branches) (some (← traverseBlock f otherwise))
  | conditional branches none => return conditional (← traverseBranches f branches) none
  | forRange counter first last body =>
    return forRange counter (← f first) (← f last) (← traverseBlock f body)
  | whileDo cond body => return whileDo (← f cond) (← traverseBlock f body)
  | doWhile body cond => return doWhile (← traverseBlock f body) (← f cond)
  | block body => return block (← traverseBlock f body)
  | returnWith value => return returnWith (← optional f value)
  | breakLoop => .ok breakLoop
  | continueLoop => .ok continueLoop
  | discard => .ok discard
termination_by structural s => s

/-- The block with each of its expressions replaced. -/
def traverseBlock {ε δ : Type} (f : ε → Except ShaderError δ) :
    List (Stmt ε) → Except ShaderError (List (Stmt δ))
  | [] => .ok []
  | s :: rest => return (← s.traverse f) :: (← traverseBlock f rest)
termination_by structural body => body

/-- The branches with each of their expressions replaced. -/
def traverseBranches {ε δ : Type} (f : ε → Except ShaderError δ) :
    List (ε × List (Stmt ε)) → Except ShaderError (List (δ × List (Stmt δ)))
  | [] => .ok []
  | (cond, body) :: rest =>
    return (← f cond, ← traverseBlock f body) :: (← traverseBranches f rest)
termination_by structural branches => branches

end

mutual

/-- The types in the expressions of a statement; those of the condition of a loop come before those
of its body. -/
def types : Stmt Term → List TypeId
  | declare _ (some e) | eval e | returnWith (some e) => e.types
  | assign target _ value => target.types ++ value.types
  | conditional branches (some otherwise) => branchTypes branches ++ blockTypes otherwise
  | conditional branches none => branchTypes branches
  | forRange _ first last body => first.types ++ last.types ++ blockTypes body
  | whileDo cond body | doWhile body cond => cond.types ++ blockTypes body
  | block body => blockTypes body
  | declare _ none | returnWith none | breakLoop | continueLoop | discard => []
termination_by structural s => s

/-- The types in the expressions of a block. -/
def blockTypes : List (Stmt Term) → List TypeId
  | [] => []
  | s :: rest => s.types ++ blockTypes rest
termination_by structural body => body

/-- The types in the expressions of the branches of a conditional. -/
def branchTypes : List (Term × List (Stmt Term)) → List TypeId
  | [] => []
  | (cond, body) :: rest => cond.types ++ blockTypes body ++ branchTypes rest
termination_by structural branches => branches

end

end Stmt

end WebShader
