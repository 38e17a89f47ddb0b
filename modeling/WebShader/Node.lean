import WebShader.Swizzle
import WebShader.Value

/-!
# Expression nodes and statements

Expressions are nodes of an arena and refer to each other by their place in it; a node comes after
its operands. Statements own their blocks.
-/

namespace WebShader

/-! ## Handles -/

/-- A variable of the program. -/
structure VarId where
  index : Nat
  deriving DecidableEq

/-- A function, by its place among the functions of its stage. -/
structure FunctionId where
  index : Nat
  deriving DecidableEq

/-! ## Nodes -/

/-- What an expression is made of. The type of a constructor is the type of its node. -/
inductive NodeKind where
  | literal (value : Literal)
  | var (v : VarId)
  | builtin (b : Builtin)
  | member (base : NodeId) (index : Nat)
  | swizzle (base : NodeId) (mask : Swizzle)
  | index (base index : NodeId)
  | unary (op : UnaryOp) (operand : NodeId)
  | binary (op : BinaryOp) (lhs rhs : NodeId)
  | construct (args : List NodeId)
  | call (f : FunctionId) (args : List NodeId)
  | intrinsic (f : Intrinsic) (args : List NodeId)
  | addressOf (place : NodeId)
  | deref (pointer : NodeId)
  deriving DecidableEq

/-- The operands of a node. -/
def NodeKind.operands : NodeKind → List NodeId
  | literal _ | var _ | builtin _ => []
  | member base _ | swizzle base _ => [base]
  | index base i => [base, i]
  | unary _ operand => [operand]
  | binary _ lhs rhs => [lhs, rhs]
  | construct args | call _ args | intrinsic _ args => args
  | addressOf place => [place]
  | deref pointer => [pointer]

/-- A typed expression. -/
structure Node where
  type : TypeId
  kind : NodeKind
  deriving DecidableEq

/-- An access to a part of an expression, which gives the same expression each time. -/
inductive Access where
  | member (index : Nat)
  | swizzle (mask : Swizzle)
  | index (index : Nat)
  deriving DecidableEq

/-! ## Statements -/

/-- A statement over expressions of type `ε`. A conditional has its branches in order and maybe a
block for when none is taken. -/
inductive Stmt (ε : Type) where
  | declare (v : VarId) (init : Option ε)
  | assign (target : ε) (op : Option BinaryOp) (value : ε)
  | eval (e : ε)
  | conditional (branches : List (ε × List (Stmt ε))) (otherwise : Option (List (Stmt ε)))
  | forRange (counter : VarId) (first last : ε) (body : List (Stmt ε))
  | whileDo (cond : ε) (body : List (Stmt ε))
  | doWhile (body : List (Stmt ε)) (cond : ε)
  | block (body : List (Stmt ε))
  | returnWith (value : Option ε)
  | breakLoop
  | continueLoop
  | discard

/-- A sequence of recorded statements. -/
abbrev Block := List (Stmt NodeId)

namespace Stmt

mutual

/-- Whether every way through the statement meets a `return`. -/
def alwaysReturns {ε : Type} : Stmt ε → Bool
  | returnWith _ => true
  | block body => blockReturns body
  | conditional branches (some otherwise) => branchesReturn branches && blockReturns otherwise
  | _ => false
termination_by structural s => s

/-- Whether the last statement of a block always returns. -/
def blockReturns {ε : Type} : List (Stmt ε) → Bool
  | [] => false
  | [s] => s.alwaysReturns
  | _ :: rest => blockReturns rest
termination_by structural body => body

/-- Whether every branch always returns. -/
def branchesReturn {ε : Type} : List (ε × List (Stmt ε)) → Bool
  | [] => true
  | (_, body) :: rest => blockReturns body && branchesReturn rest
termination_by structural branches => branches

end

/-- The conditional with one more branch, if its last branch is not an `else`. -/
def addBranch? {ε : Type} (cond : ε) (body : List (Stmt ε)) : Stmt ε → Option (Stmt ε)
  | conditional branches none => some (conditional (branches ++ [(cond, body)]) none)
  | _ => none

/-- The conditional with an `else` branch, if it has none. -/
def addElse? {ε : Type} (body : List (Stmt ε)) : Stmt ε → Option (Stmt ε)
  | conditional branches none => some (conditional branches (some body))
  | _ => none

end Stmt

/-- The block whose last statement has been replaced, if there is one and it can be. -/
def replaceLast? {α : Type} (f : α → Option α) : List α → Option (List α)
  | [] => none
  | [s] => (f s).map fun s => [s]
  | s :: rest => (replaceLast? f rest).map (s :: ·)

end WebShader
