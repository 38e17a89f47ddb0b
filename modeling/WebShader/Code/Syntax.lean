import WebShader.Operator

/-!
# Target code

Expressions and statements of a target language, over the types `τ` of that language. The two
families of languages share this syntax and differ by how they spell types and statements.
-/

namespace WebShader

namespace Code

/-! ## Expressions -/

/-- What is applied to arguments: a type, a function of the program or a built-in function. -/
inductive Callee (τ : Type) where
  | type (t : τ)
  | function (name : String)
  | builtin (name : String)

/-- An expression. The floored remainder of two expressions is written out with a quotient. -/
inductive Expr (τ : Type) where
  | literal (text : String)
  | name (name : String)
  | field (base : Expr τ) (name : String)
  | index (base index : Expr τ)
  | unary (op : UnaryOp) (operand : Expr τ)
  | binary (op : BinaryOp) (lhs rhs : Expr τ)
  | apply (callee : Callee τ) (args : List (Expr τ))
  | floored (lhs rhs : Expr τ)
  | addressOf (place : Expr τ)
  | deref (pointer : Expr τ)

namespace Expr

variable {τ : Type}

/-- The application of a type to arguments. -/
def construct (t : τ) (args : List (Expr τ)) : Expr τ := apply (.type t) args

/-- The application of a built-in function to arguments. -/
def builtin (name : String) (args : List (Expr τ)) : Expr τ := apply (.builtin name) args

/-- The literal of a natural number without suffix. -/
def number (n : Nat) : Expr τ := literal (toString n)

end Expr

/-! ## Statements -/

/-- A statement. A loop that tests its condition at the end is written in one of two ways: `doWhile`
names the condition to go on, `loop` the condition to leave. -/
inductive Stmt (τ : Type) where
  | declare (type : τ) (name : String) (init : Option (Expr τ))
  | assign (target : Expr τ) (op : Option BinaryOp) (value : Expr τ)
  | eval (e : Expr τ)
  | discardValue (e : Expr τ)
  | conditional (branches : List (Expr τ × List (Stmt τ))) (otherwise : Option (List (Stmt τ)))
  | forRange (type : τ) (counter : String) (first last : Expr τ) (body : List (Stmt τ))
  | whileDo (cond : Expr τ) (body : List (Stmt τ))
  | doWhile (body : List (Stmt τ)) (cond : Expr τ)
  | loop (body : List (Stmt τ)) (breakIf : Expr τ)
  | block (body : List (Stmt τ))
  | returnWith (value : Option (Expr τ))
  | breakLoop
  | continueLoop
  | discard

end Code

end WebShader
