import WebShader.Code.Syntax

/-!
# The text of target code

Operators are printed with parentheses around each binary operation and around the operand of each
unary one, so that no reader needs to know their precedence.
-/

namespace WebShader

namespace Code

/-- How a language spells what the syntax leaves open: its types, the declaration of a local
variable, a condition, and the test of a counter against its bound. -/
structure Dialect (τ : Type) where
  type : τ → String
  declaration : τ → String → String
  condition : String → String
  bound : String → String → String

/-! ## Expressions -/

namespace Callee

/-- The text of what is applied. -/
def text {τ : Type} (d : Dialect τ) : Callee τ → String
  | type t => d.type t
  | function name => name
  | builtin name => name

end Callee

namespace Expr

variable {τ : Type} (d : Dialect τ)

mutual

/-- The text of an expression. -/
def text : Expr τ → String
  | literal s => s
  | name s => s
  | field base part => base.text ++ "." ++ part
  | index base i => base.text ++ "[" ++ i.text ++ "]"
  | unary op operand => op.symbol ++ "(" ++ operand.text ++ ")"
  | binary op lhs rhs => "(" ++ lhs.text ++ " " ++ op.symbol ++ " " ++ rhs.text ++ ")"
  | apply callee args => callee.text d ++ "(" ++ ", ".intercalate (texts args) ++ ")"
  | floored lhs rhs =>
    "(" ++ lhs.text ++ " - " ++ rhs.text ++ " * floor(" ++ lhs.text ++ " / " ++ rhs.text ++ "))"
  | addressOf place => "&" ++ place.text
  | deref pointer => "(*" ++ pointer.text ++ ")"

/-- The texts of several expressions. -/
def texts : List (Expr τ) → List String
  | [] => []
  | e :: rest => e.text :: texts rest

end

end Expr

/-! ## Statements -/

/-- The spaces of an indentation level. -/
def indent (width level : Nat) : String := String.ofList (List.replicate (level * width) ' ')

namespace Stmt

variable {τ : Type} (d : Dialect τ) (width : Nat)

/-- The text of the value a declaration or `return` may have. -/
def optional (before : String) : Option (Expr τ) → String
  | none => ""
  | some e => before ++ e.text d

mutual

/-- The text of a statement, from its first word on; it ends the line. -/
def text (level : Nat) : Stmt τ → String
  | declare type name init => d.declaration type name ++ optional d " = " init ++ ";\n"
  | assign target none value => target.text d ++ " = " ++ value.text d ++ ";\n"
  | assign target (some op) value =>
    target.text d ++ " " ++ op.symbol ++ "= " ++ value.text d ++ ";\n"
  | eval e => e.text d ++ ";\n"
  | discardValue e => "_ = " ++ e.text d ++ ";\n"
  | conditional branches none => branchTexts level "" branches ++ "\n"
  | conditional branches (some body) =>
    branchTexts level "" branches ++ " else \x7b\n" ++ blockText (level + 1) body ++
      indent width level ++ "\x7d\n"
  | forRange type counter first last body =>
    "for (" ++ d.declaration type counter ++ " = " ++ first.text d ++ "; " ++
      d.bound counter (last.text d) ++ "; " ++ counter ++ "++) \x7b\n" ++
      blockText (level + 1) body ++ indent width level ++ "\x7d\n"
  | whileDo cond body =>
    "while " ++ d.condition (cond.text d) ++ " \x7b\n" ++ blockText (level + 1) body ++
      indent width level ++ "\x7d\n"
  | doWhile body cond =>
    "do \x7b\n" ++ blockText (level + 1) body ++ indent width level ++ "\x7d while " ++
      d.condition (cond.text d) ++ ";\n"
  | loop body breakIf =>
    "loop \x7b\n" ++ blockText (level + 1) body ++
      indent width (level + 1) ++ "continuing \x7b\n" ++
      indent width (level + 2) ++ "break if " ++ breakIf.text d ++ ";\n" ++
      indent width (level + 1) ++ "\x7d\n" ++ indent width level ++ "\x7d\n"
  | block body => "\x7b\n" ++ blockText (level + 1) body ++ indent width level ++ "\x7d\n"
  | returnWith value => "return" ++ optional d " " value ++ ";\n"
  | breakLoop => "break;\n"
  | continueLoop => "continue;\n"
  | discard => "discard;\n"
termination_by structural s => s

/-- The text of a block, indented. -/
def blockText (level : Nat) : List (Stmt τ) → String
  | [] => ""
  | s :: rest => indent width level ++ s.text level ++ blockText level rest
termination_by structural body => body

/-- The text of the branches of a conditional, the first one after the given text. -/
def branchTexts (level : Nat) (before : String) : List (Expr τ × List (Stmt τ)) → String
  | [] => ""
  | (cond, body) :: rest =>
    before ++ "if " ++ d.condition (cond.text d) ++ " \x7b\n" ++ blockText (level + 1) body ++
      indent width level ++ "\x7d" ++ branchTexts level " else " rest
termination_by structural branches => branches

end

end Stmt

end Code

end WebShader
