/-!
# Operators
-/

namespace WebShader

/-! ## Unary operators -/

/-- A unary operator. -/
inductive UnaryOp where
  | neg
  | not
  | bitNot
  deriving DecidableEq

namespace UnaryOp

/-- Every unary operator. -/
def all : List UnaryOp := [neg, not, bitNot]

/-- The name of the operator. -/
def name : UnaryOp → String
  | neg => "Neg"
  | not => "Not"
  | bitNot => "BitNot"

/-- The sign of the operator. -/
def symbol : UnaryOp → String
  | neg => "-"
  | not => "!"
  | bitNot => "~"

/-- The operator whose name is `s`. -/
def ofName? (s : String) : Option UnaryOp := all.find? (·.name == s)

end UnaryOp

/-! ## Binary operators -/

/-- A binary operator. -/
inductive BinaryOp where
  | add
  | sub
  | mul
  | div
  | rem
  | and
  | or
  | bitAnd
  | bitOr
  | bitXor
  | shl
  | shr
  | eq
  | ne
  | lt
  | le
  | gt
  | ge
  deriving DecidableEq

namespace BinaryOp

/-- Every binary operator. -/
def all : List BinaryOp :=
  [add, sub, mul, div, rem, and, or, bitAnd, bitOr, bitXor, shl, shr, eq, ne, lt, le, gt, ge]

/-- The name of the operator. -/
def name : BinaryOp → String
  | add => "Add"
  | sub => "Sub"
  | mul => "Mul"
  | div => "Div"
  | rem => "Rem"
  | and => "And"
  | or => "Or"
  | bitAnd => "BitAnd"
  | bitOr => "BitOr"
  | bitXor => "BitXor"
  | shl => "Shl"
  | shr => "Shr"
  | eq => "Eq"
  | ne => "Ne"
  | lt => "Lt"
  | le => "Le"
  | gt => "Gt"
  | ge => "Ge"

/-- The sign of the operator. -/
def symbol : BinaryOp → String
  | add => "+"
  | sub => "-"
  | mul => "*"
  | div => "/"
  | rem => "%"
  | and => "&&"
  | or => "||"
  | bitAnd => "&"
  | bitOr => "|"
  | bitXor => "^"
  | shl => "<<"
  | shr => ">>"
  | eq => "=="
  | ne => "!="
  | lt => "<"
  | le => "<="
  | gt => ">"
  | ge => ">="

/-- The operator whose name is `s`. -/
def ofName? (s : String) : Option BinaryOp := all.find? (·.name == s)

/-- Whether the operator compares its operands. -/
def isComparison : BinaryOp → Bool
  | eq | ne | lt | le | gt | ge => true
  | _ => false

/-- Whether the operator compares the order of its operands. -/
def isOrdering : BinaryOp → Bool
  | lt | le | gt | ge => true
  | _ => false

/-- Whether the operator works on the bits of integers. -/
def isBitwise : BinaryOp → Bool
  | bitAnd | bitOr | bitXor | shl | shr => true
  | _ => false

/-- Whether the operator combines conditions. -/
def isLogical : BinaryOp → Bool
  | and | or => true
  | _ => false

/-- Whether the operator shifts its left operand. -/
def isShift : BinaryOp → Bool
  | shl | shr => true
  | _ => false

end BinaryOp

end WebShader
