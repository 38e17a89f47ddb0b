import WebShader.Binary.Printer
import WebShader.Type.Registry

/-!
# Values

The operands of authoring operations: values of the host program, which take their type from where
they stand, and expressions of the program being built.
-/

namespace WebShader

/-! ## Literals -/

/-- A typed literal. Literals of both floating-point types hold 32-bit data. -/
inductive Literal where
  | bool (value : Bool)
  | i32 (value : Int)
  | u32 (value : Nat)
  | f32 (value : Binary)
  | f16 (value : Binary)
  deriving DecidableEq

/-- The type of a literal. -/
def Literal.scalar : Literal → ScalarKind
  | bool _ => .bool
  | i32 _ => .i32
  | u32 _ => .u32
  | f32 _ => .f32
  | f16 _ => .f16

/-! ## Host values -/

/-- A value of the host program: a boolean, an integer of 64 bits or a float of 64 bits. -/
inductive HostValue where
  | bool (value : Bool)
  | int (value : Int)
  | float (value : Binary)
  deriving DecidableEq

/-- The odd factor of a natural: what remains once it is halved as often as possible. -/
def oddPart (n : Nat) : Nat := if n = 0 || n % 2 = 1 then n else oddPart (n / 2)
termination_by n
decreasing_by simp only [Bool.or_eq_true, decide_eq_true_eq] at *; omega

/-- Whether the integer is a mantissa of some bits times a power of two. -/
def isExactIn (bits : Nat) (i : Int) : Bool := oddPart i.natAbs < Nat.pow 2 bits

/-- Whether the integer has 32 bits, a sign included. -/
def isI32 (i : Int) : Bool := -2147483648 ≤ i && i < 2147483648

/-- Whether the integer has 32 bits and no sign. -/
def isU32 (i : Int) : Bool := 0 ≤ i && i < 4294967296

namespace HostValue

/-- Whether the value can stand for a scalar of a type: integers must be exact, floats in range. -/
def fits : HostValue → ScalarKind → Bool
  | bool _, .bool => true
  | int i, .i32 => isI32 i
  | int i, .u32 => isU32 i
  | int i, .f32 => isExactIn 24 i
  | int i, .f16 => isExactIn 11 i && i.natAbs ≤ Binary.maxHalf
  | float x, .f32 => x.isWithin Binary.maxSingle
  | float x, .f16 => x.isWithin Binary.maxHalf
  | _, _ => false

/-- Whether the value is a float. -/
def isFloat : HostValue → Bool
  | float _ => true
  | _ => false

/-- The value as messages quote it. -/
def text : HostValue → String
  | bool _ => "bool literal"
  | int i => "integer literal " ++ toString i
  | float x => "float literal " ++ x.text .double

/-- The literal of a value, of the type asked for or, without one, of the type of its own: `bool`,
`i32`, or `u32` where that is too narrow, or `f32`. -/
def toLiteral : HostValue → Option ScalarKind → Except TypeFault Literal
  | bool b, none | bool b, some .bool => .ok (.bool b)
  | int i, none =>
    if isI32 i then .ok (.i32 i)
    else if isU32 i then .ok (.u32 i.toNat)
    else .error (.integerRange i "i32 or u32")
  | int i, some .i32 => if isI32 i then .ok (.i32 i) else .error (.integerRange i "i32")
  | int i, some .u32 => if isU32 i then .ok (.u32 i.toNat) else .error (.integerRange i "u32")
  | int i, some .f32 =>
    if (int i).fits .f32 then .ok (.f32 (Binary.ofInt .single i))
    else .error (.integerInexact i .f32)
  | int i, some .f16 =>
    if (int i).fits .f16 then .ok (.f16 (Binary.ofInt .single i))
    else .error (.integerInexact i .f16)
  | float x, none | float x, some .f32 =>
    if (float x).fits .f32 then .ok (.f32 (x.convert .single))
    else .error (.floatRange (x.text .double))
  | float x, some .f16 =>
    if (float x).fits .f16 then .ok (.f16 (x.convert .single))
    else .error (.floatRange (x.text .double))
  | v, some k => .error (.literal v.text k)

/-- A literal made for a type has that type. -/
theorem scalar_of_toLiteral {v : HostValue} {k : ScalarKind} {l : Literal}
    (h : v.toLiteral (some k) = .ok l) : l.scalar = k := by
  cases v <;> cases k <;> simp only [toLiteral] at h <;> (try split at h) <;>
    first | cases h; rfl | cases h

/-- A value that fits a type has a literal of that type. -/
theorem exists_toLiteral_of_fits {v : HostValue} {k : ScalarKind} (h : v.fits k = true) :
    ∃ l, v.toLiteral (some k) = .ok l := by
  cases v <;> cases k <;> simp_all [fits, toLiteral]

end HostValue

/-! ## Expressions -/

/-- An expression of the program being built. -/
structure NodeId where
  index : Nat
  deriving DecidableEq

/-- A handle to an expression, with its type. -/
structure Expr where
  node : NodeId
  type : TypeId
  deriving DecidableEq

/-- An operand. -/
inductive Value where
  | host (value : HostValue)
  | expr (e : Expr)
  deriving DecidableEq

namespace Value

/-- Whether the operand is a host value that can stand for a scalar of a type. -/
def fits : Value → ScalarKind → Bool
  | host v, k => v.fits k
  | expr _, _ => false

/-- Whether the operand is a float of the host program. -/
def isFloat : Value → Bool
  | host v => v.isFloat
  | expr _ => false

end Value

end WebShader
