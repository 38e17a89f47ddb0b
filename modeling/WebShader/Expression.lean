import WebShader.Scope

/-!
# Operands and operators

Host values become literals, typed after the operand they stand next to where they fit its type.
-/

namespace WebShader

/-! ## Literals -/

/-- Whether the target has a component type. -/
def Target.supportsScalar (t : Target) : ScalarKind → Bool
  | .u32 => t.supports .unsignedInt
  | .f16 => t.supports .float16
  | _ => true

namespace Builder

/-- The component type of a primitive type. -/
def scalarOf? (b : Builder) (t : TypeId) : Option ScalarKind :=
  (b.types.primitive? t).map (·.scalar)

/-- Whether an operand can stand where a type is expected. -/
def accepts (b : Builder) (t : TypeId) : Value → Bool
  | .expr e => e.type == t
  | .host v =>
    match b.types.primitive? t with
    | some p => p.isScalar && v.fits p.scalar && b.target.supportsScalar p.scalar
    | none => false

/-- Whether an operand can stand where a primitive type is expected. -/
def acceptsPrimitive (b : Builder) (p : PrimitiveType) : Value → Bool
  | .expr e => b.types.primitive? e.type == some p
  | .host v => p.isScalar && v.fits p.scalar

end Builder

namespace Build

/-- Record a literal. -/
def literal (l : Literal) : Build Expr := do
  match l with
  | .u32 _ => require .unsignedInt
  | .f16 _ => require .float16
  | _ => pure ()
  pushNode (← intern (Interning.scalar l.scalar)) (.literal l)

/-- The expression of an operand; a host value takes the type asked for, or its own without one. -/
def lower (v : Value) (hint : Option ScalarKind) : Build Expr := do
  match v with
  | .expr e => return e
  | .host v =>
    match v.toLiteral hint with
    | .ok l => literal l
    | .error fault => throw (.type fault)

/-- The expression of an operand; a host value takes the type suggested where it fits it. -/
def lowerNear (v : Value) (hint : Option ScalarKind) : Build Expr :=
  match hint with
  | some k => if v.fits k then lower v (some k) else lower v none
  | none => lower v none

/-- The expression of an operand where a type is expected. -/
def coerce (v : Value) (t : TypeId) (what : String) : Build Expr := do
  let e ← lowerNear v ((← get).scalarOf? t)
  let r := (← get).types
  if e.type ≠ t then throw (.type (.expected what (r.display t) (r.display e.type)))
  return e

/-- The expressions of two operands, a host value taking the type of the other operand. Of two host
values, one of which is a float, both are floats where they can be. -/
def lowerPair (lhs rhs : Value) : Build (Expr × Expr) := do
  match lhs, rhs with
  | .expr l, rhs =>
    let r ← lowerNear rhs ((← get).scalarOf? l.type)
    return (l, r)
  | lhs, .expr r =>
    let l ← lowerNear lhs ((← get).scalarOf? r.type)
    return (l, r)
  | lhs, rhs =>
    let hint := if lhs.isFloat || rhs.isFloat then some .f32 else none
    let l ← lowerNear lhs hint
    let r ← lowerNear rhs ((← get).scalarOf? l.type)
    return (l, r)

/-- The primitive type of the operand of an operation. -/
def operandType (e : Expr) (operation : String) : Build PrimitiveType := do
  let r := (← get).types
  match r.primitive? e.type with
  | some p => return p
  | none => throw (.type (.operand operation (r.display e.type)))

end Build

/-! ## Operators -/

namespace BinaryOp

/-- The type of a product in which a matrix takes part. -/
def matrixProduct? (l r : PrimitiveType) : Option PrimitiveType :=
  if l.isMatrix && r.isMatrix then
    if l.cols = r.rows then some (.matrix l.scalar r.cols l.rows) else none
  else if l.isMatrix && r.isVector then
    if l.cols = r.rows then some (.vector l.scalar l.rows) else none
  else if l.isVector && r.isMatrix then
    if l.rows = r.rows then some (.vector l.scalar r.cols) else none
  else if l.isMatrix && r.isScalar then some l
  else if l.isScalar && r.isMatrix then some r
  else none

/-- The type of an operation that works component by component: operands of one type, or a scalar
and a vector. -/
def componentwise? (l r : PrimitiveType) : Option PrimitiveType :=
  if l = r then some l
  else if l.isScalar && r.isVector then some r
  else if l.isVector && r.isScalar then some l
  else none

/-- The type of the result of an operator, if it applies to its operands. -/
def result? (op : BinaryOp) (l r : PrimitiveType) : Option PrimitiveType :=
  if op.isLogical then if l = r && l = .ofScalar .bool then some l else none
  else if op.isComparison then
    if l = r && !l.isMatrix && !(op.isOrdering && l.scalar == .bool) then some (l.withScalar .bool)
    else none
  else if op.isShift then
    if l.scalar.isInteger && r.scalar.isInteger && l.rows = r.rows && !l.isMatrix && !r.isMatrix
    then some l
    else none
  else if l.scalar ≠ r.scalar || l.scalar = .bool then none
  else if op.isBitwise && !l.scalar.isInteger then none
  else if l.isMatrix || r.isMatrix then
    if op = .mul then matrixProduct? l r
    else if (op = .add || op = .sub) && l = r then some l
    else none
  else componentwise? l r

end BinaryOp

/-- Whether an operator applies to an operand. -/
def UnaryOp.appliesTo (op : UnaryOp) (p : PrimitiveType) : Bool :=
  !p.isMatrix && match op with
    | .neg => p.scalar == .i32 || p.scalar.isFloat
    | .not => p.scalar == .bool
    | .bitNot => p.scalar.isInteger

namespace Build

/-- The type of an operator applied to two expressions. -/
def binaryType (op : BinaryOp) (lhs rhs : Expr) : Build TypeId := do
  let l ← operandType lhs op.symbol
  let r ← operandType rhs op.symbol
  match op.result? l r with
  | some p => intern (Interning.primitive p)
  | none => throw (.type (.binary op l r))

/-- Apply a binary operator. -/
def binary (op : BinaryOp) (lhs rhs : Value) : Build Expr := do
  if op.isBitwise then require .bitwiseOps
  let (l, r) ← lowerPair lhs rhs
  pushNode (← binaryType op l r) (.binary op l.node r.node)

/-- Apply a unary operator. -/
def unary (op : UnaryOp) (operand : Value) : Build Expr := do
  if op = .bitNot then require .bitwiseOps
  let e ← lower operand (if op = .not then some .bool else none)
  let p ← operandType e "unary operator"
  if !op.appliesTo p then throw (.type (.unary op p))
  pushNode e.type (.unary op e.node)

/-- Convert a scalar or vector to another component type. -/
def cast (v : Value) (k : ScalarKind) : Build Expr := do
  let e ← lower v none
  let p ← operandType e "cast"
  if p.isMatrix then throw (.type (.cast p k))
  let t ← type (.primitive (p.withScalar k))
  pushNode t (.construct [e.node])

end Build

end WebShader
