import WebShader.Function

/-!
# Constructors

Scalars and vectors are built from nothing, from one value to convert or to repeat, or from parts
whose components add up; matrices from columns or components; arrays and structs from one value
for each element or member.
-/

namespace WebShader

namespace Build

/-! ## Scalars, vectors and matrices -/

/-- The refusal of arguments a primitive type is not built from. -/
def constructFailure (p : PrimitiveType) (args : List Value) : Build ShaderError := do
  return .parameter (.construct p ((← get).describeAll args))

/-- The expression of an argument; a host value takes the component type of the result. -/
def component (p : PrimitiveType) (args : List Value) (v : Value) : Build Expr := do
  match v with
  | .expr e => return e
  | .host h =>
    if !h.fits p.scalar then throw (← constructFailure p args)
    lower v (some p.scalar)

/-- The expressions of parts of a vector, and how many components they have, given how many the
parts before them have. The count is a byte and may overflow. -/
def vectorParts (p : PrimitiveType) (args : List Value) :
    Nat → List Value → Build (List NodeId × Nat)
  | before, [] => return ([], before)
  | before, v :: rest => do
    let e ← component p args v
    match (← get).types.primitive? e.type with
    | some q =>
      if q.isMatrix || q.scalar ≠ p.scalar then throw (← constructFailure p args)
      if 256 ≤ before + q.components.toNat then throw .overflow
      let (nodes, count) ← vectorParts p args (before + q.components.toNat) rest
      return (e.node :: nodes, count)
    | none => throw (← constructFailure p args)

/-- Whether one expression of a type can be converted to a scalar or vector or repeated in it. -/
def converts (p : PrimitiveType) : Option PrimitiveType → Bool
  | some q =>
    if !q.isMatrix && q.rows = p.rows then true
    else q.isScalar && q.scalar = p.scalar
  | none => false

/-- The operands of the constructor of a scalar or vector. -/
def vectorArgs (p : PrimitiveType) (args : List Value) : Build (List NodeId) := do
  match args with
  | [] => return []
  | [.expr e] =>
    if !converts p ((← get).types.primitive? e.type) then throw (← constructFailure p args)
    return [e.node]
  | [v] => return [(← component p args v).node]
  | _ =>
    let (nodes, count) ← vectorParts p args 0 args
    if count ≠ p.components.toNat then throw (← constructFailure p args)
    return nodes

/-- The expressions of parts of a matrix, all of one type. -/
def matrixParts (p part : PrimitiveType) (args : List Value) : List Value → Build (List NodeId)
  | [] => return []
  | v :: rest => do
    let e ← component p args v
    if (← get).types.primitive? e.type ≠ some part then throw (← constructFailure p args)
    return e.node :: (← matrixParts p part args rest)

/-- The operands of the constructor of a matrix: nothing, its columns, or its components. -/
def matrixArgs (p : PrimitiveType) (args : List Value) : Build (List NodeId) := do
  if args.length = p.cols.toNat then matrixParts p p.element args args
  else if args.length = p.components.toNat then
    matrixParts p (.ofScalar p.scalar) args args
  else if args.isEmpty then return []
  else throw (← constructFailure p args)

/-! ## Arrays and structs -/

/-- The expressions of the elements or members of a value, each of its own type. -/
def memberParts (what : String) : List (Value × TypeId) → Build (List NodeId)
  | [] => return []
  | (v, t) :: rest => do
    let b ← get
    if !b.accepts t v then
      throw (.parameter (.memberValue what (b.types.display t) (b.describe v)))
    let e ← coerce v t what
    return e.node :: (← memberParts what rest)

/-- The operands of the constructor of a value of `count` parts. -/
def memberArgs (t : TypeId) (count : Nat) (types : List TypeId) (args : List Value) :
    Build (List NodeId) := do
  let what := (← get).types.display t
  if count ≠ args.length then throw (.parameter (.valueCount what count args.length))
  memberParts what (args.zip types)

/-! ## Construction -/

/-- Build a value of a type. -/
def construct (shape : TypeShape) (args : List Value) : Build Expr := do
  let t ← type shape
  let r := (← get).types
  let nodes ← match r.kind t with
    | .primitive p => if p.isMatrix then matrixArgs p args else vectorArgs p args
    | .array element n => do
      if n = 0 then throw (.parameter (.noConstructor (r.display t)))
      require .arrayConstructor
      memberArgs t n (args.map fun _ => element) args
    | .struct s => memberArgs t s.members.length (s.members.map (·.type)) args
    | _ => throw (.parameter (.noConstructor (r.display t)))
  pushNode t (.construct nodes)

end Build

end WebShader
