import WebShader.Code.Lowering
import WebShader.Wgsl.TypeName

/-!
# WGSL expressions

What enters and leaves a stage is held by two private variables. A value stored under `std140`
rules may be wrapped: it is unwrapped where it is used as a value, and wrapped where it is stored.
-/

namespace WebShader

namespace Wgsl

/-- An expression of WGSL. -/
abbrev Expr := Code.Expr TypeName

/-- A statement of WGSL. -/
abbrev Stmt := Code.Stmt TypeName

/-! ## Literals and variables -/

/-- A literal. The least integer is converted, as it is out of the range of its own suffix. -/
def literal : Literal → Expr
  | .bool b => .literal (toString b)
  | .i32 i =>
    if i = -2147483648 then .construct (.primitive (.ofScalar .i32)) [.literal (toString i)]
    else .literal (toString i ++ "i")
  | .u32 n => .literal (toString n ++ "u")
  | .f32 x => .literal (x.literalText .single)
  | .f16 x => .literal (x.literalText .single ++ "h")

/-- The variable that holds what enters a stage. -/
def stageIn : Expr := .name "stage_in"

/-- The variable that holds what leaves a stage. -/
def stageOut : Expr := .name "stage_out"

/-- A variable. Uniforms are members of their block, inputs and outputs of the variables that hold
what enters and leaves the stage. -/
def variableExpr (s : ResolvedStage) (v : VarId) : Except ShaderError Expr := do
  let d ← s.var v
  match d.role with
  | .uniform _ => return .field (.name (← s.record v d).name) d.name
  | .input _ _ => return .field stageIn d.name
  | .output _ => return .field stageOut d.name
  | .texture _ | .sampler _ | .storage _ _ => return .name (← s.record v d).name
  | _ => return .name d.name

/-! ## Wrapping -/

/-- The value of a type that a wrapped place holds. -/
def load (r : Registry) (t : TypeId) (place : Expr) : Except ShaderError Expr :=
  match r.kind t with
  | .primitive p =>
    if isPaddedMatrix p then
      .ok (.construct (.primitive p)
        ((List.range p.cols.toNat).map fun c => .field place ("c" ++ toString c)))
    else .ok place
  | .array element n => do
    if n = 0 then throw (.type .paddedRuntime)
    let items ← (List.range n).mapM fun k =>
      let item := Code.Expr.index place (.number k)
      match scalarElement? r element with
      | some _ => .ok (.field item "v")
      | none => if element.index < t.index then load r element item else .ok item
    return .construct (← typeName r t) items
  | _ => .ok place
termination_by t.index

/-- What to store in a wrapped place for a value of a type. -/
def store (r : Registry) (t : TypeId) (value : Expr) : Except ShaderError Expr :=
  match r.kind t with
  | .primitive p =>
    if isPaddedMatrix p then
      .ok (.construct (.padded p)
        ((List.range p.cols.toNat).map fun c => .index value (.number c)))
    else .ok value
  | .array element n => do
    if n = 0 then throw (.type .paddedRuntime)
    let items ← (List.range n).mapM fun k =>
      let item := Code.Expr.index value (.number k)
      match scalarElement? r element with
      | some p => .ok (.construct (.padded p) [item])
      | none => if element.index < t.index then store r element item else .ok item
    return .construct (← std140TypeName r t) items
  | _ => .ok value
termination_by t.index

/-- Whether a term names something stored under `std140` rules: a uniform, a member of a struct
that follows them, or an element of something wrapped. -/
def isStd140Place (s : ResolvedStage) : Term → Bool
  | .var _ v => s.vars[v.index]?.any (·.role.isUniform)
  | .member _ base _ => (s.types.struct? base.type).any (·.policy == .std140)
  | .index _ base _ => isStd140Place s base && isPadded s.types base.type
  | _ => false

/-- Whether a term is spelled with wrappers. -/
def isPaddedPlace (s : ResolvedStage) (e : Term) : Bool :=
  isStd140Place s e && isPadded s.types e.type

/-- The value of a term, given its spelling as a place. -/
def converted (s : ResolvedStage) (e : Term) (place : Expr) : Except ShaderError Expr :=
  if isPaddedPlace s e then load s.types e.type place else .ok place

/-! ## Accesses -/

/-- The index that a literal stands for. -/
def literalIndex? : Term → Option Nat
  | .literal _ (.i32 i) => if 0 ≤ i then some i.toNat else none
  | .literal _ (.u32 n) => some n
  | _ => none

/-- An element of something wrapped, of a given type. -/
def wrappedElement (r : Registry) (t : TypeId) (place : Expr) (known : Option Nat) (index : Expr) :
    Except ShaderError Expr :=
  match r.kind t with
  | .primitive _ =>
    match known with
    | some c => .ok (.field place ("c" ++ toString c))
    | none => (load r t place).map fun value => .index value index
  | .array element _ =>
    if (scalarElement? r element).isSome then .ok (.field (.index place index) "v")
    else .ok (.index place index)
  | _ => .error (.internal .indexAccess)

/-- A shift amount of a given type, which must be unsigned. -/
def shiftAmount (r : Registry) (t : TypeId) (e : Expr) : Expr :=
  match r.primitive? t with
  | some p => if p.scalar = .i32 then .construct (.primitive (p.withScalar .u32)) [e] else e
  | none => e

/-! ## Calls -/

/-- The values of the members of a struct, wrapped where it follows `std140` rules. -/
def storeMembers (r : Registry) : List (Expr × Member) → Except ShaderError (List Expr)
  | [] => .ok []
  | (value, m) :: rest => do
    let value ← if isPadded r m.type then store r m.type value else pure value
    return value :: (← storeMembers r rest)

/-- A value of a type built from the values of its parts. -/
def construct (s : ResolvedStage) (t : TypeId) (args : List Expr) : Except ShaderError Expr :=
  match s.types.struct? t with
  | some struct =>
    if struct.policy = .std140 then
      (storeMembers s.types (args.zip struct.members)).map (.construct (.struct struct.name))
    else .ok (.construct (.struct struct.name) args)
  | none => (typeName s.types t).map fun name => .construct name args

/-- A lookup by way of a sampler. Only fragments have the derivatives that choose a level. -/
def sampling (stage : Stage) (f : Intrinsic) (args : List Expr) : Expr :=
  match f, stage with
  | .textureSample, .fragment => .builtin "textureSample" args
  | .textureSample, _ => .builtin "textureSampleLevel" (args ++ [.literal "0.0"])
  | .textureSampleCompare, .fragment => .builtin "textureSampleCompare" args
  | .textureSampleCompare, _ => .builtin "textureSampleCompareLevel" args
  | f, _ => .builtin f.wgslName args

/-- A call on a texture. -/
def textureCall (s : ResolvedStage) (f : Intrinsic) (texture : Option Term) :
    List Expr → Except ShaderError Expr
  | [] => .error (.internal .textureMissing)
  | t :: args =>
    if f = .textureLoad || f = .textureDimensions then .ok (.builtin f.wgslName (t :: args))
    else
      match texture with
      | some (.var _ v) => do
        let d ← s.var v
        match s.plan.samplerOf? v with
        | some b => return sampling s.stage f (t :: .name b.name :: args)
        | none => throw (.internal (.noSampler d.name))
      | _ => .error (.internal .textureNotDeclared)

/-- A call of a built-in function that works on no texture. -/
def builtinCall (f : Intrinsic) (args : List Expr) : Except ShaderError Expr :=
  match f, args with
  | .mod, [x, y] => .ok (.floored x y)
  | .mod, _ => .error (.internal .moduloArity)
  | f, args => .ok (.builtin f.wgslName args)

/-! ## Terms -/

mutual

/-- The spelling of a term, wrapped or not. -/
def place (s : ResolvedStage) : Term → Except ShaderError Expr
  | .literal _ value => .ok (literal value)
  | .var _ v => variableExpr s v
  | .builtin _ b => .ok (.field (if b.isOutput then stageOut else stageIn) b.memberName)
  | .member _ base i => do
    let m ← s.member base.type i
    return .field (← converted s base (← place s base)) m.name
  | .swizzle _ base mask => return .field (← converted s base (← place s base)) mask.text
  | .index _ base i => do
    let b ← place s base
    let index ← converted s i (← place s i)
    if isPaddedPlace s base then wrappedElement s.types base.type b (literalIndex? i) index
    else return .index b index
  | .unary _ op operand => return .unary op (← converted s operand (← place s operand))
  | .binary _ op lhs rhs => do
    let l ← converted s lhs (← place s lhs)
    let r ← converted s rhs (← place s rhs)
    return .binary op l (if op.isShift then shiftAmount s.types rhs.type r else r)
  | .construct t args => do construct s t (← values s args)
  | .call _ f args => do
    let fn ← s.function f
    return .apply (.function (s.functionName fn)) (← values s args)
  | .intrinsic _ f args => do
    let lowered ← values s args
    if f.isTexture then textureCall s f args.head? lowered else builtinCall f lowered
  | .addressOf _ e => do
    if isPaddedPlace s e then throw (.type .paddedAddress)
    return .addressOf (← place s e)
  | .deref _ pointer => return .deref (← converted s pointer (← place s pointer))

/-- The values of several terms. -/
def values (s : ResolvedStage) : List Term → Except ShaderError (List Expr)
  | [] => .ok []
  | e :: rest => do
    let value ← converted s e (← place s e)
    return value :: (← values s rest)

end

/-- The value of a term. -/
def expr (s : ResolvedStage) (e : Term) : Except ShaderError Expr := do
  converted s e (← place s e)

/-! ## Statements -/

/-- An assignment to something wrapped. -/
def assignWrapped (s : ResolvedStage) (target : Term) (op : Option BinaryOp) (value : Term) :
    Except ShaderError Stmt := do
  let t ← place s target
  let v ← expr s value
  let combined ← match op with
    | none => pure v
    | some op => (load s.types target.type t).map fun before => .binary op before v
  return .assign t none (← store s.types target.type combined)

/-- An assignment to something that is not wrapped. -/
def assignPlain (s : ResolvedStage) (target : Term) (op : Option BinaryOp) (value : Term) :
    Except ShaderError Stmt := do
  let t ← expr s target
  let v ← expr s value
  match op with
  | none => return .assign t none v
  | some op =>
    if op.isLogical then return .assign t none (.binary op t v)
    else if op.isShift then return .assign t (some op) (shiftAmount s.types value.type v)
    else return .assign t (some op) v

/-- An assignment. -/
def assign (s : ResolvedStage) (target : Term) (op : Option BinaryOp) (value : Term) :
    Except ShaderError Stmt :=
  if isPaddedPlace s target then assignWrapped s target op value
  else assignPlain s target op value

/-- An expression evaluated for its effects; a value must be dropped. -/
def eval (s : ResolvedStage) (e : Term) : Except ShaderError Stmt := do
  let value ← expr s e
  return if s.types.isVoid e.type then .eval value else .discardValue value

/-- The rules of WGSL. -/
def lowering (s : ResolvedStage) : Code.Lowering TypeName where
  var := s.var
  type := typeName s.types
  expr := expr s
  assign := assign s
  eval := eval s
  doWhile body cond := .loop body (.unary .not cond)

end Wgsl

end WebShader
