import WebShader.Code.Lowering
import WebShader.Glsl.TypeName

/-!
# GLSL ES expressions

Comparisons of vectors are functions, the remainder of floats is `mod`, and GLSL ES 1.00 has no
remainder of integers and looks textures up by functions of its own.
-/

namespace WebShader

namespace Glsl

/-- An expression of GLSL ES. -/
abbrev Expr := Code.Expr TypeName

/-- A statement of GLSL ES. -/
abbrev Stmt := Code.Stmt TypeName

/-! ## Literals and variables -/

/-- A literal. The least integer is a difference, as its digits without the sign are too large. -/
def literal : Literal → Expr
  | .bool b => .literal (toString b)
  | .i32 i => if i = -2147483648 then .binary .sub (.literal "-2147483647") (.literal "1")
    else .literal (toString i)
  | .u32 n => .literal (toString n ++ "u")
  | .f32 x | .f16 x => .literal (x.literalText .single)

/-- A variable. Uniforms are members of their block, and the outputs of a fragment in GLSL ES 1.00
have fixed names. -/
def variableExpr (s : ResolvedStage) (v : VarId) : Except ShaderError Expr := do
  let d ← s.var v
  match d.role with
  | .uniform _ => return .field (.name (← s.record v d).name) d.name
  | .output location =>
    if s.target = .webGL && s.stage = .fragment then
      if s.decls.outputs.length = 1 then return .name "gl_FragColor"
      else return .index (.name "gl_FragData") (.number location)
    else return .name d.name
  | _ => return .name d.name

/-! ## Operators -/

/-- The function that compares vectors. -/
def comparison : BinaryOp → String
  | .eq => "equal"
  | .ne => "notEqual"
  | .lt => "lessThan"
  | .le => "lessThanEqual"
  | .gt => "greaterThan"
  | _ => "greaterThanEqual"

/-- An expression converted to floats. -/
def toFloat (p : PrimitiveType) (e : Expr) : Expr :=
  .construct (.primitive (p.withScalar .f32)) [e]

/-- The remainder of two expressions of primitive types, of a given type. -/
def remainder (s : ResolvedStage) (lhs : Expr) (l : PrimitiveType) (rhs : Expr) (r : PrimitiveType)
    (t : TypeId) : Except ShaderError Expr :=
  if l.scalar.isFloat then .ok (.builtin "mod" [lhs, rhs])
  else if s.target = .webGL then
    match s.types.primitive? t with
    | some p =>
      .ok (.construct (.primitive p) [.builtin "mod" [toFloat l lhs, toFloat r rhs]])
    | none => .error (.internal .remainderType)
  else .ok (.binary .rem lhs rhs)

/-- A binary operation on expressions of given types, of a given type. -/
def binary (s : ResolvedStage) (op : BinaryOp) (lhs : Expr) (lt : TypeId) (rhs : Expr)
    (rt t : TypeId) : Except ShaderError Expr :=
  match s.types.primitive? lt, s.types.primitive? rt with
  | some l, some r =>
    if op.isComparison && l.isVector then .ok (.builtin (comparison op) [lhs, rhs])
    else if op = .rem then remainder s lhs l rhs r t
    else .ok (.binary op lhs rhs)
  | _, _ => .error (.internal .binaryOperands)

/-- A unary operation of a given type. -/
def unary (s : ResolvedStage) (op : UnaryOp) (operand : Expr) (t : TypeId) : Expr :=
  if op = .not && (s.types.primitive? t).any (·.isVector) then .builtin "not" [operand]
  else .unary op operand

/-! ## Constructors -/

/-- The zero of a component type. -/
def zeroLiteral : ScalarKind → String
  | .bool => "false"
  | .i32 => "0"
  | .u32 => "0u"
  | .f32 | .f16 => "0.0"

/-- The zero value of a type. -/
def zero (s : ResolvedStage) (t : TypeId) : Except ShaderError Expr :=
  match s.types.primitive? t with
  | none => .error (.internal .zeroValue)
  | some p =>
    let zero := Code.Expr.literal (zeroLiteral p.scalar)
    .ok (if p.isScalar then zero else .construct (.primitive p) [zero])

/-- A value of a type built from arguments; without any it is zero. -/
def construct (s : ResolvedStage) (t : TypeId) (args : List Expr) : Except ShaderError Expr :=
  if args.isEmpty then zero s t else (typeOf s t).map fun name => .construct name args

/-! ## Textures -/

/-- A vector of `n` floats. -/
def vec (n : UInt8) (args : List Expr) : Expr := .construct (.primitive (.vector .f32 n)) args

/-- A scalar converted to a float. -/
def float (e : Expr) : Expr := .construct (.primitive (.ofScalar .f32)) [e]

/-- A call on a texture in GLSL ES 1.00. Depths are compared after the lookup. -/
def lookup100 (stage : Stage) (f : Intrinsic) (t : TextureType) (texture : Expr)
    (args : List Expr) : Option Expr :=
  let base := if t.dimension = .cube then "textureCube" else "texture2D"
  match f, args with
  | .textureSample, [c] => some (.builtin base [texture, c])
  | .textureSampleLevel, [c, level] =>
    let lod := if stage = .fragment then "LodEXT" else "Lod"
    some (.builtin (base ++ lod) [texture, c, level])
  | .textureSampleCompare, [c, depth] =>
    some (.builtin "step" [depth, .field (.builtin base [texture, c]) "r"])
  | _, _ => none

/-- A call on a texture in GLSL ES 3.00. A layer is the last coordinate, and a depth to compare with
comes after the coordinates. -/
def lookup300 (f : Intrinsic) (t : TextureType) (texture : Expr) (args : List Expr) :
    Option Expr :=
  let n := t.coordComponents + 1
  match f, args with
  | .textureSample, [c] => some (.builtin "texture" [texture, c])
  | .textureSample, [c, layer] => some (.builtin "texture" [texture, vec n [c, float layer]])
  | .textureSampleLevel, [c, level] => some (.builtin "textureLod" [texture, c, level])
  | .textureSampleLevel, [c, layer, level] =>
    some (.builtin "textureLod" [texture, vec n [c, float layer], level])
  | .textureSampleCompare, [c, depth] => some (.builtin "texture" [texture, vec n [c, depth]])
  | .textureSampleCompare, [c, layer, depth] =>
    some (.builtin "texture" [texture, vec 4 [c, float layer, depth]])
  | .textureLoad, [c, level] => some (.builtin "texelFetch" [texture, c, level])
  | .textureLoad, [c, layer, level] =>
    let texel := Code.Expr.construct (.primitive (.vector .i32 3)) [c, layer]
    some (.builtin "texelFetch" [texture, texel, level])
  | .textureDimensions, args =>
    let size := Code.Expr.builtin "textureSize" [texture, args.headD (.literal "0")]
    some (if t.isArray then .field size "xy" else size)
  | _, _ => none

/-- A call on a texture of a given type. -/
def textureCall (s : ResolvedStage) (f : Intrinsic) (t : Option TextureType) :
    List Expr → Except ShaderError Expr
  | [] => .error (.internal .textureMissing)
  | texture :: args =>
    match t with
    | none => .error (.internal .notTexture)
    | some t =>
      let call := if s.target = .webGL then lookup100 s.stage f t texture args
        else lookup300 f t texture args
      match call with
      | some e => .ok e
      | none => .error (.internal (.textureSpelling f t s.target))

/-! ## Terms -/

mutual

/-- The expression of a term. -/
def expr (s : ResolvedStage) : Term → Except ShaderError Expr
  | .literal _ value => .ok (literal value)
  | .var _ v => variableExpr s v
  | .builtin _ b => .ok (.name (b.glslName s.target))
  | .member _ base i => do
    let m ← s.member base.type i
    return .field (← expr s base) m.name
  | .swizzle _ base mask => return .field (← expr s base) mask.text
  | .index _ base i => do
    let base ← expr s base
    return .index base (← expr s i)
  | .unary t op operand => return unary s op (← expr s operand) t
  | .binary t op lhs rhs => do
    let l ← expr s lhs
    let r ← expr s rhs
    binary s op l lhs.type r rhs.type t
  | .construct t args => do construct s t (← exprs s args)
  | .call _ f args => do
    let fn ← s.function f
    return .apply (.function (s.functionName fn)) (← exprs s args)
  | .intrinsic _ f args => do
    let lowered ← exprs s args
    if f.isTexture then
      textureCall s f (args.head?.bind (s.types.texture? ·.type)) lowered
    else return .builtin f.glslName lowered
  | .addressOf _ _ | .deref _ _ => .error (.internal .pointerSpelling)

/-- The expressions of several terms. -/
def exprs (s : ResolvedStage) : List Term → Except ShaderError (List Expr)
  | [] => .ok []
  | e :: rest => do
    let e ← expr s e
    return e :: (← exprs s rest)

end

/-! ## Statements -/

/-- Whether a compound assignment of an operator is written out. -/
def isWrittenOut : BinaryOp → Bool
  | .rem | .and | .or => true
  | _ => false

/-- An assignment. -/
def assign (s : ResolvedStage) (target : Term) (op : Option BinaryOp) (value : Term) :
    Except ShaderError Stmt := do
  let t ← expr s target
  let v ← expr s value
  match op with
  | none => return .assign t none v
  | some op =>
    if isWrittenOut op then
      return .assign t none (← binary s op t target.type v value.type target.type)
    else return .assign t (some op) v

/-- The rules of GLSL ES. -/
def lowering (s : ResolvedStage) : Code.Lowering TypeName where
  var := s.var
  type := typeOf s
  expr := expr s
  assign := assign s
  eval e := (expr s e).map .eval
  doWhile := .doWhile

end Glsl

end WebShader
