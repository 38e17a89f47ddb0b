import WebShader.Code.Printer
import WebShader.Resolved

/-!
# GLSL ES types
-/

namespace WebShader

namespace Glsl

/-! ## Names -/

/-- A type as GLSL ES spells it. -/
inductive TypeName where
  | void
  | primitive (type : PrimitiveType)
  | struct (name : String)
  | array (element : TypeName) (length : Nat)
  | sampler (name : String)
  deriving DecidableEq

/-- The prefix of the vectors of a component type. -/
def vectorPrefix : ScalarKind → String
  | .bool => "b"
  | .i32 => "i"
  | .u32 => "u"
  | .f32 | .f16 => ""

/-- The name of a scalar type. -/
def scalarName : ScalarKind → String
  | .bool => "bool"
  | .i32 => "int"
  | .u32 => "uint"
  | .f32 | .f16 => "float"

/-- The name of a primitive type. -/
def primitiveName (p : PrimitiveType) : String :=
  if p.isMatrix then
    if p.cols = p.rows then "mat" ++ toString p.cols.toNat
    else "mat" ++ toString p.cols.toNat ++ "x" ++ toString p.rows.toNat
  else if p.isVector then vectorPrefix p.scalar ++ "vec" ++ toString p.rows.toNat
  else scalarName p.scalar

namespace TypeName

/-- The text of a type. -/
def text : TypeName → String
  | void => "void"
  | primitive p => primitiveName p
  | struct name => name
  | array element n => element.text ++ "[" ++ toString n ++ "]"
  | sampler name => name

/-- The declaration of a name; the length of an array follows the name. -/
def declare (name : String) : TypeName → String
  | array element n => element.text ++ " " ++ name ++ "[" ++ toString n ++ "]"
  | t => t.text ++ " " ++ name

end TypeName

/-! ## Textures -/

/-- The prefix of the samplers of textures of integers. -/
def samplerPrefix : SampleType → String
  | .sint => "i"
  | .uint => "u"
  | _ => ""

/-- The suffix of the samplers of textures of depths. -/
def samplerSuffix (t : TextureType) : String := if t.isDepth then "Shadow" else ""

/-- The sampler of a texture. In GLSL ES 1.00 a depth texture is like any other. -/
def samplerName (target : Target) (t : TextureType) : Except ShaderError String :=
  let flat := fun name =>
    if target = .webGL then name else samplerPrefix t.sample ++ name ++ samplerSuffix t
  match t.dimension with
  | .flat => .ok (flat "sampler2D")
  | .cube => .ok (flat "samplerCube")
  | .flatArray => .ok (samplerPrefix t.sample ++ "sampler2DArray" ++ samplerSuffix t)
  | .volume => .ok (samplerPrefix t.sample ++ "sampler3D")
  | .cubeArray => .error (.internal .cubeArraySpelling)

/-! ## Registered types -/

/-- The spelling of a registered type. -/
def typeName (r : Registry) (target : Target) (t : TypeId) : Except ShaderError TypeName :=
  let failure := ShaderError.internal (.glslSpelling (r.display t))
  match r.kind t with
  | .void => .ok .void
  | .primitive p => .ok (.primitive p)
  | .struct s => .ok (.struct s.name)
  | .array element n =>
    if n = 0 then .error failure
    else if element.index < t.index then
      (typeName r target element).map fun element => .array element n
    else .error failure
  | .texture texture => (samplerName target texture).map .sampler
  | _ => .error failure
termination_by t.index

/-- The spelling of a type in a stage. -/
def typeOf (s : ResolvedStage) (t : TypeId) : Except ShaderError TypeName :=
  typeName s.types s.target t

/-- How GLSL ES spells statements. -/
def dialect : Code.Dialect TypeName where
  type := TypeName.text
  declaration t name := t.declare name
  condition c := "(" ++ c ++ ")"
  bound counter last := counter ++ " < " ++ last

end Glsl

end WebShader
