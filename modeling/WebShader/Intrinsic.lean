import WebShader.Primitive
import WebShader.Target

/-!
# Built-in functions

The functions every target has, with their spellings and, for those that do not work on a texture,
the overloads in resolution order.
-/

namespace WebShader

/-- A built-in function. -/
inductive Intrinsic where
  | radians
  | degrees
  | sin
  | cos
  | tan
  | asin
  | acos
  | atan
  | atan2
  | pow
  | exp
  | exp2
  | log
  | log2
  | sqrt
  | inverseSqrt
  | abs
  | sign
  | floor
  | ceil
  | fract
  | trunc
  | round
  | min
  | max
  | clamp
  | mix
  | step
  | smoothstep
  | mod
  | length
  | distance
  | dot
  | cross
  | normalize
  | reflect
  | refract
  | faceForward
  | transpose
  | determinant
  | all
  | any
  | dpdx
  | dpdy
  | fwidth
  | textureSample
  | textureSampleLevel
  | textureSampleCompare
  | textureLoad
  | textureDimensions
  deriving DecidableEq

namespace Intrinsic

/-! ## Names -/

/-- Every built-in function. -/
def list : List Intrinsic :=
  [radians, degrees, sin, cos, tan, asin, acos, atan, atan2, pow, exp, exp2, log, log2, sqrt,
    inverseSqrt, abs, sign, floor, ceil, fract, trunc, round, min, max, clamp, mix, step,
    smoothstep, mod, length, distance, dot, cross, normalize, reflect, refract, faceForward,
    transpose, determinant, all, any, dpdx, dpdy, fwidth, textureSample, textureSampleLevel,
    textureSampleCompare, textureLoad, textureDimensions]

/-- The name of the function in messages. -/
def name : Intrinsic → String
  | radians => "Radians"
  | degrees => "Degrees"
  | sin => "Sin"
  | cos => "Cos"
  | tan => "Tan"
  | asin => "Asin"
  | acos => "Acos"
  | atan => "Atan"
  | atan2 => "Atan2"
  | pow => "Pow"
  | exp => "Exp"
  | exp2 => "Exp2"
  | log => "Log"
  | log2 => "Log2"
  | sqrt => "Sqrt"
  | inverseSqrt => "InverseSqrt"
  | abs => "Abs"
  | sign => "Sign"
  | floor => "Floor"
  | ceil => "Ceil"
  | fract => "Fract"
  | trunc => "Trunc"
  | round => "Round"
  | min => "Min"
  | max => "Max"
  | clamp => "Clamp"
  | mix => "Mix"
  | step => "Step"
  | smoothstep => "Smoothstep"
  | mod => "Mod"
  | length => "Length"
  | distance => "Distance"
  | dot => "Dot"
  | cross => "Cross"
  | normalize => "Normalize"
  | reflect => "Reflect"
  | refract => "Refract"
  | faceForward => "FaceForward"
  | transpose => "Transpose"
  | determinant => "Determinant"
  | all => "All"
  | any => "Any"
  | dpdx => "Dpdx"
  | dpdy => "Dpdy"
  | fwidth => "Fwidth"
  | textureSample => "TextureSample"
  | textureSampleLevel => "TextureSampleLevel"
  | textureSampleCompare => "TextureSampleCompare"
  | textureLoad => "TextureLoad"
  | textureDimensions => "TextureDimensions"

/-- The function whose name is `s`. -/
def ofName? (s : String) : Option Intrinsic := list.find? (·.name == s)

/-- The spelling of the function in GLSL. -/
def glslName : Intrinsic → String
  | radians => "radians"
  | degrees => "degrees"
  | sin => "sin"
  | cos => "cos"
  | tan => "tan"
  | asin => "asin"
  | acos => "acos"
  | atan | atan2 => "atan"
  | pow => "pow"
  | exp => "exp"
  | exp2 => "exp2"
  | log => "log"
  | log2 => "log2"
  | sqrt => "sqrt"
  | inverseSqrt => "inversesqrt"
  | abs => "abs"
  | sign => "sign"
  | floor => "floor"
  | ceil => "ceil"
  | fract => "fract"
  | trunc => "trunc"
  | round => "round"
  | min => "min"
  | max => "max"
  | clamp => "clamp"
  | mix => "mix"
  | step => "step"
  | smoothstep => "smoothstep"
  | mod => "mod"
  | length => "length"
  | distance => "distance"
  | dot => "dot"
  | cross => "cross"
  | normalize => "normalize"
  | reflect => "reflect"
  | refract => "refract"
  | faceForward => "faceforward"
  | transpose => "transpose"
  | determinant => "determinant"
  | all => "all"
  | any => "any"
  | dpdx => "dFdx"
  | dpdy => "dFdy"
  | fwidth => "fwidth"
  | textureSample => "texture"
  | textureSampleLevel => "textureLod"
  | textureSampleCompare => "texture"
  | textureLoad => "texelFetch"
  | textureDimensions => "textureSize"

/-- The spelling of the function in WGSL. -/
def wgslName : Intrinsic → String
  | atan2 => "atan2"
  | inverseSqrt => "inverseSqrt"
  | faceForward => "faceForward"
  | dpdx => "dpdx"
  | dpdy => "dpdy"
  | textureSample => "textureSample"
  | textureSampleLevel => "textureSampleLevel"
  | textureSampleCompare => "textureSampleCompare"
  | textureLoad => "textureLoad"
  | textureDimensions => "textureDimensions"
  | f => f.glslName

/-! ## Families -/

/-- Whether the first argument is a texture. -/
def isTexture : Intrinsic → Bool
  | textureSample | textureSampleLevel | textureSampleCompare | textureLoad
  | textureDimensions => true
  | _ => false

/-- Whether the function differentiates along the window, which only fragments can. -/
def isDerivative : Intrinsic → Bool
  | dpdx | dpdy | fwidth => true
  | _ => false

/-- The feature a function without textures needs. -/
def feature? : Intrinsic → Option Feature
  | trunc | round => some .roundTrunc
  | transpose | determinant => some .matrixFunctions
  | _ => none

/-! ## Overloads -/

/-- The parameter types of an overload and its result. -/
structure Signature where
  params : List PrimitiveType
  result : PrimitiveType
  deriving DecidableEq

/-- The floating-point component types, in resolution order. -/
def floats : List ScalarKind := [.f32, .f16]

/-- The integer component types built-in functions work on. -/
def integers (target : Target) : List ScalarKind :=
  if target == .webGL then [] else [.i32, .u32]

/-- One overload for each of the component types and each of the sizes. -/
def overloads (kinds : List ScalarKind) (sizes : List UInt8)
    (f : ScalarKind → UInt8 → Signature) : List Signature :=
  kinds.flatMap fun k => sizes.map (f k)

/-- `arity` parameters of the type of the result. -/
def uniformly (arity : Nat) (k : ScalarKind) (n : UInt8) : Signature :=
  ⟨List.replicate arity (.vector k n), .vector k n⟩

/-- `arity` parameters of one type, then a scalar, giving the type of the parameters. -/
def withScalarLast (arity : Nat) (k : ScalarKind) (n : UInt8) : Signature :=
  ⟨List.replicate arity (.vector k n) ++ [.ofScalar k], .vector k n⟩

/-- `arity` parameters of one type giving a scalar. -/
def toScalar (arity : Nat) (k : ScalarKind) (n : UInt8) : Signature :=
  ⟨List.replicate arity (.vector k n), .ofScalar k⟩

/-- The overloads of a function, in resolution order; the functions on textures have none. -/
def signatures (target : Target) : Intrinsic → List Signature
  | radians | degrees | sin | cos | tan | asin | acos | atan | exp | exp2 | log | log2 | sqrt
  | inverseSqrt | floor | ceil | fract | trunc | round | dpdx | dpdy | fwidth =>
    overloads floats [1, 2, 3, 4] (uniformly 1)
  | abs | sign =>
    overloads floats [1, 2, 3, 4] (uniformly 1) ++
      overloads ((integers target).take 1) [1, 2, 3, 4] (uniformly 1)
  | atan2 | pow | step => overloads floats [1, 2, 3, 4] (uniformly 2)
  | mod =>
    overloads floats [1, 2, 3, 4] (uniformly 2) ++
      overloads floats [2, 3, 4] (withScalarLast 1)
  | min | max =>
    overloads floats [1, 2, 3, 4] (uniformly 2) ++
      overloads (integers target) [1, 2, 3, 4] (uniformly 2)
  | clamp =>
    overloads floats [1, 2, 3, 4] (uniformly 3) ++
      overloads (integers target) [1, 2, 3, 4] (uniformly 3)
  | mix =>
    overloads floats [1, 2, 3, 4] (uniformly 3) ++
      overloads floats [2, 3, 4] (withScalarLast 2)
  | smoothstep => overloads floats [1, 2, 3, 4] (uniformly 3)
  | faceForward => overloads floats [2, 3, 4] (uniformly 3)
  | length => overloads floats [1, 2, 3, 4] (toScalar 1)
  | distance => overloads floats [1, 2, 3, 4] (toScalar 2)
  | dot => overloads floats [2, 3, 4] (toScalar 2)
  | cross => overloads floats [3] (uniformly 2)
  | normalize => overloads floats [2, 3, 4] (uniformly 1)
  | reflect => overloads floats [2, 3, 4] (uniformly 2)
  | refract => overloads floats [2, 3, 4] (withScalarLast 2)
  | transpose =>
    floats.flatMap fun k => [2, 3, 4].flatMap fun cols => [2, 3, 4].map fun rows =>
      ⟨[.matrix k cols rows], .matrix k rows cols⟩
  | determinant => overloads floats [2, 3, 4] fun k n => ⟨[.matrix k n n], .ofScalar k⟩
  | all | any => overloads [.bool] [2, 3, 4] (toScalar 1)
  | textureSample | textureSampleLevel | textureSampleCompare | textureLoad
  | textureDimensions => []

end Intrinsic

end WebShader
