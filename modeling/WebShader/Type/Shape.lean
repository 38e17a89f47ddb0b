import WebShader.Memory
import WebShader.Texture

/-!
# Shapes of types

A type as a program writes it down, before it is known to be valid.
-/

namespace WebShader

/-- The description of a type. An array of length zero is runtime-sized, and a struct without a
name gets one when it is registered. -/
inductive TypeShape where
  | void
  | primitive (type : PrimitiveType)
  | array (element : TypeShape) (length : Nat)
  | struct (name : Option String) (policy : LayoutPolicy) (members : List (String × TypeShape))
  | pointer (pointee : TypeShape) (space : AddressSpace)
  | texture (type : TextureType)
  | sampler (kind : SamplerKind)

namespace TypeShape

/-- The shape of a scalar. -/
def scalar (k : ScalarKind) : TypeShape := primitive (.ofScalar k)

/-- The shape of a vector. -/
def vector (k : ScalarKind) (n : UInt8) : TypeShape := primitive (.vector k n)

/-- The shape of a matrix of 32-bit floats. -/
def matrix (cols rows : UInt8) : TypeShape := primitive (.matrix .f32 cols rows)

/-- Whether the shape is an array. -/
def isArray : TypeShape → Bool
  | array _ _ => true
  | _ => false

end TypeShape

end WebShader
