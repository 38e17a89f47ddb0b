import WebShader.Primitive

/-!
# Textures and samplers
-/

namespace WebShader

/-! ## Texture types -/

/-- The dimensionality of a texture. -/
inductive TextureDimension where
  | flat
  | flatArray
  | cube
  | cubeArray
  | volume
  deriving DecidableEq

namespace TextureDimension

/-- Every dimensionality. -/
def all : List TextureDimension := [flat, flatArray, cube, cubeArray, volume]

/-- The name in layouts. -/
def key : TextureDimension → String
  | flat => "2d"
  | flatArray => "2d-array"
  | cube => "cube"
  | cubeArray => "cube-array"
  | volume => "3d"

/-- The name in messages and type keys. -/
def name : TextureDimension → String
  | flat => "D2"
  | flatArray => "D2Array"
  | cube => "Cube"
  | cubeArray => "CubeArray"
  | volume => "D3"

/-- The dimensionality whose layout name is `s`. -/
def ofKey? (s : String) : Option TextureDimension := all.find? (·.key == s)

end TextureDimension

/-- What a texture holds. -/
inductive SampleType where
  | float
  | unfilterableFloat
  | depth
  | sint
  | uint
  deriving DecidableEq

namespace SampleType

/-- Every sample type. -/
def all : List SampleType := [float, unfilterableFloat, depth, sint, uint]

/-- The name in layouts. -/
def key : SampleType → String
  | float => "float"
  | unfilterableFloat => "unfilterable-float"
  | depth => "depth"
  | sint => "sint"
  | uint => "uint"

/-- The name in messages and type keys. -/
def name : SampleType → String
  | float => "Float"
  | unfilterableFloat => "UnfilterableFloat"
  | depth => "Depth"
  | sint => "Sint"
  | uint => "Uint"

/-- The sample type whose layout name is `s`. -/
def ofKey? (s : String) : Option SampleType := all.find? (·.key == s)

/-- The component type of a sample. -/
def scalar : SampleType → ScalarKind
  | sint => .i32
  | uint => .u32
  | _ => .f32

/-- Whether the samples are integers. -/
def isInteger (s : SampleType) : Bool := s == sint || s == uint

end SampleType

/-- The type of a texture. -/
structure TextureType where
  dimension : TextureDimension
  sample : SampleType
  multisampled : Bool
  deriving DecidableEq

/-- What is wrong with a texture type. -/
inductive TextureFault where
  | multisampled
  | depthVolume

namespace TextureType

/-- Whether the texture holds depths. -/
def isDepth (t : TextureType) : Bool := t.sample == .depth

/-- Whether the texture has layers. -/
def isArray (t : TextureType) : Bool := t.dimension == .flatArray || t.dimension == .cubeArray

/-- The number of components of a sampling coordinate, the layer left out. -/
def coordComponents (t : TextureType) : UInt8 :=
  match t.dimension with
  | .flat | .flatArray => 2
  | _ => 3

/-- The number of components of the size of the texture. -/
def sizeComponents (t : TextureType) : UInt8 :=
  match t.dimension with
  | .volume => 3
  | _ => 2

/-- The first fault of the type: only flat textures are multisampled, and volumes hold no depth. -/
def fault (t : TextureType) : Option TextureFault :=
  if t.multisampled && t.dimension != .flat then some .multisampled
  else if t.isDepth && t.dimension == .volume then some .depthVolume
  else none

/-- The fields of the type as messages quote them. -/
def text (t : TextureType) : String :=
  "TextureType \x7b dimension: " ++ t.dimension.name ++ ", sample_type: " ++ t.sample.name ++
    ", multisampled: " ++ toString t.multisampled ++ " \x7d"

end TextureType

/-! ## Sampler types -/

/-- The kind of a sampler. -/
inductive SamplerKind where
  | filtering
  | nonFiltering
  | comparison
  deriving DecidableEq

namespace SamplerKind

/-- Every kind of sampler. -/
def all : List SamplerKind := [filtering, nonFiltering, comparison]

/-- The name in layouts. -/
def key : SamplerKind → String
  | filtering => "filtering"
  | nonFiltering => "non-filtering"
  | comparison => "comparison"

/-- The name in type keys. -/
def name : SamplerKind → String
  | filtering => "Filtering"
  | nonFiltering => "NonFiltering"
  | comparison => "Comparison"

/-- The kind whose layout name is `s`. -/
def ofKey? (s : String) : Option SamplerKind := all.find? (·.key == s)

/-- The sampler a texture is paired with where textures have none of their own. -/
def pairedWith (t : TextureType) : SamplerKind :=
  match t.sample with
  | .depth => comparison
  | .float => filtering
  | _ => nonFiltering

end SamplerKind

end WebShader
