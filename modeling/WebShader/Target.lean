/-!
# Compilation targets

The three shading languages a program can be compiled to, and the table of the constructs that
are missing on some of them.
-/

namespace WebShader

/-! ## Targets -/

/-- A shading language: GLSL ES 1.00, GLSL ES 3.00 or WGSL. -/
inductive Target where
  | webGL
  | webGL2
  | webGPU
  deriving DecidableEq

namespace Target

/-- Every target. -/
def all : List Target := [webGL, webGL2, webGPU]

/-- The name used in messages. -/
def text : Target → String
  | webGL => "WebGL"
  | webGL2 => "WebGL2"
  | webGPU => "WebGPU"

/-- The name used in configurations. -/
def key : Target → String
  | webGL => "webgl"
  | webGL2 => "webgl2"
  | webGPU => "webgpu"

/-- Whether the target is one of the two versions of GLSL ES. -/
def isGlsl (t : Target) : Bool := t != webGPU

/-- The target whose configuration name is `s`. -/
def ofKey? (s : String) : Option Target := all.find? (·.key == s)

theorem ofKey?_key (t : Target) : ofKey? t.key = some t := by cases t <;> decide

/-- Read a target name, whatever the case of its ASCII letters; `webgl1` stands for `webgl`. -/
def ofName? (s : String) : Option Target :=
  let lower := s.map Char.toLower
  if lower == "webgl1" then some webGL else ofKey? lower

end Target

/-! ## Features -/

/-- A construct that is not available on every target. -/
inductive Feature where
  | unsignedInt
  | nonSquareMatrix
  | float16
  | pointer
  | storageBuffer
  | workgroup
  | compute
  | explicitSampler
  | runtimeArray
  | nestedArray
  | bitwiseOps
  | textureLoad
  | textureDimensions
  | depthTextureLoad
  | matrixFunctions
  | roundTrunc
  | arrayConstructor
  | arrayTexture
  | texture3D
  | integerTexture
  | cubeArrayTexture
  | multisampledTexture
  | vertexIndex
  | pointSize
  | integerAttributes
  | integerVaryings
  deriving DecidableEq

namespace Feature

/-- Every feature. -/
def all : List Feature :=
  [unsignedInt, nonSquareMatrix, float16, pointer, storageBuffer, workgroup, compute,
    explicitSampler, runtimeArray, nestedArray, bitwiseOps, textureLoad, textureDimensions,
    depthTextureLoad, matrixFunctions, roundTrunc, arrayConstructor, arrayTexture, texture3D,
    integerTexture, cubeArrayTexture, multisampledTexture, vertexIndex, pointSize,
    integerAttributes, integerVaryings]

theorem mem_all (f : Feature) : f ∈ all := by cases f <;> decide

/-- The name of the feature. -/
def name : Feature → String
  | unsignedInt => "UnsignedInt"
  | nonSquareMatrix => "NonSquareMatrix"
  | float16 => "Float16"
  | pointer => "Pointer"
  | storageBuffer => "StorageBuffer"
  | workgroup => "Workgroup"
  | compute => "Compute"
  | explicitSampler => "ExplicitSampler"
  | runtimeArray => "RuntimeArray"
  | nestedArray => "NestedArray"
  | bitwiseOps => "BitwiseOps"
  | textureLoad => "TextureLoad"
  | textureDimensions => "TextureDimensions"
  | depthTextureLoad => "DepthTextureLoad"
  | matrixFunctions => "MatrixFunctions"
  | roundTrunc => "RoundTrunc"
  | arrayConstructor => "ArrayConstructor"
  | arrayTexture => "ArrayTexture"
  | texture3D => "Texture3D"
  | integerTexture => "IntegerTexture"
  | cubeArrayTexture => "CubeArrayTexture"
  | multisampledTexture => "MultisampledTexture"
  | vertexIndex => "VertexIndex"
  | pointSize => "PointSize"
  | integerAttributes => "IntegerAttributes"
  | integerVaryings => "IntegerVaryings"

/-- The feature in words, as messages quote it. -/
def description : Feature → String
  | unsignedInt => "unsigned 32-bit integer types"
  | nonSquareMatrix => "non-square matrix types"
  | float16 => "16-bit floating point types"
  | pointer => "pointer types"
  | storageBuffer => "storage buffers"
  | workgroup => "workgroup variables"
  | compute => "compute shaders"
  | explicitSampler => "explicit sampler objects"
  | runtimeArray => "runtime-sized arrays"
  | nestedArray => "arrays of arrays"
  | bitwiseOps => "bitwise operators"
  | textureLoad => "texel fetches"
  | textureDimensions => "texture dimension queries"
  | depthTextureLoad => "texel fetches from depth textures"
  | matrixFunctions => "matrix transpose and determinant"
  | roundTrunc => "round and trunc"
  | arrayConstructor => "array constructors"
  | arrayTexture => "array textures"
  | texture3D => "3D textures"
  | integerTexture => "integer textures"
  | cubeArrayTexture => "cube array textures"
  | multisampledTexture => "multisampled textures"
  | vertexIndex => "vertex and instance index built-ins"
  | pointSize => "the point size built-in"
  | integerAttributes => "integer vertex attributes"
  | integerVaryings => "integer stage outputs"

/-- The feature whose name is `s`. -/
def ofName? (s : String) : Option Feature := all.find? (·.name == s)

end Feature

/-- Whether the target has the feature. -/
def Target.supports (t : Target) : Feature → Bool
  | .unsignedInt | .nonSquareMatrix | .bitwiseOps | .textureLoad | .textureDimensions
  | .matrixFunctions | .roundTrunc | .arrayConstructor | .arrayTexture | .texture3D
  | .integerTexture | .vertexIndex | .integerAttributes | .integerVaryings => t != .webGL
  | .float16 | .pointer | .storageBuffer | .workgroup | .compute | .explicitSampler
  | .runtimeArray | .nestedArray | .cubeArrayTexture | .multisampledTexture
  | .depthTextureLoad => t == .webGPU
  | .pointSize => t != .webGPU

/-- WebGL2 has every feature of WebGL. -/
theorem Target.supports_webGL2_of_webGL {f : Feature} (h : webGL.supports f = true) :
    webGL2.supports f = true := by
  revert h
  cases f <;> decide

end WebShader
