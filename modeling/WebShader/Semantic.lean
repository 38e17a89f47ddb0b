/-!
# Vertex semantics

The meaning of a vertex attribute, which fixes its location.
-/

namespace WebShader

/-- The meaning of a vertex attribute. -/
inductive Semantic where
  | position
  | normal
  | diffuse
  | tangent
  | texCoord0
  | texCoord1
  | texCoord2
  | texCoord3
  | texCoord4
  | texCoord5
  | texCoord6
  | texCoord7
  | blendIndices
  | blendWeights
  deriving DecidableEq

namespace Semantic

/-- Every semantic, in the order of the locations. -/
def all : List Semantic :=
  [position, normal, diffuse, tangent, texCoord0, texCoord1, texCoord2, texCoord3, texCoord4,
    texCoord5, texCoord6, texCoord7, blendIndices, blendWeights]

/-- The location of the attribute. -/
def location : Semantic → Nat
  | position => 0
  | normal => 1
  | diffuse => 2
  | tangent => 3
  | texCoord0 => 4
  | texCoord1 => 5
  | texCoord2 => 6
  | texCoord3 => 7
  | texCoord4 => 8
  | texCoord5 => 9
  | texCoord6 => 10
  | texCoord7 => 11
  | blendIndices => 12
  | blendWeights => 13

/-- The name of the semantic in messages. -/
def name : Semantic → String
  | position => "Position"
  | normal => "Normal"
  | diffuse => "Diffuse"
  | tangent => "Tangent"
  | texCoord0 => "TexCoord0"
  | texCoord1 => "TexCoord1"
  | texCoord2 => "TexCoord2"
  | texCoord3 => "TexCoord3"
  | texCoord4 => "TexCoord4"
  | texCoord5 => "TexCoord5"
  | texCoord6 => "TexCoord6"
  | texCoord7 => "TexCoord7"
  | blendIndices => "BlendIndices"
  | blendWeights => "BlendWeights"

/-- The name of the semantic in reflection data. -/
def key : Semantic → String
  | position => "position"
  | normal => "normal"
  | diffuse => "diffuse"
  | tangent => "tangent"
  | texCoord0 => "tex_coord0"
  | texCoord1 => "tex_coord1"
  | texCoord2 => "tex_coord2"
  | texCoord3 => "tex_coord3"
  | texCoord4 => "tex_coord4"
  | texCoord5 => "tex_coord5"
  | texCoord6 => "tex_coord6"
  | texCoord7 => "tex_coord7"
  | blendIndices => "blend_indices"
  | blendWeights => "blend_weights"

/-- The semantic whose name is `s`. -/
def ofName? (s : String) : Option Semantic := all.find? (·.name == s)

/-- Different semantics have different locations. -/
theorem location_injective {a b : Semantic} (h : a.location = b.location) : a = b := by
  revert h
  cases a <;> cases b <;> decide

end Semantic

end WebShader
