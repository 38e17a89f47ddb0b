import WebShader.Code.Printer
import WebShader.Resolved

/-!
# WGSL types

The spelling of types, and of the wrappers that pad scalars, vectors and matrices to the 16 bytes
that `std140` rules ask for.
-/

namespace WebShader

namespace Wgsl

/-! ## Names -/

/-- A type as WGSL spells it. A padded type is a struct that wraps a primitive type. -/
inductive TypeName where
  | primitive (type : PrimitiveType)
  | padded (type : PrimitiveType)
  | array (element : TypeName) (length : Nat)
  | struct (name : String)
  | pointer (pointee : TypeName) (space : AddressSpace)
  | texture (type : TextureType)
  | sampler (kind : SamplerKind)
  deriving DecidableEq

/-- The part of the name of a primitive type that the name of its wrapper keeps. -/
def wrapperSuffix (p : PrimitiveType) : String :=
  if p.isMatrix then
    "mat" ++ toString p.cols.toNat ++ "x" ++ toString p.rows.toNat ++ "_" ++ p.scalar.name
  else if p.isVector then "vec" ++ toString p.rows.toNat ++ "_" ++ p.scalar.name
  else p.scalar.name

/-- The name of the wrapper of a primitive type. -/
def wrapperName (p : PrimitiveType) : String := "Std140_" ++ wrapperSuffix p

/-- The dimensionality of a texture. -/
def dimensionName (t : TextureType) : String :=
  match t.dimension with
  | .flat => if t.multisampled then "multisampled_2d" else "2d"
  | .flatArray => "2d_array"
  | .cube => "cube"
  | .cubeArray => "cube_array"
  | .volume => "3d"

/-- The name of a texture type. -/
def textureName (t : TextureType) : String :=
  if t.isDepth then "texture_depth_" ++ dimensionName t
  else "texture_" ++ dimensionName t ++ "<" ++ t.sample.scalar.name ++ ">"

/-- The name of a sampler type. -/
def samplerName : SamplerKind → String
  | .comparison => "sampler_comparison"
  | .filtering | .nonFiltering => "sampler"

/-- The text of a type. -/
def TypeName.text : TypeName → String
  | primitive p => p.text
  | padded p => wrapperName p
  | array element n =>
    if n = 0 then "array<" ++ element.text ++ ">"
    else "array<" ++ element.text ++ ", " ++ toString n ++ ">"
  | struct name => name
  | pointer pointee space =>
    let access := if space = .storage then ", read_write" else ""
    "ptr<" ++ space.name ++ ", " ++ pointee.text ++ access ++ ">"
  | texture t => textureName t
  | sampler kind => samplerName kind

/-! ## Registered types -/

/-- The spelling of a registered type. -/
def typeName (r : Registry) (t : TypeId) : Except ShaderError TypeName :=
  let part (p : TypeId) : Except ShaderError TypeName :=
    if p.index < t.index then typeName r p else .error (.internal .voidSpelling)
  match r.kind t with
  | .void => .error (.internal .voidSpelling)
  | .primitive p => .ok (.primitive p)
  | .array element n => (part element).map fun element => .array element n
  | .struct s => .ok (.struct s.name)
  | .pointer pointee space => (part pointee).map fun pointee => .pointer pointee space
  | .texture texture => .ok (.texture texture)
  | .sampler kind => .ok (.sampler kind)
termination_by t.index

/-- How WGSL spells statements. -/
def dialect : Code.Dialect TypeName where
  type := TypeName.text
  declaration t name := "var " ++ name ++ ": " ++ t.text
  condition c := c
  bound counter last := "(" ++ counter ++ " < " ++ last ++ ")"

/-! ## Padding -/

/-- Whether a scalar or vector needs padding as an element of an array under `std140` rules. -/
def isPaddedElement (p : PrimitiveType) : Bool :=
  let extent := p.vectorExtent
  !p.isMatrix && Layout.roundUp extent.size extent.alignment % 16 != 0

/-- Whether the columns of a matrix need padding under `std140` rules. -/
def isPaddedMatrix (p : PrimitiveType) : Bool :=
  p.isMatrix && (p.columnExtent .packed).size % 16 != 0

/-- The scalar or vector that the elements of an array are. -/
def scalarElement? (r : Registry) (element : TypeId) : Option PrimitiveType :=
  (r.primitive? element).filter fun p => !p.isMatrix

/-- The primitive type whose wrapper spells a value of a type under `std140` rules. -/
def wrapped? (r : Registry) (t : TypeId) : Option PrimitiveType :=
  match r.kind t with
  | .primitive p => if isPaddedMatrix p then some p else none
  | .array element _ =>
    match scalarElement? r element with
    | some p => if isPaddedElement p then some p else none
    | none => if element.index < t.index then wrapped? r element else none
  | _ => none
termination_by t.index

/-- Whether a value of a type is spelled with wrappers under `std140` rules. -/
def isPadded (r : Registry) (t : TypeId) : Bool := (wrapped? r t).isSome

/-- The spelling of the type of a member of a struct under `std140` rules. -/
def std140TypeName (r : Registry) (t : TypeId) : Except ShaderError TypeName :=
  match r.kind t with
  | .primitive p => .ok (if isPaddedMatrix p then .padded p else .primitive p)
  | .array element n =>
    match scalarElement? r element with
    | some p => .ok (.array (if isPaddedElement p then .padded p else .primitive p) n)
    | none =>
      if element.index < t.index then
        (std140TypeName r element).map fun element => .array element n
      else .error (.internal .voidSpelling)
  | _ => typeName r t
termination_by t.index

/-- The wrappers that the members of the structs need, in the order of their first use. -/
def wrappers (r : Registry) (structs : List StructType) : List PrimitiveType :=
  let members := (structs.filter (·.policy == .std140)).flatMap (·.members)
  (members.filterMap fun m => wrapped? r m.type).foldl
    (fun found p => if found.contains p then found else found ++ [p]) []

end Wgsl

end WebShader
