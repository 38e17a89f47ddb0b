import WebShader.Identifier
import WebShader.Type.Layout
import WebShader.Type.Shape

/-!
# Registering types

Types are registered by structure: two shapes that only differ by the names of their structs give
the same type. What a registration adds to the registry before it is refused stays there.
-/

namespace WebShader

/-! ## Registrations -/

/-- A computation that may add types to the registry, and may be refused. -/
abbrev Interning (α : Type) := ExceptT ShaderError (StateM Registry) α

namespace Interning

/-- The type of a key: the one that has it already, or a new one made of `kind`. -/
def insert (key : String) (kind : TypeKind) : Interning TypeId := do
  let r ← get
  match r.withKey? key with
  | some t => return t
  | none =>
    set (r.push key kind)
    return ⟨r.size⟩

/-- Register `void`. -/
def void : Interning TypeId := insert "void" .void

/-- Register a primitive type of a valid shape. -/
def primitive (p : PrimitiveType) : Interning TypeId := insert p.text (.primitive p)

/-- Register a scalar type. -/
def scalar (k : ScalarKind) : Interning TypeId := primitive (.ofScalar k)

/-- Register a texture type of a valid shape. -/
def texture (t : TextureType) : Interning TypeId :=
  insert
    ("texture<" ++ t.dimension.name ++ "," ++ t.sample.name ++ "," ++ toString t.multisampled ++
      ">")
    (.texture t)

/-- Register a sampler type. -/
def sampler (kind : SamplerKind) : Interning TypeId :=
  insert ("sampler<" ++ kind.name ++ ">") (.sampler kind)

/-- Register an array. Its elements can be held and have a size, and the whole can be addressed. -/
def array (element : TypeId) (length : Nat) : Interning TypeId := do
  let r ← get
  match r.kind element with
  | .array _ 0 => throw (.type .runtimeElement)
  | .struct s => if r.isRuntimeSized element then throw (.type (.runtimeTailElement s.name))
  | k => if !k.isStorable then throw (.type (.arrayElement (r.display element)))
  let extent ← r.extent element .packed
  let stride := Layout.roundUp? extent.size extent.alignment
  if (stride.bind fun stride => Layout.checked (stride * length)).isNone then
    throw (Registry.tooLarge ("array<" ++ r.display element ++ ", " ++ toString length ++ ">"))
  insert ("array<" ++ r.key element ++ "," ++ toString length ++ ">") (.array element length)

/-- Register a pointer to values that can be held. -/
def pointer (pointee : TypeId) (space : AddressSpace) : Interning TypeId := do
  let r ← get
  if !(r.kind pointee).isStorable then throw (.type (.pointee (r.display pointee)))
  insert ("ptr<" ++ space.name ++ "," ++ r.key pointee ++ ">") (.pointer pointee space)

/-! ## Structs -/

/-- The first fault of a list of members, given the names that come before them: each has a name of
its own and can be held, and only the last one is runtime-sized. -/
def checkMembers (r : Registry) : List String → List Member → Except ShaderError Unit
  | _, [] => .ok ()
  | before, m :: rest => do
    checkIdentifier m.name
    if before.contains m.name then .error (.declaration (.duplicateMember m.name))
    else if !(r.kind m.type).isStorable then
      .error (.declaration (.memberType m.name (r.display m.type)))
    else if r.isRuntimeSized m.type && !rest.isEmpty then
      .error (.declaration (.runtimeNotLast m.name))
    else checkMembers r (m.name :: before) rest

/-- The key of a struct: its rules and its members, its name left out. -/
def structKey (r : Registry) (policy : LayoutPolicy) (members : List Member) : String :=
  let fields := members.map fun m => m.name ++ ":" ++ r.key m.type ++ ";"
  "struct<" ++ policy.name ++ ">\x7b" ++ String.join fields ++ "\x7d"

/-- The generated name of a number. -/
def generatedName (n : Nat) : String := "Struct" ++ toString n

/-- The least number, from `n` on, whose generated name no struct has. Only as many numbers as
there are types can be taken. -/
def freshNumber (r : Registry) (n : Nat) : Nat :=
  let candidates := (List.range (r.size + 1)).map (n + ·)
  (candidates.find? fun k => (r.structNamed? (generatedName k)).isNone).getD (n + r.size + 1)

/-- The name a new struct is registered under. -/
def structName : Option String → Interning String
  | some name => do
    if ((← get).structNamed? name).isSome then throw (.declaration (.structClash name))
    return name
  | none => do
    let r ← get
    let n := freshNumber r r.generated
    set { r with generated := n + 1 }
    return generatedName n

/-- Register a struct whose members are types its rules allow. -/
def structOf (name : Option String) (policy : LayoutPolicy) (members : List Member) :
    Interning TypeId := do
  let r ← get
  checkMembers r [] members
  let key := structKey r policy members
  match r.withKey? key with
  | some t => return t
  | none =>
    let name ← structName name
    let layout ← r.structLayout members policy
    insert key (.struct ⟨name, policy, members, layout⟩)

/-- The type that holds the same values with every struct under `std140` rules. A packed struct is
replaced by a copy named after it. -/
def std140 (t : TypeId) : Interning TypeId := do
  match (← get).kind t with
  | .array element n =>
    if element.index < t.index then
      let element ← std140 element
      array element n
    else return t
  | .struct s =>
    if s.policy = .packed then
      let name := s.name ++ "_std140"
      checkIdentifier name
      let members ← s.members.mapM fun m =>
        if m.type.index < t.index then return { m with type := ← std140 m.type } else return m
      structOf (some name) .std140 members
    else return t
  | _ => return t
termination_by t.index

/-- Register a struct. Under `std140` rules, the structs it contains follow them too. -/
def struct (name : Option String) (policy : LayoutPolicy) (members : List Member) :
    Interning TypeId := do
  if let some name := name then checkIdentifier name
  if members.isEmpty then throw (.declaration .emptyStruct)
  let members ← match policy with
    | .packed => pure members
    | .std140 => members.mapM fun m => return { m with type := ← std140 m.type }
  structOf name policy members

/-! ## Shapes -/

mutual

/-- Register a shape, its parts first. -/
def shape : TypeShape → Interning TypeId
  | .void => void
  | .primitive p =>
    match p.fault with
    | some fault => throw (.parameter (.shape fault))
    | none => primitive p
  | .array element n => do array (← shape element) n
  | .struct name policy members => do struct name policy (← memberShapes members)
  | .pointer pointee space => do pointer (← shape pointee) space
  | .texture t =>
    match t.fault with
    | some fault => throw (.parameter (.texture fault))
    | none => texture t
  | .sampler kind => sampler kind

/-- Register the types of the members of a struct. -/
def memberShapes : List (String × TypeShape) → Interning (List Member)
  | [] => return []
  | (name, type) :: rest => do
    let type ← shape type
    return ⟨name, type⟩ :: (← memberShapes rest)

end

end Interning

/-- Run a registration on a registry: its result and the registry it leaves, refused or not. -/
def Registry.run {α : Type} (r : Registry) (act : Interning α) :
    Except ShaderError α × Registry :=
  StateT.run (ExceptT.run act) r

end WebShader
