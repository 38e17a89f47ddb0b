import WebShader.Binding.Plan

/-!
# Bind group layouts

What a program expects to be bound: for each group, from the first to the last one in use, the
entries in the order of their indices, with the byte layout of the buffers.
-/

namespace WebShader

namespace Binding

/-! ## Entries -/

/-- How a stage uses a buffer. -/
inductive BufferUse where
  | uniform
  | storage
  | readOnlyStorage
  deriving DecidableEq

/-- The name of the use in layouts. -/
def BufferUse.key : BufferUse → String
  | uniform => "uniform"
  | storage => "storage"
  | readOnlyStorage => "read-only-storage"

/-- A member of a buffer. -/
structure BufferMember where
  name : String
  offset : Nat
  size : Nat
  type : String

/-- The layout of a buffer. No size is asked of a buffer that ends with a runtime-sized array. -/
structure BufferLayout where
  bufferUse : BufferUse
  minSize : Nat
  size : Nat
  members : List BufferMember

/-- What is bound to an entry. -/
inductive EntryLayout where
  | buffer (layout : BufferLayout)
  | texture (type : TextureType)
  | sampler (kind : SamplerKind)

/-- An entry of a group. -/
structure Entry where
  index : Nat
  name : String
  visibility : Visibility
  layout : EntryLayout

/-- A group. -/
structure GroupLayout where
  label : String
  group : Nat
  entries : List Entry

/-- The entry of a name. -/
def GroupLayout.find? (g : GroupLayout) (name : String) : Option Entry :=
  g.entries.find? (·.name == name)

/-- The member of a name of the buffer bound to an entry. -/
def Entry.member? (e : Entry) (name : String) : Option BufferMember :=
  match e.layout with
  | .buffer layout => layout.members.find? (·.name == name)
  | _ => none

/-! ## Buffers -/

/-- The layouts of the members of a struct. -/
def memberLayouts (r : Registry) (policy : LayoutPolicy) :
    List (Member × Nat) → Except ShaderError (List BufferMember)
  | [] => .ok []
  | (m, offset) :: rest => do
    let extent ← r.extent m.type policy
    let members ← memberLayouts r policy rest
    return ⟨m.name, offset, extent.size, r.display m.type⟩ :: members

/-- The rules that a buffer follows where it is no struct. -/
def BufferUse.policy : BufferUse → LayoutPolicy
  | uniform => .std140
  | _ => .packed

/-- The layout of a buffer of a type. -/
def bufferLayout (r : Registry) (t : TypeId) (bufferUse : BufferUse) :
    Except ShaderError BufferLayout := do
  let (size, members) ← match r.struct? t with
    | some s => do
      let members ← memberLayouts r s.policy (s.members.zip s.layout.offsets)
      pure (s.layout.size, members)
    | none => do
      let extent ← r.extent t bufferUse.policy
      pure (extent.size, [])
  let minSize := if r.isRuntimeSized t then 0 else size
  return { bufferUse, minSize, size, members }

/-! ## Groups -/

/-- What is bound to a record. -/
def Content.layout (r : Registry) : Content → Except ShaderError EntryLayout
  | uniformBlock t => (bufferLayout r t .uniform).map .buffer
  | storageBuffer t readOnly =>
    (bufferLayout r t (if readOnly then .readOnlyStorage else .storage)).map .buffer
  | texture t => .ok (.texture t)
  | sampler kind => .ok (.sampler kind)

/-- The entry of a record. -/
def Record.entry (r : Registry) (b : Record) : Except ShaderError Entry := do
  return ⟨b.index, b.name, b.visibility, ← b.content.layout r⟩

namespace Plan

/-- The number of groups, up to the last one in use. Like group numbers, it is a 32-bit word, which
the number after the last group overflows. -/
def groupCount (p : Plan) : Except ShaderError Nat :=
  if p.records.any (4294967296 ≤ ·.group.toNat + 1) then .error .overflow
  else .ok ((p.records.map (·.group.toNat + 1)).foldl max 0)

/-- The layout of a group. Its records were made in the order of their indices. -/
def groupLayout (p : Plan) (r : Registry) (label : String) (group : Nat) :
    Except ShaderError GroupLayout := do
  let entries ← (p.records.filter (·.group.toNat == group)).mapM (·.entry r)
  return ⟨label ++ ".group" ++ toString group, group, entries⟩

/-- The layouts of all groups. -/
def layouts (p : Plan) (r : Registry) (label : String) : Except ShaderError (List GroupLayout) := do
  let groups ← p.groupCount
  (List.range groups).mapM (p.groupLayout r label)

end Plan

end Binding

end WebShader
