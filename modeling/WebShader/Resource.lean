import WebShader.Statement

/-!
# Resources and constants

Uniforms, textures, samplers, storage buffers and the variables of a workgroup, which keep the
order they are declared in; constants; and the size of a workgroup.
-/

namespace WebShader

namespace Build

/-! ## Resources -/

/-- Declare a resource. -/
def resource (name : String) (t : TypeId) (role : Role) : Build Expr := do
  let (v, e) ← newVar name t role
  modifyDecls fun d => { d with resources := d.resources ++ [v] }
  return e

/-- Declare a texture. -/
def uniformTexture (name : String) (texture : TextureType) (group : UInt32) : Build Expr := do
  requireGlobal "textures"
  let t ← type (.texture texture)
  if texture.isDepth && (← get).target = .webGL then
    remark (.warning ("depth texture " ++ quoted name ++
      " is declared as a regular sampler on WebGL; comparisons are emulated"))
  resource name t (.texture group)

/-- Declare a sampler that no texture is paired with. -/
def uniformSampler (name : String) (kind : SamplerKind) (group : UInt32) : Build Expr := do
  require .explicitSampler
  requireGlobal "samplers"
  let t ← type (.sampler kind)
  resource name t (.sampler group)

/-- Declare a value that will be a member of a uniform block, and so follows `std140` rules. -/
def uniformValue (name : String) (shape : TypeShape) (group : UInt32) : Build Expr := do
  requireGlobal "uniforms"
  let t ← type shape
  let t ← intern (Interning.std140 t)
  requireSized "uniform" name t
  resource name t (.uniform group)

/-- Declare a uniform: a texture, a sampler or a value. -/
def uniform (name : String) (shape : TypeShape) (group : UInt32) : Build Expr :=
  match shape with
  | .texture t => uniformTexture name t group
  | .sampler kind => uniformSampler name kind group
  | _ => uniformValue name shape group

/-- Declare a storage buffer. -/
def storage (name : String) (shape : TypeShape) (group : UInt32) (readOnly : Bool) :
    Build Expr := do
  require .storageBuffer
  requireGlobal "storage buffers"
  let t ← type shape
  let r := (← get).types
  if !(r.kind t).isStorable then
    throw (.type (.declared "storage buffer" name (r.display t)))
  resource name t (.storage group readOnly)

/-- Declare a variable that the invocations of a workgroup share. -/
def workgroup (name : String) (shape : TypeShape) : Build Expr := do
  require .workgroup
  if (← stage).decls.stage ≠ .compute then throw (.declaration .workgroupStage)
  requireGlobal "workgroup variables"
  let t ← type shape
  requireSized "workgroup variable" name t
  resource name t .workgroup

/-! ## Constants -/

end Build

/-- Whether an expression only involves literals, constructors, operators and constants. -/
def Builder.isConstant (b : Builder) (n : NodeId) : Bool :=
  match b.node? n with
  | none => false
  | some node =>
    match node.kind with
    | .literal _ => true
    | .var v => (b.var? v).any (·.role == .constant)
    | .member _ _ | .swizzle _ _ | .index _ _ | .unary _ _ | .binary _ _ _ | .construct _ =>
      node.kind.operands.all fun m => if m.index < n.index then b.isConstant m else false
    | _ => false
termination_by n.index

/-- An expression is constant by its operands and variables. -/
theorem Builder.isConstant_congr {b b' : Builder} (hnodes : b'.nodes = b.nodes)
    (hvars : b'.vars = b.vars) (n : NodeId) : b'.isConstant n = b.isConstant n := by
  have hoperand : ∀ m : NodeId, (if m.index < n.index then b'.isConstant m else false) =
      if m.index < n.index then b.isConstant m else false := fun m => by
    split
    · exact isConstant_congr hnodes hvars m
    · rfl
  have hnode : b'.node? n = b.node? n := by rw [node?, node?, hnodes]
  have hvar : ∀ v, b'.var? v = b.var? v := fun v => by rw [var?, var?, hvars]
  rw [isConstant, isConstant, hnode]
  simp only [hoperand, hvar]
termination_by n.index

namespace Build

/-- Declare a constant. -/
def constant (name : String) (value : Value) : Build Expr := do
  requireGlobal "constants"
  let init ← lower value none
  if !(← get).isConstant init.node then throw (.declaration (.notConstant name))
  let (v, e) ← newVar name init.type .constant (some init.node)
  modifyDecls fun d => { d with constants := d.constants ++ [v] }
  return e

/-! ## Workgroups -/

/-- Set the size of the workgroups of a compute stage. -/
def setWorkgroupSize (x y z : UInt32) : Build Unit := do
  if (← stage).decls.stage ≠ .compute then throw (.declaration .workgroupSizeStage)
  if x = 0 || y = 0 || z = 0 then throw (.parameter (.workgroupSize x y z))
  modifyDecls fun d => { d with workgroupSize := (x, y, z) }

end Build

end WebShader
