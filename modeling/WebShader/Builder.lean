import WebShader.Config
import WebShader.Node
import WebShader.Type.Intern

/-!
# The builder

The state of a program under construction, and the operations every authoring operation is made of.
An operation that fails leaves behind what it has changed before it failed.
-/

namespace WebShader

/-! ## Variables and functions -/

/-- A declared variable. Constants have an initial value. -/
structure Variable where
  name : String
  type : TypeId
  role : Role
  stage : Stage
  init : Option NodeId := none

/-- A function of a stage. Its rank counts the earlier functions of the same name. -/
structure Function where
  name : String
  params : List VarId
  paramTypes : List TypeId
  result : TypeId
  body : Block
  rank : Nat

/-! ## Scopes -/

/-- What opened a scope. A function scope knows the type that its first `return` has fixed. -/
inductive ScopeKind where
  | global
  | function (isMain : Bool) (result : Option TypeId)
  | branch
  | loop
  | block
  deriving DecidableEq

/-- A scope: the names it declares and the statements it holds. -/
structure Frame where
  kind : ScopeKind
  symbols : List (String × Expr) := []
  body : Block := []

/-- The expression a name stands for in a scope. -/
def Frame.find? (f : Frame) (name : String) : Option Expr :=
  (f.symbols.find? (·.1 == name)).map (·.2)

/-! ## Stages -/

/-- An extension of GLSL ES 1.00. -/
inductive GlslExtension where
  | drawBuffers
  | fragDepth
  | shaderTextureLod
  | standardDerivatives
  deriving DecidableEq

namespace GlslExtension

/-- Every extension, in the alphabetical order of the names. -/
def all : List GlslExtension := [drawBuffers, fragDepth, shaderTextureLod, standardDerivatives]

/-- The name of the extension. -/
def name : GlslExtension → String
  | drawBuffers => "GL_EXT_draw_buffers"
  | fragDepth => "GL_EXT_frag_depth"
  | shaderTextureLod => "GL_EXT_shader_texture_lod"
  | standardDerivatives => "GL_OES_standard_derivatives"

end GlslExtension

/-- What a stage declares. Resources are in declaration order and include the variables of a
workgroup; built-ins are in the order of their first use. -/
structure StageDecls where
  stage : Stage
  functions : List Function := []
  constants : List VarId := []
  inputs : List VarId := []
  outputs : List VarId := []
  resources : List VarId := []
  builtins : List (Builtin × Expr) := []
  extensions : List GlslExtension := []
  workgroupSize : UInt32 × UInt32 × UInt32 := (1, 1, 1)

namespace StageDecls

/-- The places of the functions of a name, in definition order. -/
def overloads (d : StageDecls) (name : String) : List FunctionId :=
  ((List.range d.functions.length).filter fun i =>
    d.functions[i]?.any (·.name == name)).map FunctionId.mk

/-- The function of a place. -/
def function? (d : StageDecls) (f : FunctionId) : Option Function := d.functions[f.index]?

end StageDecls

/-- A stage under construction: its declarations, its scopes from the innermost out, the body of
its entry point once defined, and the tags of its expressions. -/
structure OpenStage where
  decls : StageDecls
  frames : List Frame := [{ kind := .global }]
  main : Option Block := none
  tags : List (String × Expr) := []

/-- A stage whose construction is over. -/
structure BuiltStage where
  decls : StageDecls
  main : Block

/-! ## State -/

/-- Whether a program is being built, or must be cleared before the next one. -/
inductive Phase where
  | idle
  | building
  | done
  deriving DecidableEq

/-- A remark the builder makes. -/
inductive Remark where
  | warning (text : String)
  | error (text : String)

/-- The state of a builder. Remarks wait to be collected, the oldest first. -/
structure Builder where
  config : Config
  types : Registry := {}
  nodes : Array Node := #[]
  vars : Array Variable := #[]
  accesses : List ((NodeId × Access) × Expr) := []
  stage : Option OpenStage := none
  phase : Phase := .idle
  lastError : Option String := none
  remarks : List Remark := []

namespace Builder

/-- The builder of nothing yet. -/
def new (config : Config) : Builder := { config }

/-- The language programs are built for. -/
def target (b : Builder) : Target := b.config.target

/-- The node of an expression. -/
def node? (b : Builder) (n : NodeId) : Option Node := b.nodes[n.index]?

/-- A variable. -/
def var? (b : Builder) (v : VarId) : Option Variable := b.vars[v.index]?

/-- The variable an expression names by itself. -/
def varOf? (b : Builder) (n : NodeId) : Option VarId :=
  match b.node? n with
  | some ⟨_, .var v⟩ => some v
  | _ => none

/-- The stage being built. -/
def currentStage (b : Builder) : Option Stage := b.stage.map (·.decls.stage)

/-- Forget everything but the options and the last failure. -/
def reset (b : Builder) : Builder :=
  { Builder.new b.config with lastError := b.lastError, remarks := b.remarks }

/-- The operand as messages quote it. -/
def describe (b : Builder) : Value → String
  | .host v => v.text
  | .expr e => b.types.display e.type

/-- A list of operands as messages quote it. -/
def describeAll (b : Builder) (vs : List Value) : String := ", ".intercalate (vs.map b.describe)

end Builder

/-! ## Operations -/

/-- An operation of the builder, which may fail. -/
abbrev Build (α : Type) := ExceptT ShaderError (StateM Builder) α

/-- A run of operations that also carries a state of its author's. -/
abbrev Authoring (σ α : Type) := ExceptT ShaderError (StateM (Builder × σ)) α

/-- An operation of the builder leaves the state of the author alone. -/
instance {σ : Type} : MonadLift (ExceptT ShaderError (StateM Builder))
    (ExceptT ShaderError (StateM (Builder × σ))) where
  monadLift act := fun (b, s) =>
    let (result, b) := StateT.run (ExceptT.run act) b
    (result, (b, s))

/-- Run an operation: its result and the builder it leaves. -/
def Builder.run {α : Type} (b : Builder) (act : Build α) : Except ShaderError α × Builder :=
  StateT.run (ExceptT.run act) b

namespace Build

/-- Refuse a feature that the target lacks. -/
def require (f : Feature) : Build Unit := do (← get).target.require f

/-- Register types. -/
def intern {α : Type} (act : Interning α) : Build α := do
  let b ← get
  let (result, types) := b.types.run act
  set { b with types }
  result

/-- Make a remark. -/
def remark (r : Remark) : Build Unit := modify fun b => { b with remarks := b.remarks ++ [r] }

/-- The stage being built. -/
def stage : Build OpenStage := do
  match (← get).stage with
  | some s => return s
  | none => throw (.internal .noStage)

/-- Change the stage being built. -/
def modifyStage (f : OpenStage → OpenStage) : Build Unit := do
  let s ← stage
  modify fun b => { b with stage := some (f s) }

/-- Change the declarations of the stage being built. -/
def modifyDecls (f : StageDecls → StageDecls) : Build Unit :=
  modifyStage fun s => { s with decls := f s.decls }

/-- Enable an extension for the stage being built. -/
def enable (e : GlslExtension) : Build Unit :=
  modifyDecls fun d =>
    if d.extensions.contains e then d else { d with extensions := e :: d.extensions }

/-- Record an expression. -/
def pushNode (type : TypeId) (kind : NodeKind) : Build Expr := do
  let n := (← get).nodes.size
  modify fun b => { b with nodes := b.nodes.push ⟨type, kind⟩ }
  return ⟨⟨n⟩, type⟩

/-- Record a variable. -/
def pushVar (v : Variable) : Build VarId := do
  let n := (← get).vars.size
  modify fun b => { b with vars := b.vars.push v }
  return ⟨n⟩

/-! ## Types the target has -/

/-- The first feature a texture needs that the target lacks. -/
def checkTexture (target : Target) (t : TextureType) : Except ShaderError Unit := do
  match t.dimension with
  | .flatArray => target.require .arrayTexture
  | .volume => target.require .texture3D
  | .cubeArray => target.require .cubeArrayTexture
  | _ => pure ()
  if t.multisampled then target.require .multisampledTexture
  if t.sample.isInteger then target.require .integerTexture

/-- The first feature a primitive type needs that the target lacks. -/
def checkPrimitive (target : Target) (p : PrimitiveType) : Except ShaderError Unit := do
  match p.scalar with
  | .u32 => target.require .unsignedInt
  | .f16 => target.require .float16
  | _ => pure ()
  if p.isMatrix && p.cols != p.rows then target.require .nonSquareMatrix

mutual

/-- The first feature a shape needs that the target lacks. -/
def checkShape (target : Target) : TypeShape → Except ShaderError Unit
  | .void | .sampler _ => .ok ()
  | .primitive p => checkPrimitive target p
  | .array element n => do
    if n = 0 then target.require .runtimeArray
    if element.isArray then target.require .nestedArray
    checkShape target element
  | .struct _ _ members => checkMemberShapes target members
  | .pointer pointee _ => do
    target.require .pointer
    checkShape target pointee
  | .texture t => checkTexture target t

/-- The first feature the members of a struct need that the target lacks. -/
def checkMemberShapes (target : Target) : List (String × TypeShape) → Except ShaderError Unit
  | [] => .ok ()
  | (_, type) :: rest => do
    checkShape target type
    checkMemberShapes target rest

end

/-- Register the type of a shape that the target has. -/
def type (shape : TypeShape) : Build TypeId := do
  checkShape (← get).target shape
  intern (Interning.shape shape)

end Build

end WebShader
