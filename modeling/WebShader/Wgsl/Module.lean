import WebShader.Wgsl.Expression

/-!
# WGSL sources

The source of a stage: wrappers and structs, the structs of what enters and leaves the stage,
constants, bound resources and private variables, functions, and the entry point, which copies
what enters the stage in and what leaves it out around the body its author wrote.
-/

namespace WebShader

namespace Wgsl

/-! ## Declarations -/

/-- An attribute of a member of a struct. -/
inductive Attribute where
  | align (bytes : Nat)
  | size (bytes : Nat)
  | builtin (name : String)
  | location (n : Nat)
  | flat
  deriving DecidableEq

/-- A member of a struct, or a parameter of a function. -/
structure Field where
  attributes : List Attribute
  name : String
  type : TypeName

/-- A struct. -/
structure Struct where
  name : String
  fields : List Field

/-- A constant. -/
structure Constant where
  name : String
  type : TypeName
  value : Expr

/-- Where a variable of a source lives. -/
inductive Storage where
  | handle
  | uniform
  | storage (readOnly : Bool)
  | workgroup
  | priv

/-- A variable of a source, bound or not. -/
structure Global where
  binding : Option (UInt32 × Nat)
  storage : Storage
  name : String
  type : TypeName

/-- A function. -/
structure Function where
  name : String
  params : List Field
  result : Option TypeName
  body : List Stmt

/-- The source of a stage. What enters and leaves the stage is held by two structs, which are only
declared if they have members. -/
structure Module where
  usesHalf : Bool
  structs : List Struct
  input : Struct
  output : Struct
  constants : List Constant
  globals : List Global
  functions : List Function
  main : List Stmt
  stage : Stage
  workgroupSize : UInt32 × UInt32 × UInt32

/-! ## Texts -/

/-- The text of an attribute. -/
def Attribute.text : Attribute → String
  | align n => "@align(" ++ toString n ++ ")"
  | size n => "@size(" ++ toString n ++ ")"
  | builtin name => "@builtin(" ++ name ++ ")"
  | location n => "@location(" ++ toString n ++ ")"
  | flat => "@interpolate(flat)"

/-- The text of a member or parameter. -/
def Field.text (f : Field) : String :=
  String.join (f.attributes.map (·.text ++ " ")) ++ f.name ++ ": " ++ f.type.text

/-- The text of a struct whose members are indented by some spaces. -/
def Struct.text (width : Nat) (s : Struct) : String :=
  "struct " ++ s.name ++ " \x7b\n" ++
    String.join (s.fields.map fun f => Code.indent width 1 ++ f.text ++ ",\n") ++ "\x7d\n\n"

/-- The text of a constant. -/
def Constant.text (c : Constant) : String :=
  "const " ++ c.name ++ ": " ++ c.type.text ++ " = " ++ c.value.text dialect ++ ";\n"

/-- The text of where a variable lives. -/
def Storage.text : Storage → String
  | handle => ""
  | uniform => "<uniform>"
  | storage readOnly => if readOnly then "<storage, read>" else "<storage, read_write>"
  | workgroup => "<workgroup>"
  | priv => "<private>"

/-- The text of a variable. -/
def Global.text (g : Global) : String :=
  let binding := match g.binding with
    | some (group, index) =>
      "@group(" ++ toString group.toNat ++ ") @binding(" ++ toString index ++ ") "
    | none => ""
  binding ++ "var" ++ g.storage.text ++ " " ++ g.name ++ ": " ++ g.type.text ++ ";\n"

/-- The text of a function. -/
def Function.text (width : Nat) (f : Function) : String :=
  let result := match f.result with
    | some t => " -> " ++ t.text
    | none => ""
  let params := ", ".intercalate (f.params.map (·.text))
  "fn " ++ f.name ++ "(" ++ params ++ ")" ++ result ++ " \x7b\n" ++
    Code.Stmt.blockText dialect width 1 f.body ++ "\x7d\n"

/-- The text of the attributes of an entry point. -/
def entryAttributes (stage : Stage) (size : UInt32 × UInt32 × UInt32) : String :=
  match stage with
  | .vertex => "@vertex"
  | .fragment => "@fragment"
  | .compute =>
    let (x, y, z) := size
    "@compute @workgroup_size(" ++ toString x.toNat ++ ", " ++ toString y.toNat ++ ", " ++
      toString z.toNat ++ ")"

namespace Module

/-- A struct, if it has members. -/
def declared (s : Struct) : List Struct := if s.fields.isEmpty then [] else [s]

/-- The private variables of what enters and leaves the stage. -/
def interfaceGlobals (m : Module) : List Global :=
  (declared m.input).map (fun s => ⟨none, .priv, "stage_in", .struct s.name⟩) ++
    (declared m.output).map fun s => ⟨none, .priv, "stage_out", .struct s.name⟩

/-- The entry point. -/
def entry (m : Module) : Function where
  name := "main"
  params := (declared m.input).map fun s => ⟨[], "input", .struct s.name⟩
  result := (declared m.output).head?.map fun s => .struct s.name
  body :=
    (declared m.input).map (fun _ => .assign stageIn none (.name "input")) ++
      [.eval (.apply (.function "stage_main") [])] ++
      (declared m.output).map fun _ => .returnWith (some stageOut)

/-- The text of a source. -/
def text (width : Nat) (m : Module) : String :=
  let half := if m.usesHalf then "enable f16;\n\n" else ""
  let main : Function := ⟨"stage_main", [], none, m.main⟩
  half ++ String.join (m.structs.map (·.text width)) ++
    String.join ((declared m.input ++ declared m.output).map (·.text 2)) ++
    String.join (m.constants.map (·.text)) ++
    String.join ((m.globals ++ m.interfaceGlobals).map (·.text)) ++
    String.join ((m.functions ++ [main]).map fun f => "\n" ++ f.text width) ++
    "\n" ++ entryAttributes m.stage m.workgroupSize ++ "\n" ++ m.entry.text 2

end Module

/-! ## Structs -/

/-- The wrapper of a primitive type: the value, or the columns of a matrix, each in 16 bytes. -/
def wrapper (p : PrimitiveType) : Struct :=
  let fields := if p.isMatrix then
      (List.range p.cols.toNat).map fun c =>
        ⟨[.size 16], "c" ++ toString c, .primitive p.element⟩
    else [⟨[.size 16], "v", .primitive p⟩]
  ⟨wrapperName p, fields⟩

/-- The attributes that move a member to where `std140` rules put it. The first member carries the
alignment of the whole struct, and the last one its padding unless it is runtime-sized. -/
def memberAttributes (r : Registry) (s : StructType) (m : Member) (offset : Nat)
    (isFirst isLast : Bool) : Except ShaderError (List Attribute) := do
  let extent ← r.extent m.type .std140
  let natural ← r.extent m.type .packed
  let align := if (extent.alignment = 16 || isFirst) && natural.alignment < 16 then
      [Attribute.align 16] else []
  let space := s.layout.size - offset
  let size := if isLast && !r.isRuntimeSized m.type && space ≠ extent.size then
      [Attribute.size space] else []
  return align ++ size

/-- The members of a struct under `std140` rules, given those that come before. -/
def std140Fields (r : Registry) (s : StructType) (isFirst : Bool) :
    List (Member × Nat) → Except ShaderError (List Field)
  | [] => .ok []
  | (m, offset) :: rest => do
    let attributes ← memberAttributes r s m offset isFirst rest.isEmpty
    let type ← std140TypeName r m.type
    return ⟨attributes, m.name, type⟩ :: (← std140Fields r s false rest)

/-- The declaration of a struct. -/
def struct (s : ResolvedStage) (t : TypeId) : Except ShaderError Struct := do
  let struct ← s.struct t
  let fields ← match struct.policy with
    | .packed => struct.members.mapM fun m => return ⟨[], m.name, ← typeName s.types m.type⟩
    | .std140 => std140Fields s.types struct true (struct.members.zip struct.layout.offsets)
  return ⟨struct.name, fields⟩

/-! ## Interfaces -/

/-- The member that holds a built-in variable. -/
def builtinField (s : ResolvedStage) (b : Builtin) : Field :=
  ⟨[.builtin b.wgslName], b.memberName, .primitive (b.type s.target)⟩

/-- The member that holds a variable at a location. Integers are not interpolated between stages. -/
def locationField (s : ResolvedStage) (location : Nat) (d : Variable) (isBetween : Bool) :
    Except ShaderError Field := do
  let isFlat := (s.types.primitive? d.type).any (·.scalar.isInteger) && isBetween
  let attributes := if isFlat then [.location location, .flat] else [Attribute.location location]
  return ⟨attributes, d.name, ← typeName s.types d.type⟩

/-- The member that holds an input. -/
def inputField (s : ResolvedStage) (v : VarId) : Except ShaderError Field := do
  let d ← s.var v
  match d.role.inputLocation? with
  | some location => locationField s location d (s.stage == .fragment)
  | none => throw (.internal (.notInput d.name))

/-- The member that holds an output. -/
def outputField (s : ResolvedStage) (v : VarId) : Except ShaderError Field := do
  let d ← s.var v
  match d.role.outputLocation? with
  | some location => locationField s location d (s.stage == .vertex)
  | none => throw (.internal (.notOutput d.name))

/-- The prefix of the names of the structs that hold what enters and leaves a stage. -/
def stagePrefix : Stage → String
  | .vertex => "Vertex"
  | .fragment => "Fragment"
  | .compute => "Compute"

/-- The struct of what enters a stage: its inputs, then the built-in variables it reads. -/
def inputStruct (s : ResolvedStage) : Except ShaderError Struct := do
  let inputs ← s.decls.inputs.mapM (inputField s)
  let builtins := (s.decls.builtins.map (·.1)).filter fun b => !b.isOutput
  return ⟨stagePrefix s.stage ++ "Input", inputs ++ builtins.map (builtinField s)⟩

/-- The struct of what leaves a stage: its outputs, then the built-in variables it writes. A vertex
has a position first, written or not. -/
def outputStruct (s : ResolvedStage) : Except ShaderError Struct := do
  let position := if s.stage = .vertex then [builtinField s .position] else []
  let outputs ← s.decls.outputs.mapM (outputField s)
  let builtins := (s.decls.builtins.map (·.1)).filter fun b => b.isOutput && b != .position
  return ⟨stagePrefix s.stage ++ "Output",
    position ++ outputs ++ builtins.map (builtinField s)⟩

/-! ## Globals and functions -/

/-- The declaration of a constant. -/
def constant (s : ResolvedStage) (c : Variable × Term) : Except ShaderError Constant := do
  let type ← typeName s.types c.1.type
  return ⟨c.1.name, type, ← expr s c.2⟩

/-- The declaration of a bound resource. -/
def bound (s : ResolvedStage) (b : Binding.Record) : Except ShaderError Global := do
  let binding := some (b.group, b.index)
  match b.content with
  | .uniformBlock t => return ⟨binding, .uniform, b.name, ← typeName s.types t⟩
  | .storageBuffer t readOnly => return ⟨binding, .storage readOnly, b.name, ← typeName s.types t⟩
  | .texture t => return ⟨binding, .handle, b.name, .texture t⟩
  | .sampler kind => return ⟨binding, .handle, b.name, .sampler kind⟩

/-- The declarations of the variables of a workgroup. -/
def shared (s : ResolvedStage) : List VarId → Except ShaderError (List Global)
  | [] => .ok []
  | v :: rest => do
    let d ← s.var v
    if d.role = .workgroup then
      let type ← typeName s.types d.type
      return ⟨none, .workgroup, d.name, type⟩ :: (← shared s rest)
    else shared s rest

/-- The definition of a function. -/
def function (s : ResolvedStage) (f : WebShader.Function × List (WebShader.Stmt Term)) :
    Except ShaderError Function := do
  let params ← f.1.params.mapM fun v => do
    let d ← s.var v
    return ⟨[], d.name, ← typeName s.types d.type⟩
  let result ← if s.types.isVoid f.1.result then pure none
    else (typeName s.types f.1.result).map some
  return ⟨s.functionName f.1, params, result, ← (lowering s).block f.2⟩

/-! ## Sources of stages -/

/-- The source of a stage. -/
def module (s : ResolvedStage) : Except ShaderError Module := do
  let structs ← s.structTypes.mapM (struct s)
  let input ← inputStruct s
  let output ← outputStruct s
  let constants ← s.constants.mapM (constant s)
  let bindings ← s.records.mapM (bound s)
  let workgroup ← shared s s.decls.resources
  let functions ← s.functions.mapM (function s)
  let main ← (lowering s).block s.main
  let wrapped := wrappers s.types (s.structTypes.filterMap s.types.struct?)
  return { usesHalf := s.types.hasScalar .f16
           structs := wrapped.map wrapper ++ structs
           input, output, constants
           globals := bindings ++ workgroup
           functions, main
           stage := s.stage
           workgroupSize := s.decls.workgroupSize }

end Wgsl

end WebShader
