import WebShader.Glsl.Expression

/-!
# GLSL ES sources

The source of a stage: the version and extensions, the structs, the constants, what enters and
leaves the stage, its uniforms, its functions and its entry point.
-/

namespace WebShader

namespace Glsl

/-! ## Declarations -/

/-- A member of a struct, or a parameter of a function. -/
structure Field where
  type : TypeName
  name : String

/-- A struct. -/
structure Struct where
  name : String
  fields : List Field

/-- A constant. -/
structure Constant where
  field : Field
  value : Expr

/-- How a variable enters or leaves a stage. -/
inductive Qualifier where
  | attributeIn
  | varying
  | inAt (location : Nat)
  | outAt (location : Nat)
  | flatIn
  | flatOut
  | smoothIn
  | smoothOut

/-- A variable that enters or leaves a stage. -/
structure Interface where
  qualifier : Qualifier
  field : Field

/-- A uniform: a block declared in place, or a variable. -/
inductive Uniform where
  | block (struct : Struct) (name : String)
  | plain (field : Field)

/-- A function. -/
structure Function where
  result : TypeName
  name : String
  params : List Field
  body : List Stmt

/-- The source of a stage. -/
structure Module where
  isVersion300 : Bool
  extensions : List GlslExtension
  samplers : List String
  structs : List Struct
  constants : List Constant
  interfaces : List Interface
  uniforms : List Uniform
  functions : List Function
  main : List Stmt

/-! ## Texts -/

/-- The text of a member or parameter. -/
def Field.text (f : Field) : String := f.type.declare f.name

/-- The lines of the members of a struct. -/
def fieldLines (width : Nat) (fields : List Field) : String :=
  String.join (fields.map fun f => Code.indent width 1 ++ f.text ++ ";\n")

/-- The text of a struct. -/
def Struct.text (width : Nat) (s : Struct) : String :=
  "struct " ++ s.name ++ " \x7b\n" ++ fieldLines width s.fields ++ "\x7d;\n\n"

/-- The text of a constant. -/
def Constant.text (c : Constant) : String :=
  "const " ++ c.field.text ++ " = " ++ c.value.text dialect ++ ";\n"

/-- The text of a qualifier. -/
def Qualifier.text : Qualifier → String
  | attributeIn => "attribute"
  | varying => "varying"
  | inAt n => "layout(location = " ++ toString n ++ ") in"
  | outAt n => "layout(location = " ++ toString n ++ ") out"
  | flatIn => "flat in"
  | flatOut => "flat out"
  | smoothIn => "in"
  | smoothOut => "out"

/-- The text of a variable that enters or leaves a stage. -/
def Interface.text (i : Interface) : String := i.qualifier.text ++ " " ++ i.field.text ++ ";\n"

/-- The text of a uniform. -/
def Uniform.text (width : Nat) : Uniform → String
  | block s name =>
    "layout(std140) uniform " ++ s.name ++ " \x7b\n" ++ fieldLines width s.fields ++ "\x7d " ++
      name ++ ";\n"
  | plain f => "uniform " ++ f.text ++ ";\n"

/-- The text of a function. -/
def Function.text (width : Nat) (f : Function) : String :=
  f.result.text ++ " " ++ f.name ++ "(" ++ ", ".intercalate (f.params.map (·.text)) ++ ") \x7b\n" ++
    Code.Stmt.blockText dialect width 1 f.body ++ "\x7d\n"

/-- The samplers whose precision is the one of the language, and needs no declaration. -/
def hasDefaultPrecision (sampler : String) : Bool :=
  sampler == "sampler2D" || sampler == "samplerCube"

namespace Module

/-- The lines of a source before its declarations. -/
def header (m : Module) : String :=
  let version := if m.isVersion300 then "#version 300 es\n" else ""
  let extensions := m.extensions.map fun e => "#extension " ++ e.name ++ " : enable\n"
  let samplers := (m.samplers.filter fun s => !hasDefaultPrecision s).map fun s =>
    "precision highp " ++ s ++ ";\n"
  version ++ String.join extensions ++ "precision highp float;\nprecision highp int;\n" ++
    String.join samplers ++ "\n"

/-- The text of a source. -/
def text (width : Nat) (m : Module) : String :=
  let main : Function := ⟨.void, "main", [], m.main⟩
  m.header ++ String.join (m.structs.map (·.text width)) ++
    String.join (m.constants.map (·.text)) ++ String.join (m.interfaces.map (·.text)) ++
    String.join (m.uniforms.map (·.text width)) ++
    String.join ((m.functions ++ [main]).map fun f => "\n" ++ f.text width)

end Module

/-! ## Sources of stages -/

/-- Put a name into an alphabetical list that may hold it already. -/
def insertName (name : String) : List String → List String
  | [] => [name]
  | n :: rest =>
    if name < n then name :: n :: rest
    else if name = n then n :: rest
    else n :: insertName name rest

/-- The samplers of the textures a stage sees, in alphabetical order, each once. -/
def samplers (s : ResolvedStage) : Except ShaderError (List String) := do
  let names ← (s.records.filterMap (·.content.texture?)).mapM (samplerName s.target)
  return names.foldr insertName []

/-- The declaration of a name of a registered type. -/
def field (s : ResolvedStage) (name : String) (t : TypeId) : Except ShaderError Field :=
  return ⟨← typeOf s t, name⟩

/-- The declaration of a struct. -/
def struct (s : ResolvedStage) (t : TypeId) : Except ShaderError Struct := do
  let struct ← s.struct t
  return ⟨struct.name, ← struct.members.mapM fun m => field s m.name m.type⟩

/-- The declaration of a constant. -/
def constant (s : ResolvedStage) (c : Variable × Term) : Except ShaderError Constant := do
  let f ← field s c.1.name c.1.type
  return ⟨f, ← expr s c.2⟩

/-- Whether a variable between stages cannot be interpolated. -/
def isFlat (s : ResolvedStage) (t : TypeId) : Bool :=
  (s.types.primitive? t).any (·.scalar.isInteger)

/-- The declaration of an input. -/
def input (s : ResolvedStage) (v : VarId) : Except ShaderError Interface := do
  let d ← s.var v
  let f ← field s d.name d.type
  match d.role with
  | .input location _ =>
    let qualifier :=
      if s.target = .webGL then if s.stage = .vertex then .attributeIn else .varying
      else if s.stage = .vertex then .inAt location
      else if isFlat s d.type then .flatIn
      else .smoothIn
    return ⟨qualifier, f⟩
  | _ => throw (.internal (.notInput d.name))

/-- The declaration of an output; the outputs of a fragment in GLSL ES 1.00 have none. -/
def output (s : ResolvedStage) (v : VarId) : Except ShaderError (Option Interface) := do
  let d ← s.var v
  let f ← field s d.name d.type
  match d.role with
  | .output location =>
    if s.target = .webGL then
      return if s.stage = .vertex then some ⟨.varying, f⟩ else none
    else if s.stage = .vertex then
      return some ⟨if isFlat s d.type then .flatOut else .smoothOut, f⟩
    else return some ⟨.outAt location, f⟩
  | _ => throw (.internal (.notOutput d.name))

/-- The declaration of a bound resource. -/
def uniform (s : ResolvedStage) (b : Binding.Record) : Except ShaderError Uniform := do
  match b.content with
  | .uniformBlock t =>
    match s.types.struct? t with
    | none => throw (.internal (.blockNotStruct b.name))
    | some struct =>
      if s.target = .webGL2 then
        let fields ← struct.members.mapM fun m => field s m.name m.type
        return .block ⟨struct.name, fields⟩ b.name
      else return .plain ⟨.struct struct.name, b.name⟩
  | .texture t => return .plain ⟨.sampler (← samplerName s.target t), b.name⟩
  | _ => throw (.internal (.glslResource b.name))

/-- The definition of a function. -/
def function (s : ResolvedStage) (f : WebShader.Function × List (WebShader.Stmt Term)) :
    Except ShaderError Function := do
  let result ← typeOf s f.1.result
  let params ← f.1.params.mapM fun v => do
    let d ← s.var v
    field s d.name d.type
  return ⟨result, f.1.name, params, ← (lowering s).block f.2⟩

/-- The source of a stage. -/
def module (s : ResolvedStage) : Except ShaderError Module := do
  let samplers ← if s.target = .webGL2 then samplers s else pure []
  let structs ← s.structTypes.mapM (struct s)
  let constants ← s.constants.mapM (constant s)
  let inputs ← s.decls.inputs.mapM (input s)
  let outputs ← s.decls.outputs.mapM (output s)
  let uniforms ← s.records.mapM (uniform s)
  let functions ← s.functions.mapM (function s)
  let main ← (lowering s).block s.main
  return { isVersion300 := s.target = .webGL2
           extensions := GlslExtension.all.filter s.decls.extensions.contains
           samplers, structs, constants
           interfaces := inputs ++ outputs.filterMap id
           uniforms, functions, main }

end Glsl

end WebShader
