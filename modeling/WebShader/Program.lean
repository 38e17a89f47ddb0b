import WebShader.Binding.Layout
import WebShader.Glsl.Module
import WebShader.Interface
import WebShader.Wgsl.Module

/-!
# Programs

A builder compiles one program at a time: each stage is authored in turn, the resources of all
stages are bound, and the sources are written. The builder must be cleared before the next program.
-/

namespace WebShader

/-! ## Compiled programs -/

/-- The source of a stage and the structs it declares, in order. -/
structure StageSource where
  stage : Stage
  text : String
  structs : List String

/-- A vertex attribute of a program. -/
structure VertexAttribute where
  name : String
  semantic : Semantic
  location : Nat
  format : String

/-- A program that draws. -/
structure RenderProgram where
  label : String
  target : Target
  vertex : StageSource
  fragment : StageSource
  layouts : List Binding.GroupLayout
  attributes : List VertexAttribute
  generatedSamplers : List String

/-- A program that computes. -/
structure ComputeProgram where
  label : String
  target : Target
  compute : StageSource
  layouts : List Binding.GroupLayout
  generatedSamplers : List String
  workgroupSize : UInt32 × UInt32 × UInt32

/-! ## Sources -/

namespace ResolvedStage

/-- The text of a stage in the language of its target. -/
def text (s : ResolvedStage) : Except ShaderError String :=
  if s.target = .webGPU then (Wgsl.module s).map (·.text s.indentWidth)
  else (Glsl.module s).map (·.text s.indentWidth)

/-- The source of a stage. -/
def source (s : ResolvedStage) : Except ShaderError StageSource := do
  let names := s.structTypes.filterMap fun t => (s.types.struct? t).map (·.name)
  return ⟨s.stage, ← s.text, names⟩

end ResolvedStage

namespace Builder

/-- The source of a finished stage. -/
def source (b : Builder) (plan : Binding.Plan) (s : BuiltStage) : Except ShaderError StageSource :=
  do (← b.resolve plan s).source

/-- The attribute that an input of the vertex stage is. -/
def attribute? (b : Builder) (v : VarId) : Option VertexAttribute := do
  let d ← b.var? v
  let location ← d.role.inputLocation?
  let semantic ← d.role.semantic?
  return ⟨d.name, semantic, location, b.types.display d.type⟩

end Builder

/-! ## Compilation -/

namespace Build

/-- Start a program. -/
def start : Build Unit := do
  match (← get).phase with
  | .building => throw (.internal .reentrant)
  | .done => throw (.internal .needsReset)
  | .idle => modify fun b => { b with phase := .building }

/-- End a program, compiled or not. -/
def finish : Build Unit := modify fun b => { b with stage := none, phase := .done }

/-- Open a stage; the outputs of an earlier stage enter it. -/
def openStage (stage : Stage) (earlier : List VarId) : Build Unit := do
  modify fun b => { b with stage := some { decls := { stage } } }
  inputsFrom earlier

/-- Close the stage at hand. -/
def closeStage (stage : Stage) : Build BuiltStage := do
  match (← get).stage with
  | none => throw (.internal .stageVanished)
  | some s =>
    modify fun b => { b with stage := none }
    if s.frames.length ≠ 1 then throw (.internal (.openScopes (s.frames.length - 1) stage))
    match s.main with
    | none => throw (.declaration (.noMain stage))
    | some main => return ⟨s.decls, main⟩

/-- The builder as it stands. -/
def current : Build Builder := get

/-- Keep the report of the last failure, or forget it. -/
def setLastError (report : Option String) : Build Unit :=
  modify fun b => { b with lastError := report }

/-- Bind the resources of stages. -/
def bindStages (stages : List BuiltStage) : Build Binding.Plan := do
  let b ← get
  intern (Binding.plan b.target b.vars stages)

end Build

namespace Authoring

variable {σ : Type}

/-- Author a stage, given the outputs of an earlier one. -/
def stage (which : Stage) (earlier : List VarId) (body : Authoring σ Unit) :
    Authoring σ BuiltStage := do
  Build.openStage which earlier
  body
  Build.closeStage which

/-- Author and compile the stages of a program that draws. -/
def compileRender (label : String) (vertex fragment : Authoring σ Unit) :
    Authoring σ RenderProgram := do
  let v ← stage .vertex [] vertex
  let f ← stage .fragment v.decls.outputs fragment
  let plan ← Build.bindStages [v, f]
  let b ← Build.current
  let vertex ← b.source plan v
  let fragment ← b.source plan f
  let layouts ← plan.layouts b.types label
  return { label, target := b.target, vertex, fragment, layouts
           attributes := v.decls.inputs.filterMap b.attribute?
           generatedSamplers := plan.generatedSamplers }

/-- Author and compile the stage of a program that computes. -/
def compileCompute (label : String) (compute : Authoring σ Unit) :
    Authoring σ ComputeProgram := do
  Build.require .compute
  let c ← stage .compute [] compute
  let plan ← Build.bindStages [c]
  let b ← Build.current
  let compute ← b.source plan c
  let layouts ← plan.layouts b.types label
  return { label, target := b.target, compute, layouts
           generatedSamplers := plan.generatedSamplers
           workgroupSize := c.decls.workgroupSize }

/-- Run a compilation as the one program of the builder. -/
def asProgram {α : Type} (compile : Authoring σ α) : Authoring σ α := do
  Build.start
  let result ← attempt compile
  Build.finish
  match result with
  | .ok program => return program
  | .error e => throw e

/-- Build a program that draws. -/
def render (label : String) (vertex fragment : Authoring σ Unit) : Authoring σ RenderProgram :=
  asProgram (compileRender label vertex fragment)

/-- Build a program that computes. -/
def compute (label : String) (body : Authoring σ Unit) : Authoring σ ComputeProgram :=
  asProgram (compileCompute label body)

/-! ## Failures -/

/-- The report of a program that could not be built. -/
def failureReport (label : String) (target : Target) (e : ShaderError) : String :=
  "cannot build program '" ++ label ++ "' for " ++ target.text ++ ": " ++ e.message

/-- Build a program and keep a report of the failure instead of failing. An overflow is not
reported. -/
def reported {α : Type} (label : String) (build : Authoring σ α) : Authoring σ (Option α) := do
  match ← attempt build with
  | .ok program =>
    Build.setLastError none
    return some program
  | .error .overflow => throw .overflow
  | .error e =>
    let report := failureReport label (← Build.current).target e
    Build.setLastError (some report)
    Build.remark (.error report)
    return none

end Authoring

end WebShader
