import WebShader.Binding.Plan
import WebShader.Term

/-!
# Resolved stages

A finished stage with its expressions read back as trees and its resources bound: all that the
source of the stage is written from.
-/

namespace WebShader

/-! ## Stages -/

/-- A stage ready to be written. -/
structure ResolvedStage where
  target : Target
  indentWidth : Nat
  types : Registry
  vars : Array Variable
  plan : Binding.Plan
  decls : StageDecls
  constants : List (Variable × Term)
  functions : List (Function × List (Stmt Term))
  main : List (Stmt Term)

namespace ResolvedStage

/-- The stage of the pipeline. -/
def stage (s : ResolvedStage) : Stage := s.decls.stage

/-- A variable. -/
def var (s : ResolvedStage) (v : VarId) : Except ShaderError Variable :=
  match s.vars[v.index]? with
  | some d => .ok d
  | none => .error (.internal (.undefinedExpression v.index))

/-- The binding of a declaration. -/
def record (s : ResolvedStage) (v : VarId) (d : Variable) : Except ShaderError Binding.Record :=
  match s.plan.recordOf? v with
  | some b => .ok b
  | none => .error (.internal (.unbound d.name))

/-- The function of a place. -/
def function (s : ResolvedStage) (f : FunctionId) : Except ShaderError Function :=
  match s.decls.function? f with
  | some fn => .ok fn
  | none => .error (.internal (.undefinedFunctionId f.index))

/-- The name of a function in the source. WGSL has no overloading: there, functions that share a
name are told apart by their ranks. -/
def functionName (s : ResolvedStage) (fn : Function) : String :=
  if s.target == .webGPU && (s.decls.overloads fn.name).length > 1 then
    fn.name ++ "_" ++ toString fn.rank
  else fn.name

/-- The struct of a type. -/
def struct (s : ResolvedStage) (t : TypeId) : Except ShaderError StructType :=
  match s.types.struct? t with
  | some struct => .ok struct
  | none => .error (.internal .notStruct)

/-- The member of a struct that an access names. -/
def member (s : ResolvedStage) (t : TypeId) (index : Nat) : Except ShaderError Member :=
  match (s.types.struct? t).bind (·.members[index]?) with
  | some m => .ok m
  | none => .error (.internal .memberAccess)

/-- The records that the stage sees, in the order of groups and indices. -/
def records (s : ResolvedStage) : List Binding.Record := s.plan.visibleFrom s.stage

end ResolvedStage

/-! ## Resolution -/

namespace Builder

/-- A constant with its value. -/
def resolveConstant (b : Builder) (v : VarId) : Except ShaderError (Variable × Term) := do
  match b.var? v with
  | none => throw (.internal (.undefinedExpression v.index))
  | some d =>
    match d.init with
    | none => throw (.internal (.noValue d.name))
    | some init => return (d, ← b.term init)

/-- A function with its body. -/
def resolveFunction (b : Builder) (f : Function) :
    Except ShaderError (Function × List (Stmt Term)) :=
  return (f, ← Stmt.traverseBlock b.term f.body)

/-- Resolve a finished stage. -/
def resolve (b : Builder) (plan : Binding.Plan) (s : BuiltStage) :
    Except ShaderError ResolvedStage := do
  let constants ← s.decls.constants.mapM b.resolveConstant
  let functions ← s.decls.functions.mapM b.resolveFunction
  let main ← Stmt.traverseBlock b.term s.main
  return { target := b.target, indentWidth := b.config.indentWidth, types := b.types,
           vars := b.vars, plan, decls := s.decls, constants, functions, main }

end Builder

/-! ## Structs -/

/-- The structs found so far and those of a type, each after the structs of its members. -/
def Registry.addStructs (r : Registry) (found : List TypeId) (t : TypeId) : List TypeId :=
  let visit (found : List TypeId) (part : TypeId) : List TypeId :=
    if part.index < t.index then r.addStructs found part else found
  match r.kind t with
  | .struct s =>
    if found.contains t then found
    else (s.members.map (·.type)).foldl visit found ++ [t]
  | .array element _ => visit found element
  | .pointer pointee _ => visit found pointee
  | _ => found
termination_by t.index

namespace ResolvedStage

/-- The types of the variables that the stage has tried to declare, in order. -/
def variableTypes (s : ResolvedStage) : List TypeId :=
  (s.vars.toList.filter (·.stage == s.stage)).map (·.type)

/-- The types of the uniform blocks, which GLSL ES 3.00 declares where they are bound. -/
def blockTypes (s : ResolvedStage) : List TypeId :=
  if s.target = .webGL2 then [] else s.records.filterMap (·.content.block?)

/-- The types the stage uses, in the order in which their structs are declared. -/
def usedTypes (s : ResolvedStage) : List TypeId :=
  s.variableTypes ++ s.functions.map (·.1.result) ++
    s.functions.flatMap (fun f => Stmt.blockTypes f.2) ++ Stmt.blockTypes s.main ++
    s.constants.flatMap (fun c => c.2.types) ++ s.blockTypes

/-- The structs the stage declares, in order. -/
def structTypes (s : ResolvedStage) : List TypeId := s.usedTypes.foldl s.types.addStructs []

end ResolvedStage

end WebShader
