import WebShader.Statement

/-!
# Functions

Functions of a stage, its entry point, and calls. A function returns the type of the first value
it returns; several functions may share a name if their parameter types differ.
-/

namespace WebShader

/-! ## Definitions -/

namespace Build

/-- Refuse a name that functions cannot have. -/
def checkFunctionName (name : String) : Build Unit := do
  checkIdentifier name
  requireGlobal "functions"
  if name == "main" then throw (.declaration .mainAsFunction)
  -- the entry point of the author has this name in WGSL
  if name == "stage_main" then throw (.declaration .reservedFunction)

/-- Whether a parameter can have a type: sized values and pointers can be passed. -/
def isParamType : TypeKind → Bool
  | .pointer _ _ => true
  | k => k.isSized

/-- The types of the parameters of a function. -/
def paramTypes (function : String) : List (String × TypeShape) → Build (List TypeId)
  | [] => return []
  | (name, shape) :: rest => do
    let t ← type shape
    let r := (← get).types
    if !isParamType (r.kind t) then throw (.type (.paramType name function (r.display t)))
    return t :: (← paramTypes function rest)

/-- Declare the parameters of a function. -/
def declareParams : List (String × TypeId) → Build (List (VarId × Expr))
  | [] => return []
  | (name, t) :: rest => do
    let param ← newVar name t .param
    return param :: (← declareParams rest)

/-- The function of a place in the stage being built. -/
def function (f : FunctionId) : Build Function := do
  match (← stage).decls.function? f with
  | some fn => return fn
  | none => throw (.internal (.undefinedFunctionId f.index))

/-- Refuse a function whose parameter types one of the overloads has already. -/
def requireNewParams (name : String) (types : List TypeId) : List FunctionId → Build Unit
  | [] => return
  | f :: rest => do
    if (← function f).paramTypes = types then throw (.declaration (.duplicateFunction name))
    requireNewParams name types rest

/-- The result type of a function whose scope has been left, and a check that it returns. -/
def resultType (name : String) (scope : Frame) : Build TypeId := do
  let t ← match scope.kind with
    | .function _ (some t) => pure t
    | _ => intern Interning.void
  if !(← get).types.isVoid t && !Stmt.blockReturns scope.body then
    throw (.declaration (.missingReturn name))
  return t

/-- Add a function to the stage being built. -/
def addFunction (f : Function) : Build FunctionId := do
  let n := (← stage).decls.functions.length
  modifyDecls fun d => { d with functions := d.functions ++ [f] }
  return ⟨n⟩

end Build

namespace Authoring

variable {σ : Type}

/-- Define a function. The body is given its parameters. -/
def func (name : String) (params : List (String × TypeShape))
    (body : List Expr → Authoring σ Unit) : Authoring σ FunctionId := do
  Build.checkFunctionName name
  let types ← Build.paramTypes name params
  let overloads := (← Build.stage).decls.overloads name
  Build.requireNewParams name types overloads
  let (outcome, scope) ← inScope (.function false none) (do
    let declared ← Build.declareParams ((params.map (·.1)).zip types)
    body (declared.map (·.2))
    return declared.map (·.1))
  match outcome with
  | .error e => throw e
  | .ok vars =>
    let result ← Build.resultType name scope
    Build.addFunction
      { name, params := vars, paramTypes := types, result, body := scope.body,
        rank := overloads.length }

/-- Define the entry point of the stage being built. -/
def main (body : Authoring σ Unit) : Authoring σ Unit := do
  Build.requireGlobal "`main`"
  if (← Build.stage).main.isSome then throw (.declaration .secondMain)
  let block ← collect (.function true none) body
  Build.modifyStage fun s => { s with main := some block }

end Authoring

/-! ## Calls -/

namespace Build

/-- Whether the parameters of a function accept the arguments. -/
def acceptsAll (b : Builder) : List TypeId → List Value → Bool
  | [], [] => true
  | t :: types, v :: vs => b.accepts t v && acceptsAll b types vs
  | _, _ => false

/-- The first function whose parameters accept the arguments. -/
def chooseOverload (args : List Value) : List FunctionId → Build (Option (FunctionId × Function))
  | [] => return none
  | f :: rest => do
    let fn ← function f
    if acceptsAll (← get) fn.paramTypes args then return some (f, fn)
    else chooseOverload args rest

/-- The expressions of arguments that are expected to have the given types. -/
def coerceAll (what : String) : List (Value × TypeId) → Build (List NodeId)
  | [] => return []
  | (v, t) :: rest => do
    let e ← coerce v t what
    return e.node :: (← coerceAll what rest)

/-- Call a function. The call of a function without result is a statement. -/
def call (name : String) (args : List Value) : Build Expr := do
  let overloads := (← stage).decls.overloads name
  if overloads.isEmpty then throw (.internal (.undefinedFunction name))
  match ← chooseOverload args overloads with
  | none => throw (.type (.noOverload name ((← get).describeAll args)))
  | some (f, fn) =>
    let nodes ← coerceAll name (args.zip fn.paramTypes)
    let e ← pushNode fn.result (.call f nodes)
    if (← get).types.isVoid fn.result then emit (.eval e.node)
    return e

/-! ## Returns -/

/-- The innermost function scope: whether it is the entry point, and its result type if known. -/
def enclosingFunction? : List Frame → Option (Bool × Option TypeId)
  | [] => none
  | f :: rest =>
    match f.kind with
    | .function isMain result => some (isMain, result)
    | _ => enclosingFunction? rest

/-- The scopes in which the innermost function has a result type. -/
def fixResult (t : TypeId) : List Frame → List Frame
  | [] => []
  | f :: rest =>
    match f.kind with
    | .function isMain _ => { f with kind := .function isMain (some t) } :: rest
    | _ => f :: fixResult t rest

/-- The innermost function. -/
def enclosingFunction : Build (Bool × Option TypeId) := do
  match enclosingFunction? (← stage).frames with
  | some found => return found
  | none => throw (.declaration .returnOutside)

/-- Give the innermost function a result type. -/
def setResult (t : TypeId) : Build Unit :=
  modifyStage fun s => { s with frames := fixResult t s.frames }

/-- The expression of a returned value, which must have the type of the first one. -/
def returned (v : Value) : Option TypeId → Build Expr
  | none => lower v none
  | some t => do
    try coerce v t "return"
    catch _ =>
      let b ← get
      throw (.declaration (.returnConflict (b.describe v) (b.types.display t)))

/-- Return a value from the function at hand. -/
def returnValue (v : Value) : Build Unit := do
  let (isMain, expected) ← enclosingFunction
  if isMain then throw (.declaration .mainReturnsValue)
  let e ← returned v expected
  let r := (← get).types
  if !(r.kind e.type).isSized then throw (.type (.returnType (r.display e.type)))
  setResult e.type
  emit (.returnWith (some e.node))

/-- Return from a function without result. -/
def returnVoid : Build Unit := do
  let void ← intern Interning.void
  let (_, expected) ← enclosingFunction
  if expected.any (· != void) then throw (.declaration .emptyReturn)
  setResult void
  emit (.returnWith none)

end Build

end WebShader
