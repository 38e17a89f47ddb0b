import WebShader.Builder

/-!
# Scopes

Names are resolved from the innermost scope out. The global scope is the outermost one: it holds
declarations, and every other scope belongs to a function and holds statements.
-/

namespace WebShader

/-! ## Names -/

/-- What a name stands for, from the innermost scope out. -/
def lookupIn (frames : List Frame) (name : String) : Option Expr :=
  frames.findSome? (·.find? name)

/-- What a name stands for in the stage being built. -/
def Builder.lookup (b : Builder) (name : String) : Option Expr :=
  b.stage.bind fun s => lookupIn s.frames name

theorem lookupIn_cons (f : Frame) (frames : List Frame) (name : String) :
    lookupIn (f :: frames) name = (f.find? name).or (lookupIn frames name) := by
  cases h : f.find? name <;> simp [lookupIn, h]

namespace Build

/-- What a name stands for. -/
def resolve (name : String) : Build Expr := do
  match (← get).lookup name with
  | some e => return e
  | none => throw (.declaration (.undeclared name))

/-! ## The scope at hand -/

/-- Whether the scope at hand is the global one. -/
def inGlobalScope : Build Bool := return (← stage).frames.length == 1

/-- Refuse a declaration that only the global scope takes. -/
def requireGlobal (what : String) : Build Unit := do
  if !(← inGlobalScope) then throw (.declaration (.notGlobal what))

/-- Refuse what only functions hold. -/
def requireFunction (what : String) : Build Unit := do
  if ← inGlobalScope then throw (.declaration (.notInFunction what))

/-- The innermost scope. -/
def frame : Build Frame := do
  match (← stage).frames with
  | f :: _ => return f
  | [] => throw (.internal .emptyScopes)

/-- Replace the innermost scope. -/
def setFrame (f : Frame) : Build Unit :=
  modifyStage fun s => { s with frames := f :: s.frames.drop 1 }

/-- Bind a name in the innermost scope. -/
def declareSymbol (name : String) (e : Expr) : Build Unit := do
  let f ← frame
  if (f.find? name).isSome then throw (.declaration (.alreadyDeclared name))
  setFrame { f with symbols := (name, e) :: f.symbols }

/-- Record a variable, with its initial value if it is a constant, and bind its name in the
innermost scope. -/
def newVar (name : String) (type : TypeId) (role : Role) (init : Option NodeId := none) :
    Build (VarId × Expr) := do
  checkIdentifier name
  let s ← stage
  let v ← pushVar { name, type, role, stage := s.decls.stage, init }
  let e ← pushNode type (.var v)
  declareSymbol name e
  return (v, e)

/-- Append a statement to the innermost scope. -/
def emit (s : Stmt NodeId) : Build Unit := do
  requireFunction "statements"
  let f ← frame
  setFrame { f with body := f.body ++ [s] }

/-- Open a scope. -/
def pushScope (kind : ScopeKind) : Build Unit :=
  modifyStage fun s => { s with frames := { kind } :: s.frames }

/-- Leave the innermost scope; the global one cannot be left. -/
def popScope : Build Frame := do
  match (← stage).frames with
  | f :: g :: rest =>
    modifyStage fun s => { s with frames := g :: rest }
    return f
  | _ => throw (.internal .globalScope)

end Build

/-! ## Nested scopes -/

namespace Authoring

/-- Run a body and give its outcome, failed or not. -/
def attempt {σ α : Type} (body : Authoring σ α) : Authoring σ (Except ShaderError α) :=
  ExceptT.lift (ExceptT.run body)

/-- Run a body in a new scope, which is left whether the body fails or not: the outcome of the body
and the scope. -/
def inScope {σ α : Type} (kind : ScopeKind) (body : Authoring σ α) :
    Authoring σ (Except ShaderError α × Frame) := do
  Build.pushScope kind
  let result ← attempt body
  let frame ← Build.popScope
  return (result, frame)

/-- Run a body in a new scope and give the statements it has emitted. -/
def collect {σ : Type} (kind : ScopeKind) (body : Authoring σ Unit) : Authoring σ Block := do
  let (result, frame) ← inScope kind body
  match result with
  | .ok () => return frame.body
  | .error e => throw e

end Authoring

end WebShader
