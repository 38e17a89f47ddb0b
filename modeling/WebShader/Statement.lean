import WebShader.Place

/-!
# Statements and control flow
-/

namespace WebShader

/-! ## Variables -/

namespace Build

/-- Refuse a variable whose type cannot be held. -/
def requireSized (what name : String) (t : TypeId) : Build Unit := do
  let r := (← get).types
  if !(r.kind t).isSized then throw (.type (.declared what name (r.display t)))

/-- Declare a local variable with an initial value, whose type it takes. -/
def declareLocal (name : String) (init : Value) : Build Expr := do
  requireFunction "local variables"
  let init ← lower init none
  requireSized "variable" name init.type
  let (v, e) ← newVar name init.type .localVar
  emit (.declare v (some init.node))
  return e

/-- Declare a local variable without an initial value. -/
def declareVar (name : String) (shape : TypeShape) : Build Expr := do
  requireFunction "local variables"
  let t ← type shape
  requireSized "variable" name t
  let (v, e) ← newVar name t .localVar
  emit (.declare v none)
  return e

/-! ## Assignments -/

/-- Assign a value to a place of its type. -/
def assign (target : Expr) (value : Value) : Build Unit := do
  (← get).checkPlace target.node
  let e ← coerce value target.type "assignment"
  emit (.assign target.node none e.node)

/-- Combine a place with a value, which must not change its type. -/
def assignOp (target : Expr) (op : BinaryOp) (value : Value) : Build Unit := do
  if op.isComparison || op.isLogical then throw (.parameter (.compoundOperator op))
  let b ← get
  b.checkPlace target.node
  let e ← lowerNear value (b.scalarOf? target.type)
  let t ← binaryType op target e
  let r := (← get).types
  if t ≠ target.type then
    throw (.type (.compound op (r.display target.type) (r.display t)))
  emit (.assign target.node (some op) e.node)

/-- Assign a value to what a name stands for, or declare a local variable of that name. -/
def assignNamed (name : String) (value : Value) : Build Expr := do
  match (← get).lookup name with
  | some target =>
    assign target value
    return target
  | none => declareLocal name value

/-- Evaluate an expression for its effects. -/
def eval (e : Expr) : Build Unit := emit (.eval e.node)

/-! ## Conditions and jumps -/

/-- The expression of a condition. -/
def condition (v : Value) : Build NodeId := do
  let e ← lower v (some .bool)
  let r := (← get).types
  if r.primitive? e.type ≠ some (.ofScalar .bool) then
    throw (.type (.condition (r.display e.type)))
  return e.node

/-- Whether a loop of the function at hand is open, given the scopes from the innermost out. -/
def loopIsOpen : List Frame → Bool
  | [] => false
  | f :: rest =>
    match f.kind with
    | .loop => true
    | .function _ _ => false
    | _ => loopIsOpen rest

/-- Refuse a jump outside of a loop. -/
def requireLoop (statement : String) : Build Unit := do
  if !loopIsOpen (← stage).frames then throw (.declaration (.outsideLoop statement))

/-- Leave the loop at hand. -/
def breakLoop : Build Unit := do
  requireLoop "break"
  emit .breakLoop

/-- Go on with the next round of the loop at hand. -/
def continueLoop : Build Unit := do
  requireLoop "continue"
  emit .continueLoop

/-- Discard the fragment at hand. -/
def discard : Build Unit := do
  if (← stage).decls.stage ≠ .fragment then throw (.declaration .discardStage)
  emit .discard

/-- Change the last statement of the innermost scope. -/
def extendLast (failure : InternalFault) (f : Stmt NodeId → Option (Stmt NodeId)) :
    Build Unit := do
  let scope ← frame
  match replaceLast? f scope.body with
  | some body => setFrame { scope with body }
  | none => throw (.internal failure)

/-- Refuse loop bounds that are not integers of one type. -/
def requireBounds (first last : Expr) : Build Unit := do
  let r := (← get).types
  let ok := match r.primitive? first.type, r.primitive? last.type with
    | some p, some q => p == q && p.isScalar && p.scalar.isInteger
    | _, _ => false
  if !ok then throw (.type (.loopBounds (r.display first.type) (r.display last.type)))

end Build

/-! ## Control flow -/

namespace Authoring

variable {σ : Type}

/-- A conditional statement. -/
def ifThen (cond : Value) (body : Authoring σ Unit) : Authoring σ Unit := do
  Build.requireFunction "`if`"
  let cond ← Build.condition cond
  let block ← collect .branch body
  Build.emit (.conditional [(cond, block)] none)

/-- One more branch of the conditional that ends the innermost scope. -/
def elseIf (cond : Value) (body : Authoring σ Unit) : Authoring σ Unit := do
  let cond ← Build.condition cond
  let block ← collect .branch body
  Build.extendLast .detachedElseIf (Stmt.addBranch? cond block)

/-- The last branch of the conditional that ends the innermost scope. -/
def otherwise (body : Authoring σ Unit) : Authoring σ Unit := do
  let block ← collect .branch body
  Build.extendLast .detachedElse (Stmt.addElse? block)

/-- A loop whose counter goes from the first bound up to the last, which it does not reach. -/
def forRange (counter : String) (first last : Value) (body : Expr → Authoring σ Unit) :
    Authoring σ Unit := do
  Build.requireFunction "`for`"
  let (first, last) ← Build.lowerPair first last
  Build.requireBounds first last
  let (result, frame) ← inScope .loop (do
    let (v, e) ← Build.newVar counter first.type .localVar
    body e
    return v)
  match result with
  | .ok v => Build.emit (.forRange v first.node last.node frame.body)
  | .error e => throw e

/-- A loop that runs while a condition holds. -/
def whileDo (cond : Value) (body : Authoring σ Unit) : Authoring σ Unit := do
  Build.requireFunction "`while`"
  let cond ← Build.condition cond
  let block ← collect .loop body
  Build.emit (.whileDo cond block)

/-- A loop that runs once and goes on while a condition holds. The condition is built after the
body and outside of its scope. -/
def doWhile (body : Authoring σ Unit) (cond : Authoring σ Value) : Authoring σ Unit := do
  Build.requireFunction "`do while`"
  let block ← collect .loop body
  let cond ← Build.condition (← cond)
  Build.emit (.doWhile block cond)

/-- A block with a scope of its own. -/
def scope (body : Authoring σ Unit) : Authoring σ Unit := do
  Build.requireFunction "blocks"
  let block ← collect .block body
  Build.emit (.block block)

end Authoring

end WebShader
