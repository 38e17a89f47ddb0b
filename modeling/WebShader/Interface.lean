import WebShader.Statement

/-!
# Interfaces of stages

Vertex attributes, the outputs of a stage and built-in variables. The location of an attribute is
the one of its meaning; outputs are numbered in declaration order.
-/

namespace WebShader

namespace Build

/-! ## Attributes -/

/-- The type of a variable that enters or leaves a stage: numbers, matrices left out. -/
def interfaceType (what name : String) (shape : TypeShape) : Build (TypeId × PrimitiveType) := do
  let t ← type shape
  let r := (← get).types
  let failure := ShaderError.type (.declared what name (r.display t))
  match r.primitive? t with
  | some p => if p.isMatrix || p.scalar = .bool then throw failure else return (t, p)
  | none => throw failure

/-- Whether an input of the stage being built has a location. -/
def isTaken (b : Builder) (s : OpenStage) (location : Nat) : Bool :=
  s.decls.inputs.any fun v => (b.var? v).bind (·.role.inputLocation?) == some location

/-- Declare a vertex attribute. -/
def vertexInput (name : String) (shape : TypeShape) (semantic : Semantic) : Build Expr := do
  if (← stage).decls.stage ≠ .vertex then throw (.declaration (.attributeStage name))
  requireGlobal "vertex attributes"
  let (t, p) ← interfaceType "vertex attribute" name shape
  if p.scalar.isInteger then require .integerAttributes
  if isTaken (← get) (← stage) semantic.location then
    throw (.declaration (.semanticTaken semantic))
  let (v, e) ← newVar name t (.input semantic.location (some semantic))
  modifyDecls fun d => { d with inputs := d.inputs ++ [v] }
  return e

/-! ## Outputs -/

/-- Refuse an output that a WebGL fragment cannot have, and enable what several outputs need. -/
def checkColor (name : String) (p : PrimitiveType) (location : Nat) : Build Unit := do
  if p ≠ .vector .f32 4 then throw (.type (.webGLOutput name p))
  if location = 1 then enable .drawBuffers

/-- Declare an output of the stage being built. -/
def output (name : String) (shape : TypeShape) : Build Expr := do
  let current := (← stage).decls.stage
  if current = .compute then throw (.declaration .computeOutput)
  requireGlobal "outputs"
  let (t, p) ← interfaceType "output" name shape
  if p.scalar.isInteger then require .integerVaryings
  let location := (← stage).decls.outputs.length
  if current = .fragment && (← get).target = .webGL then checkColor name p location
  let (v, e) ← newVar name t (.output location)
  modifyDecls fun d => { d with outputs := d.outputs ++ [v] }
  return e

/-- Declare the outputs of a finished stage as inputs of the one being built, under their names. -/
def inputsFrom : List VarId → Build Unit
  | [] => return
  | out :: rest => do
    match (← get).var? out with
    | some ⟨name, t, .output location, _, _⟩ =>
      let (v, _) ← newVar name t (.input location none)
      modifyDecls fun d => { d with inputs := d.inputs ++ [v] }
      inputsFrom rest
    | _ => throw (.internal .outputRole)

/-! ## Built-in variables -/

/-- The expression a built-in was given at its first use. -/
def usedBuiltin? (d : StageDecls) (b : Builtin) : Option Expr :=
  (d.builtins.find? (·.1 == b)).map (·.2)

/-- Access a built-in variable of the stage being built. -/
def builtin (b : Builtin) : Build Expr := do
  let d := (← stage).decls
  if b.stage ≠ d.stage then throw (.declaration (.builtinStage b d.stage))
  match usedBuiltin? d b with
  | some e => return e
  | none =>
    if let some feature := b.feature? then require feature
    let target := (← get).target
    let t ← intern (Interning.primitive (b.type target))
    let e ← pushNode t (.builtin b)
    if b = .fragDepth && target = .webGL then enable .fragDepth
    modifyDecls fun d => { d with builtins := d.builtins ++ [(b, e)] }
    return e

/-- Assign a value to a built-in variable. -/
def assignBuiltin (b : Builtin) (value : Value) : Build Unit := do
  assign (← builtin b) value

end Build

end WebShader
