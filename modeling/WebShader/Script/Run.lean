import WebShader.Constructor
import WebShader.Intrinsic.Call
import WebShader.Resource
import WebShader.Script.Transcript

/-!
# Running scripts

A script stops at the first step that fails, unless the step or the whole run is tolerant. A step
that refers to a name no expression has is skipped and the script goes on. Names and numbers are
forgotten when the builder is reset.
-/

namespace WebShader

namespace Script

/-- A run of steps. -/
abbrev Run (α : Type) := Authoring Notes α

/-! ## Operands -/

/-- The expression of a name, or the name if there is none. -/
def exprOf (n : Notes) (name : String) : Except String Expr :=
  match n.find? name with
  | some e => .ok e
  | none => .error name

/-- The value of an operand, or the name that no expression has. -/
def Operand.value (n : Notes) : Operand → Except String Value
  | host v => .ok (.host v)
  | named name => (exprOf n name).map .expr

/-! ## Notes -/

/-- The notes of the run. -/
def notes : Run Notes := fun s => (.ok s.2, s)

/-- Change the notes of the run. -/
def modifyNotes (f : Notes → Notes) : Run Unit := fun (b, n) => (.ok (), (b, f n))

/-- Take the remarks made so far. -/
def takeRemarks : Build (List Remark) := do
  let b ← get
  set { b with remarks := [] }
  return b.remarks

/-- Show an expression. -/
def showExpr (e : Expr) : Run Reply := do
  let (number, n) := (← notes).number e
  modifyNotes fun _ => n
  return .expr e number ((← Build.current).types.display e.type)

/-- Show the expression that an operation makes. -/
def showResult (act : Build Expr) : Run Reply := do showExpr (← act)

/-- Show an expression that may be missing. -/
def showOption (find : Builder → Option Expr) : Run Reply := do
  match find (← Build.current) with
  | some e => showExpr e
  | none => return .nothing

/-- Run an operation that gives nothing. -/
def quietly (act : Build Unit) : Run Reply := do
  act
  return .done

/-- Answer from the state of the builder. -/
def answer (f : Builder → Reply) : Run Reply := return f (← Build.current)

/-- Forget the program being built, and what the script knows of it. -/
def reset : Run Reply := do
  modifyNotes fun n => { n with names := [], shown := #[] }
  quietly (modify Builder.reset)

/-! ## Operations -/

namespace Operation

/-- Register a type and show it. -/
def showType (shape : TypeShape) : Run Reply := do
  let t ← Build.type shape
  answer fun b => .type (b.types.display t) (b.types.key t)

/-- What an operation does, with its operands looked up in order, or the first name among them that
no expression has. -/
def action (n : Notes) : Operation → Except String (Run Reply)
  | reset => return Script.reset
  | lastError => return answer fun b => .lastError b.lastError
  | currentStage => return answer fun b => .stage b.currentStage
  | builder => return answer fun b => .builder b.config b.types.size
  | type shape => return showType shape
  | structNamed name => return answer fun b => .struct ((b.types.structNamed? name).map b.types.key)
  | vertexInput name shape semantic => return showResult (Build.vertexInput name shape semantic)
  | output name shape => return showResult (Build.output name shape)
  | uniform name shape group => return showResult (Build.uniform name shape group)
  | uniformTexture name texture group => return showResult (Build.uniformTexture name texture group)
  | uniformSampler name kind group => return showResult (Build.uniformSampler name kind group)
  | storage name shape group readOnly => return showResult (Build.storage name shape group readOnly)
  | workgroup name shape => return showResult (Build.workgroup name shape)
  | constant name v => return showResult (Build.constant name (← v.value n))
  | declareLocal name v => return showResult (Build.declareLocal name (← v.value n))
  | declareVar name shape => return showResult (Build.declareVar name shape)
  | assignNamed name v => return showResult (Build.assignNamed name (← v.value n))
  | resolve name => return showResult (Build.resolve name)
  | lookup name => return showOption (·.lookup name)
  | workgroupSize x y z => return quietly (Build.setWorkgroupSize x y z)
  | builtin b => return showResult (Build.builtin b)
  | assign target v => return quietly (Build.assign (← exprOf n target) (← v.value n))
  | assignOp target op v => return quietly (Build.assignOp (← exprOf n target) op (← v.value n))
  | assignBuiltin b v => return quietly (Build.assignBuiltin b (← v.value n))
  | eval e => return quietly (Build.eval (← exprOf n e))
  | literal v => return showResult (Build.lower (← v.value n) none)
  | binary op lhs rhs => return showResult (Build.binary op (← lhs.value n) (← rhs.value n))
  | unary op v => return showResult (Build.unary op (← v.value n))
  | cast v k => return showResult (Build.cast (← v.value n) k)
  | member base name => return showResult (Build.member (← exprOf n base) name)
  | swizzle base mask => return showResult (Build.swizzle (← exprOf n base) mask)
  | element base i => return showResult (Build.at (← exprOf n base) (← i.value n))
  | addressOf e => return showResult (Build.addressOf (← exprOf n e))
  | deref e => return showResult (Build.deref (← exprOf n e))
  | construct shape args => return showResult (Build.construct shape (← args.mapM (·.value n)))
  | intrinsic f args => return showResult (Build.intrinsic f (← args.mapM (·.value n)))
  | call f args => return showResult (Build.call f (← args.mapM (·.value n)))
  | returnValue v => return quietly (Build.returnValue (← v.value n))
  | returnVoid => return quietly Build.returnVoid
  | breakLoop => return quietly Build.breakLoop
  | continueLoop => return quietly Build.continueLoop
  | discard => return quietly Build.discard
  | tag e path => return quietly (Build.tag (← exprOf n e) path)
  | tagged path => return showOption (·.tagged path)
  | tagsOf e => do
    let e ← exprOf n e
    return answer fun b => .tags (b.tagsOf e)
  | info e => do
    let e ← exprOf n e
    return answer fun b => .info (b.info e)

end Operation

/-- Run an operation and name the expression it makes. -/
def named (name : Option String) (act : Run Reply) : Run Reply := do
  let reply ← act
  match reply, name with
  | .expr e _ _, some name => modifyNotes fun n => n.bind name e
  | _, _ => pure ()
  return reply

/-! ## Bodies -/

/-- The transcript of a list of steps, and the failure that has stopped it. -/
abbrev Outcome := List Entry × Option ShaderError

/-- Run a list of steps as the body of a step: its transcript joins those of the step. -/
def body (steps : Run Outcome) : Run Unit := do
  let before := (← notes).blocks
  let (entries, failure) ← steps
  modifyNotes fun n => { n with blocks := before ++ [entries] }
  match failure with
  | some e => throw e
  | none => return

/-- Name the parameters of a function and run its body. -/
def functionBody (names : List String) (steps : Run Outcome) (params : List Expr) : Run Unit := do
  modifyNotes fun n => (names.zip params).foldl (fun n p => n.bind p.1 p.2) n
  body steps

/-- Name the counter of a loop and run its body. -/
def loopBody (counter : String) (steps : Run Outcome) (e : Expr) : Run Unit := do
  modifyNotes (·.bind counter e)
  body steps

/-- Run the steps that come before a condition, which is false if it names no expression. -/
def condition (steps : Run Outcome) (cond : Operand) : Run Value := do
  body steps
  match cond.value (← notes) with
  | .ok v => return v
  | .error _ => return .host (.bool false)

/-- Run a conditional and its branches. -/
def conditional (cond : Value) (steps : Run Outcome) (branches : List (Value × Run Outcome))
    (otherwise : Option (Run Outcome)) : Run Unit := do
  Authoring.ifThen cond (body steps)
  branches.forM fun (cond, steps) => Authoring.elseIf cond (body steps)
  match otherwise with
  | some steps => Authoring.otherwise (body steps)
  | none => return

/-- The values of the conditions of branches. -/
def branchValues (n : Notes) :
    List (Operand × Run Outcome) → Except String (List (Value × Run Outcome))
  | [] => .ok []
  | (cond, steps) :: rest => do
    let cond ← cond.value n
    return (cond, steps) :: (← branchValues n rest)

/-- Build a program, failing if it fails or only keeping a report. -/
def program {α : Type} (isReported : Bool) (label : String) (build : Run α) : Run (Option α) :=
  if isReported then Authoring.reported label build else build.map some

/-- Run an action that gives nothing. -/
def silently (act : Run Unit) : Run Reply := do
  act
  return .done

/-! ## Steps -/

/-- Run a step: its transcript, and its failure unless the script goes on all the same. -/
def record (goesOn : Bool) (act : Except String (Run Reply)) :
    Run (Entry × Option ShaderError) := do
  modifyNotes fun n => { n with blocks := [] }
  let (reply, failure) ← match act with
    | .error name => pure (Reply.unbound name, none)
    | .ok act => do
      match ← Authoring.attempt act with
      | .ok reply => pure (reply, none)
      | .error e => pure (Reply.failed e, if goesOn then none else some e)
  let blocks := (← notes).blocks
  return (⟨reply, blocks, ← takeRemarks⟩, failure)

mutual

/-- What an action does, with its operands looked up, or the first name among them that no
expression has. -/
def Action.run (tolerant : Bool) (n : Notes) : Action → Except String (Run Reply)
  | .operation op name => (op.action n).map (named (name.or op.ownName?))
  | .render isReported label vertex fragment queries => .ok do
    let built ← program isReported label
      (Authoring.render label (body (runAll tolerant vertex)) (body (runAll tolerant fragment)))
    return .render (built.map fun p => (p, queries.map (·.answer p.layouts)))
  | .compute isReported label steps queries => .ok do
    let built ← program isReported label (Authoring.compute label (body (runAll tolerant steps)))
    return .compute (built.map fun p => (p, queries.map (·.answer p.layouts)))
  | .func name params steps => .ok do
    let f ← Authoring.func name params
      (functionBody (params.map (·.1)) (runAll tolerant steps))
    return .function f
  | .main steps => .ok (silently (Authoring.main (body (runAll tolerant steps))))
  | .scope steps => .ok (silently (Authoring.scope (body (runAll tolerant steps))))
  | .conditional cond steps branches otherwise => do
    let cond ← cond.value n
    let branches ← branchValues n (runBranches tolerant branches)
    return silently
      (conditional cond (runAll tolerant steps) branches (runOptional tolerant otherwise))
  | .forRange counter first last steps => do
    let first ← first.value n
    let last ← last.value n
    return silently
      (Authoring.forRange counter first last (loopBody counter (runAll tolerant steps)))
  | .whileDo cond steps => do
    let cond ← cond.value n
    return silently (Authoring.whileDo cond (body (runAll tolerant steps)))
  | .doWhile steps before cond => .ok
    (silently (Authoring.doWhile (body (runAll tolerant steps))
      (condition (runAll tolerant before) cond)))
termination_by structural a => a

/-- Run steps in order, up to one whose failure stops them. -/
def runAll (tolerant : Bool) : List (Bool × Action) → Run Outcome
  | [] => return ([], none)
  | (goesOn, a) :: rest => do
    let (entry, failure) ← record (tolerant || goesOn) (a.run tolerant (← notes))
    match failure with
    | some e => return ([entry], some e)
    | none =>
      let (entries, failure) ← runAll tolerant rest
      return (entry :: entries, failure)
termination_by structural steps => steps

/-- The branches of a conditional with their bodies as runs. -/
def runBranches (tolerant : Bool) :
    List (Operand × List (Bool × Action)) → List (Operand × Run Outcome)
  | [] => []
  | (cond, steps) :: rest => (cond, runAll tolerant steps) :: runBranches tolerant rest
termination_by structural branches => branches

/-- The body of a last branch as a run. -/
def runOptional (tolerant : Bool) : Option (List (Bool × Action)) → Option (Run Outcome)
  | none => none
  | some steps => some (runAll tolerant steps)
termination_by structural otherwise => otherwise

end

end Script

/-! ## Sessions -/

/-- The transcript of a script run on a new builder. A tolerant run goes on after each failure. -/
def Script.transcript (config : Config) (tolerant : Bool) (steps : Script) : List Script.Entry :=
  match Script.runAll tolerant steps (Builder.new config, {}) with
  | (.ok (entries, _), _) => entries
  | (.error _, _) => []

namespace Script

mutual

/-- Whether a step, or one in a body that it has run, has overflowed. -/
def Entry.overflows : Entry → Bool
  | ⟨.failed .overflow, _, _⟩ => true
  | ⟨_, blocks, _⟩ => bodiesOverflow blocks

/-- Whether a step of a transcript has overflowed. -/
def overflow : List Entry → Bool
  | [] => false
  | entry :: rest => entry.overflows || overflow rest

/-- Whether a step of some transcripts has overflowed. -/
def bodiesOverflow : List (List Entry) → Bool
  | [] => false
  | entries :: rest => overflow entries || bodiesOverflow rest

end

/-- What a script run on a new builder tells: its transcript, unless a step has overflowed. Nothing
is told then, not even of the steps before. -/
def answer? (config : Config) (tolerant : Bool) (steps : Script) : Option (List Entry) :=
  let entries := transcript config tolerant steps
  if overflow entries then none else some entries

end Script

end WebShader
