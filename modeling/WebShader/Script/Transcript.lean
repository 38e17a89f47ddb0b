import WebShader.Program
import WebShader.Reflection
import WebShader.Script.Step

/-!
# Transcripts

What running a script shows: for each step what it has given, the transcripts of the bodies it has
run, and the remarks made in the meantime.
-/

namespace WebShader

namespace Script

/-- The answer to a query. -/
structure Found where
  binding : Option Nat
  offset : Option Nat

/-- The answer to a query on the layouts of a program. -/
def Query.answer (layouts : List Binding.GroupLayout) (q : Query) : Found :=
  let entry := (layouts.find? (·.group == q.group)).bind (·.find? q.entry)
  ⟨entry.map (·.index), (entry.bind (·.member? q.member)).map (·.offset)⟩

/-- What a step has given. An expression is shown by its number and its type; a program that could
not be built and was only reported is missing. -/
inductive Reply where
  | done
  | expr (e : Expr) (number : Nat) (type : String)
  | nothing
  | failed (e : ShaderError)
  | unbound (name : String)
  | render (program : Option (RenderProgram × List Found))
  | compute (program : Option (ComputeProgram × List Found))
  | lastError (report : Option String)
  | stage (stage : Option Stage)
  | builder (config : Config) (types : Nat)
  | type (display key : String)
  | struct (key : Option String)
  | function (f : FunctionId)
  | tags (paths : List String)
  | info (info : ExprInfo)

/-- The transcript of a step. -/
structure Entry where
  reply : Reply
  blocks : List (List Entry)
  log : List Remark

/-- What a running script knows: the expressions with a name, the latest first; the expressions
shown so far; and the transcripts of the bodies that the step at hand has run. -/
structure Notes where
  names : List (String × Expr) := []
  shown : Array Expr := #[]
  blocks : List (List Entry) := []

namespace Notes

/-- The expression of a name. -/
def find? (n : Notes) (name : String) : Option Expr :=
  (n.names.find? (·.1 == name)).map (·.2)

/-- The notes with a name for an expression, in place of an earlier one. -/
def bind (n : Notes) (name : String) (e : Expr) : Notes :=
  { n with names := (name, e) :: n.names.filter (·.1 != name) }

/-- The number of an expression, which counts the expressions shown before it, and the notes in
which it has been shown. -/
def number (n : Notes) (e : Expr) : Nat × Notes :=
  match n.shown.idxOf? e with
  | some i => (i, n)
  | none => (n.shown.size, { n with shown := n.shown.push e })

theorem find?_bind (n : Notes) (name : String) (e : Expr) :
    (n.bind name e).find? name = some e := by
  simp [find?, bind]

end Notes

end Script

end WebShader
