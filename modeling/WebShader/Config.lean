import WebShader.Target

/-!
# Configurations

The options of a builder, and the documents they are read from.
-/

namespace WebShader

/-! ## Options -/

/-- The options of a builder: the target language and the spaces of an indentation level. -/
structure Config where
  target : Target := .webGPU
  indentWidth : Nat := 2
  deriving DecidableEq

namespace Config

/-- The options for a target, all else at its default. -/
def ofTarget (t : Target) : Config := { target := t }

end Config

/-! ## Documents -/

/-- A structured document. A number without fraction, exponent or negative zero is an integer. -/
inductive Document where
  | null
  | boolean (value : Bool)
  | integer (value : Int)
  | real
  | text (value : String)
  | list (items : List Document)
  | record (fields : List (String × Document))
  deriving Inhabited

namespace Document

/-- The value of the last field with a name. -/
def field? (fields : List (String × Document)) (name : String) : Option Document :=
  (fields.reverse.find? (·.1 == name)).map (·.2)

/-- A target is its name, or a record whose only field is its name, holding nothing. -/
def target? : Document → Option Target
  | text s => Target.ofKey? s
  | record [(s, null)] => Target.ofKey? s
  | _ => none

/-- A width is an integer of 64 bits without sign. -/
def width? : Document → Option Nat
  | integer (.ofNat n) => if n < 18446744073709551616 then some n else none
  | _ => none

end Document

namespace Config

/-- Read an option that may be missing. -/
def option? {α : Type} (read : Document → Option α) (default : α) : Option Document → Option α
  | none => some default
  | some d => read d

/-- Read the options from a record, unknown fields being ignored, or from a list of the target and
the width. What is missing takes its default. -/
def read? : Document → Option Config
  | .record fields => do
    let target ← option? Document.target? .webGPU (Document.field? fields "target")
    let indentWidth ← option? Document.width? 2 (Document.field? fields "indent_width")
    some { target, indentWidth }
  | .list items => do
    if items.length > 2 then none else
      let target ← option? Document.target? .webGPU items[0]?
      let indentWidth ← option? Document.width? 2 items[1]?
      some { target, indentWidth }
  | _ => none

end Config

end WebShader
