import WebShader.Node
import WebShader.Type.Shape

/-!
# Scripts

A script is a list of authoring steps. Steps name the expressions they make, later steps refer to
them by name, and the bodies of stages, functions and blocks are scripts themselves.
-/

namespace WebShader

namespace Script

/-! ## Operations -/

/-- An operand: a value of the host program, or an expression by its name. -/
inductive Operand where
  | host (value : HostValue)
  | named (name : String)

/-- A step without a body. -/
inductive Operation where
  | reset
  | lastError
  | currentStage
  | builder
  | type (shape : TypeShape)
  | structNamed (name : String)
  | vertexInput (name : String) (shape : TypeShape) (semantic : Semantic)
  | output (name : String) (shape : TypeShape)
  | uniform (name : String) (shape : TypeShape) (group : UInt32)
  | uniformTexture (name : String) (texture : TextureType) (group : UInt32)
  | uniformSampler (name : String) (kind : SamplerKind) (group : UInt32)
  | storage (name : String) (shape : TypeShape) (group : UInt32) (readOnly : Bool)
  | workgroup (name : String) (shape : TypeShape)
  | constant (name : String) (value : Operand)
  | declareLocal (name : String) (value : Operand)
  | declareVar (name : String) (shape : TypeShape)
  | assignNamed (name : String) (value : Operand)
  | resolve (name : String)
  | lookup (name : String)
  | workgroupSize (x y z : UInt32)
  | builtin (b : Builtin)
  | assign (target : String) (value : Operand)
  | assignOp (target : String) (op : BinaryOp) (value : Operand)
  | assignBuiltin (b : Builtin) (value : Operand)
  | eval (e : String)
  | literal (value : Operand)
  | binary (op : BinaryOp) (lhs rhs : Operand)
  | unary (op : UnaryOp) (operand : Operand)
  | cast (value : Operand) (scalar : ScalarKind)
  | member (base : String) (name : String)
  | swizzle (base : String) (mask : String)
  | element (base : String) (index : Operand)
  | addressOf (place : String)
  | deref (pointer : String)
  | construct (shape : TypeShape) (args : List Operand)
  | intrinsic (f : Intrinsic) (args : List Operand)
  | call (function : String) (args : List Operand)
  | returnValue (value : Operand)
  | returnVoid
  | breakLoop
  | continueLoop
  | discard
  | tag (e : String) (path : String)
  | tagged (path : String)
  | tagsOf (e : String)
  | info (e : String)

/-- The name an operation gives to the expression it makes, unless the step gives another. -/
def Operation.ownName? : Operation → Option String
  | vertexInput name _ _ | output name _ | uniform name _ _ | uniformTexture name _ _
  | uniformSampler name _ _ | storage name _ _ _ | workgroup name _ | constant name _
  | declareLocal name _ | declareVar name _ | assignNamed name _ | resolve name | lookup name =>
    some name
  | _ => none

/-! ## Steps -/

/-- A question about the layouts of a program: the binding of an entry of a group, and the offset
of a member of its buffer. -/
structure Query where
  group : Nat
  entry : String
  member : String

/-- What a step does: a single operation, or one that runs bodies. A program may be built so that a
failure is reported instead of failing the step. -/
inductive Action where
  | operation (op : Operation) (name : Option String)
  | render (isReported : Bool) (label : String) (vertex fragment : List (Bool × Action))
      (queries : List Query)
  | compute (isReported : Bool) (label : String) (body : List (Bool × Action))
      (queries : List Query)
  | func (name : String) (params : List (String × TypeShape)) (body : List (Bool × Action))
  | main (body : List (Bool × Action))
  | scope (body : List (Bool × Action))
  | conditional (cond : Operand) (body : List (Bool × Action))
      (branches : List (Operand × List (Bool × Action)))
      (otherwise : Option (List (Bool × Action)))
  | forRange (counter : String) (first last : Operand) (body : List (Bool × Action))
  | whileDo (cond : Operand) (body : List (Bool × Action))
  | doWhile (body before : List (Bool × Action)) (cond : Operand)

/-- A step: whether the script goes on if it fails, and what it does. -/
abbrev Step := Bool × Action

end Script

/-- A list of steps. -/
abbrev Script := List Script.Step

end WebShader
