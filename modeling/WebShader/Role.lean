import WebShader.Semantic

/-!
# Roles of variables
-/

namespace WebShader

/-- What a variable was declared as. -/
inductive Role where
  | localVar
  | param
  | constant
  | uniform (group : UInt32)
  | texture (group : UInt32)
  | sampler (group : UInt32)
  | storage (group : UInt32) (readOnly : Bool)
  | workgroup
  | input (location : Nat) (semantic : Option Semantic)
  | output (location : Nat)
  deriving DecidableEq

namespace Role

/-- The bind group of a resource. -/
def group? : Role → Option UInt32
  | uniform g | texture g | sampler g | storage g _ => some g
  | _ => none

/-- Whether the variable is a member of a uniform block. -/
def isUniform : Role → Bool
  | uniform _ => true
  | _ => false

/-- Whether the variable is a texture. -/
def isTexture : Role → Bool
  | texture _ => true
  | _ => false

/-- The location of an input. -/
def inputLocation? : Role → Option Nat
  | input location _ => some location
  | _ => none

/-- The location of an output. -/
def outputLocation? : Role → Option Nat
  | output location => some location
  | _ => none

/-- The meaning of an attribute. -/
def semantic? : Role → Option Semantic
  | input _ semantic => semantic
  | _ => none

/-- Whether statements may assign to the variable. -/
def isWritable : Role → Bool
  | localVar | workgroup | output _ | storage _ false => true
  | _ => false

/-- The role as messages quote it. -/
def text : Role → String
  | localVar => "Local"
  | param => "Param"
  | constant => "Constant"
  | uniform g => "Uniform \x7b group: " ++ toString g.toNat ++ " \x7d"
  | texture g => "Texture \x7b group: " ++ toString g.toNat ++ " \x7d"
  | sampler g => "Sampler \x7b group: " ++ toString g.toNat ++ " \x7d"
  | storage g readOnly =>
    "Storage \x7b group: " ++ toString g.toNat ++ ", read_only: " ++ toString readOnly ++ " \x7d"
  | workgroup => "Workgroup"
  | input l s =>
    let meaning := match s with
      | some s => "Some(" ++ s.name ++ ")"
      | none => "None"
    "Input \x7b location: " ++ toString l ++ ", semantic: " ++ meaning ++ " \x7d"
  | output l => "Output \x7b location: " ++ toString l ++ " \x7d"

end Role

end WebShader
