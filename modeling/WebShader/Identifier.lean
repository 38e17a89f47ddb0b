import WebShader.Error

/-!
# Identifiers

The names a program may give to its variables, functions, structs and members.
-/

namespace WebShader

/-- Whether the character may start a name: an ASCII letter or an underscore. -/
def isNameStart (c : Char) : Bool := c.isAlpha || c == '_'

/-- Whether the character may continue a name. -/
def isNameRest (c : Char) : Bool := c.isAlphanum || c == '_'

/-- Whether the word is an ASCII identifier that starts neither with `gl_` nor with two
underscores, which the target languages keep for themselves. -/
def isIdentifier (name : String) : Bool :=
  match name.toList with
  | [] => false
  | c :: rest =>
    isNameStart c && rest.all isNameRest && !"gl_".toList.isPrefixOf (c :: rest) &&
      !"__".toList.isPrefixOf (c :: rest)

/-- Refuse a name that is not an identifier. -/
def checkIdentifier (name : String) : Except ShaderError Unit :=
  if isIdentifier name then .ok () else .error (.parameter (.identifier name))

theorem checkIdentifier_eq_ok_iff {name : String} :
    checkIdentifier name = .ok () ↔ isIdentifier name = true := by
  unfold checkIdentifier
  split <;> simp_all

end WebShader
