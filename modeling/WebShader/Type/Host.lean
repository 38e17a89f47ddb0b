import WebShader.Type.Shape

/-!
# Host types

The shader types of the types that host programs fill buffers with. Scalars are written `f32`,
vectors `V3<f32>`, matrices by columns then rows as in `M34`, and arrays `[f32; 8]`, blanks being
ignored; three sample structs are known by name.
-/

namespace WebShader

namespace HostType

/-! ## Primitive types -/

/-- The component types host vectors may have. -/
def scalars : List ScalarKind := [.i32, .u32, .f32, .bool]

/-- The vectors and their spellings. -/
def vectors : List (String × TypeShape) :=
  [(2 : UInt8), 3, 4].flatMap fun n => scalars.map fun k =>
    ("V" ++ toString n.toNat ++ "<" ++ k.name ++ ">", .vector k n)

/-- The matrices and their spellings. -/
def matrices : List (String × TypeShape) :=
  [(2 : UInt8), 3, 4].flatMap fun c => [(2 : UInt8), 3, 4].map fun r =>
    ("M" ++ toString c.toNat ++ toString r.toNat, .matrix c r)

/-! ## Structs -/

/-- The point of view of a scene. -/
def camera : TypeShape :=
  .struct (some "Camera") .std140
    [("view_proj", .matrix 4 4), ("eye", .vector .f32 3), ("near", .scalar .f32)]

/-- A point light. -/
def light : TypeShape :=
  .struct (some "PointLight") .packed
    [("position", .vector .f32 4), ("color", .vector .f32 3), ("radius", .scalar .f32)]

/-- A scene of four lights. -/
def scene : TypeShape :=
  .struct (some "Scene") .packed
    [("lights", .array light 4), ("count", .scalar .u32), ("camera", camera)]

/-- The types that are not arrays, and their spellings. -/
def named : List (String × TypeShape) :=
  scalars.map (fun k => (k.name, TypeShape.scalar k)) ++ vectors ++ matrices ++
    [("Camera", camera), ("Light", light), ("Scene", scene)]

/-! ## Reading -/

/-- The length an array closes with, as in `8]`. -/
def closingLength? (s : String) : Option Nat :=
  match s.toList.reverse with
  | ']' :: digits =>
    if !digits.isEmpty && digits.all Char.isDigit then
      some (digits.foldr (fun c n => 10 * n + (c.toNat - '0'.toNat)) 0)
    else none
  | _ => none

/-- Read a host type: brackets, a type that is not an array, then one length for each bracket, the
innermost first. Lengths are counted in 32 bits. -/
def read? (s : String) : Option TypeShape := do
  let text := s.toList.filter fun c => !c.isWhitespace
  let opened := text.takeWhile (· == '[')
  let parts := (String.ofList (text.drop opened.length)).splitOn ";"
  match parts with
  | [] => none
  | base :: lengths =>
    let lengths ← lengths.mapM closingLength?
    if lengths.length ≠ opened.length then none else
      let base ← (named.find? (·.1 == base)).map (·.2)
      some (lengths.foldl (fun type n => .array type (n % 4294967296)) base)

end HostType

end WebShader
