import WebShader.Error

/-!
# Swizzle masks

A mask selects one to four components of a vector by letters, all taken from `xyzw` or all from
`rgba`. It remembers which letters it was written with, so that it reads back as it was written.
-/

namespace WebShader

/-! ## Letters -/

/-- A component of a vector. -/
inductive Component where
  | x
  | y
  | z
  | w
  deriving DecidableEq

namespace Component

/-- The position of the component in its vector. -/
def index : Component → UInt8
  | x => 0
  | y => 1
  | z => 2
  | w => 3

/-- The name of the component in reports. -/
def name : Component → String
  | x => "X"
  | y => "Y"
  | z => "Z"
  | w => "W"

end Component

/-- The letters a mask is written with. -/
inductive LetterSet where
  | position
  | color
  deriving DecidableEq

/-- The letter of a component. -/
def LetterSet.letter : LetterSet → Component → Char
  | .position, .x => 'x'
  | .position, .y => 'y'
  | .position, .z => 'z'
  | .position, .w => 'w'
  | .color, .x => 'r'
  | .color, .y => 'g'
  | .color, .z => 'b'
  | .color, .w => 'a'

/-- The component a letter stands for, and its set. -/
def Component.ofLetter? : Char → Option (Component × LetterSet)
  | 'x' => some (x, .position)
  | 'y' => some (y, .position)
  | 'z' => some (z, .position)
  | 'w' => some (w, .position)
  | 'r' => some (x, .color)
  | 'g' => some (y, .color)
  | 'b' => some (z, .color)
  | 'a' => some (w, .color)
  | _ => none

theorem Component.ofLetter?_letter (set : LetterSet) (c : Component) :
    ofLetter? (set.letter c) = some (c, set) := by
  cases set <;> cases c <;> rfl

/-! ## Masks -/

/-- A mask: the components it selects, in order, and the letters it is written with. -/
structure Swizzle where
  components : List Component
  letters : LetterSet
  deriving DecidableEq

namespace Swizzle

/-- The number of components selected. -/
def length (s : Swizzle) : Nat := s.components.length

/-- The mask as it was written. -/
def text (s : Swizzle) : String := String.ofList (s.components.map s.letters.letter)

/-- Whether no component is selected twice. -/
def isUnique (s : Swizzle) : Bool := s.components.Nodup

/-- Read the letters of a mask, knowing the set of the letters already read.

The first letter that belongs to no set, that mixes the two sets or that selects a component the
vector lacks is refused. -/
def readLetters (mask : String) (size : UInt8) :
    Option LetterSet → List Char → Except ShaderError (List Component × LetterSet)
  | set, [] => .ok ([], set.getD .position)
  | set, c :: rest =>
    match Component.ofLetter? c with
    | none => .error (.type (.swizzleLetter c mask))
    | some (component, letters) =>
      if set.any (· != letters) then .error (.type (.swizzleMixed mask))
      else if component.index ≥ size then .error (.type (.swizzleRange mask c size))
      else
        match readLetters mask size (some letters) rest with
        | .error e => .error e
        | .ok (components, set) => .ok (component :: components, set)

/-- Read a mask applied to a vector of `size` components.

The length of the mask is first bounded in bytes, by the size of the vector and by four. -/
def parse (mask : String) (size : UInt8) : Except ShaderError Swizzle :=
  let limit := min size 4
  if mask.isEmpty || mask.utf8ByteSize > limit.toNat then
    .error (.type (.swizzleLength mask limit))
  else
    match readLetters mask size none mask.toList with
    | .error e => .error e
    | .ok (components, letters) => .ok ⟨components, letters⟩

end Swizzle

end WebShader
