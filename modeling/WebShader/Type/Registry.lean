import WebShader.Error
import WebShader.Memory

/-!
# The type registry

Types are registered once each and referred to by their place in the registry. An entry refers to
the entries of its parts, which come before it; every traversal below goes from a type to its parts
and checks that it goes down.
-/

namespace WebShader

/-! ## Entries -/

/-- A registered type. -/
structure TypeId where
  index : Nat
  deriving DecidableEq

/-- The byte offsets of the members of a struct, with the alignment and the size of the whole. -/
structure StructLayout where
  offsets : List Nat
  alignment : Nat
  size : Nat
  deriving DecidableEq

/-- A member of a struct. -/
structure Member where
  name : String
  type : TypeId
  deriving DecidableEq

/-- A struct type with its layout. -/
structure StructType where
  name : String
  policy : LayoutPolicy
  members : List Member
  layout : StructLayout
  deriving DecidableEq

/-- What a registered type is made of. -/
inductive TypeKind where
  | void
  | primitive (type : PrimitiveType)
  | array (element : TypeId) (length : Nat)
  | struct (type : StructType)
  | pointer (pointee : TypeId) (space : AddressSpace)
  | texture (type : TextureType)
  | sampler (kind : SamplerKind)
  deriving DecidableEq

namespace TypeKind

/-- Whether values of the type can be held by variables and buffers. -/
def isStorable : TypeKind → Bool
  | primitive _ | array _ _ | struct _ => true
  | _ => false

/-- Whether values of the type can be held, whatever runs: all but runtime-sized arrays. -/
def isSized : TypeKind → Bool
  | primitive _ | struct _ => true
  | array _ n => n > 0
  | _ => false

/-- The types the type is made of. -/
def parts : TypeKind → List TypeId
  | array element _ => [element]
  | struct s => s.members.map (·.type)
  | pointer pointee _ => [pointee]
  | _ => []

end TypeKind

/-- An entry of the registry. Types of equal keys are the same type. -/
structure TypeEntry where
  key : String
  kind : TypeKind
  deriving DecidableEq

/-! ## The registry -/

/-- The types registered so far and the number of struct names generated. -/
structure Registry where
  entries : Array TypeEntry := #[]
  generated : Nat := 0

namespace Registry

/-- The registry without types. -/
def empty : Registry := {}

/-- The number of types. -/
def size (r : Registry) : Nat := r.entries.size

/-- What a type is made of; a type that was never registered counts as `void`. -/
def kind (r : Registry) (t : TypeId) : TypeKind :=
  match r.entries[t.index]? with
  | some entry => entry.kind
  | none => .void

/-- The key of a type. -/
def key (r : Registry) (t : TypeId) : String :=
  match r.entries[t.index]? with
  | some entry => entry.key
  | none => ""

/-- The primitive type behind a registered one. -/
def primitive? (r : Registry) (t : TypeId) : Option PrimitiveType :=
  match r.kind t with
  | .primitive p => some p
  | _ => none

/-- The struct type behind a registered one. -/
def struct? (r : Registry) (t : TypeId) : Option StructType :=
  match r.kind t with
  | .struct s => some s
  | _ => none

/-- The texture type behind a registered one. -/
def texture? (r : Registry) (t : TypeId) : Option TextureType :=
  match r.kind t with
  | .texture t => some t
  | _ => none

/-- Whether the type is `void`. -/
def isVoid (r : Registry) (t : TypeId) : Bool :=
  match r.kind t with
  | .void => true
  | _ => false

/-- Whether some registered primitive type has these components. -/
def hasScalar (r : Registry) (k : ScalarKind) : Bool :=
  r.entries.any fun entry =>
    match entry.kind with
    | .primitive p => p.scalar == k
    | _ => false

/-- The type of a key. -/
def withKey? (r : Registry) (key : String) : Option TypeId :=
  (r.entries.findIdx? (·.key == key)).map TypeId.mk

/-- Whether an entry is the struct of a name. -/
def isStructNamed (name : String) (entry : TypeEntry) : Bool :=
  match entry.kind with
  | .struct s => s.name == name
  | _ => false

/-- The struct of a name. -/
def structNamed? (r : Registry) (name : String) : Option TypeId :=
  (r.entries.findIdx? (isStructNamed name)).map TypeId.mk

/-- Register a type at the end. -/
def push (r : Registry) (key : String) (kind : TypeKind) : Registry :=
  { r with entries := r.entries.push ⟨key, kind⟩ }

/-! ## Traversals -/

/-- The name of a type in messages: its key, save that arrays and pointers show the names of their
parts and structs show their own. -/
def display (r : Registry) (t : TypeId) : String :=
  match r.kind t with
  | .void => "void"
  | .primitive p => p.text
  | .array element n =>
    let inner := if element.index < t.index then r.display element else "void"
    if n = 0 then "array<" ++ inner ++ ">" else "array<" ++ inner ++ ", " ++ toString n ++ ">"
  | .struct s => s.name
  | .pointer pointee space =>
    let inner := if pointee.index < t.index then r.display pointee else "void"
    "ptr<" ++ space.name ++ ", " ++ inner ++ ">"
  | .texture _ | .sampler _ => r.key t
termination_by t.index

/-- Whether the type is a runtime-sized array or a struct that ends, at any depth, with one. -/
def isRuntimeSized (r : Registry) (t : TypeId) : Bool :=
  match r.kind t with
  | .array _ n => n == 0
  | .struct s =>
    match s.members.getLast? with
    | some m => if m.type.index < t.index then r.isRuntimeSized m.type else false
    | none => false
  | _ => false
termination_by t.index

/-! ## Lemmas -/

/-- Every part of every type comes before it. -/
def WellFormed (r : Registry) : Prop :=
  ∀ t, ∀ part ∈ (r.kind t).parts, part.index < t.index

theorem wellFormed_empty : empty.WellFormed := by
  intro t part h
  simp [empty, kind, TypeKind.parts] at h

theorem kind_push_of_lt {r : Registry} {key : String} {k : TypeKind} {t : TypeId}
    (h : t.index < r.size) : (r.push key k).kind t = r.kind t := by
  unfold size at h
  simp [push, kind, Array.getElem?_push, Nat.ne_of_lt h]

theorem kind_push_size (r : Registry) (key : String) (k : TypeKind) :
    (r.push key k).kind ⟨r.size⟩ = k := by
  simp [push, kind, size]

theorem kind_eq_void_of_le {r : Registry} {t : TypeId} (h : r.size ≤ t.index) :
    r.kind t = .void := by
  unfold size at h
  simp [kind, Array.getElem?_eq_none h]

/-- A storable type has been registered. -/
theorem lt_size_of_isStorable {r : Registry} {t : TypeId} (h : (r.kind t).isStorable = true) :
    t.index < r.size := by
  apply Nat.lt_of_not_le
  intro hle
  rw [kind_eq_void_of_le hle] at h
  simp [TypeKind.isStorable] at h

/-- Registering a type whose parts are registered keeps the registry well formed. -/
theorem WellFormed.push {r : Registry} (hr : r.WellFormed) {key : String} {k : TypeKind}
    (hk : ∀ part ∈ k.parts, part.index < r.size) : (r.push key k).WellFormed := by
  intro t part hpart
  rcases Nat.lt_trichotomy t.index r.size with h | h | h
  · rw [kind_push_of_lt h] at hpart
    exact hr t part hpart
  · have ht : t = ⟨r.size⟩ := by rcases t with ⟨i⟩; simp_all
    subst ht
    rw [kind_push_size] at hpart
    exact hk part hpart
  · have hle : (r.push key k).size ≤ t.index := by
      simp only [Registry.push, size, Array.size_push] at h ⊢
      omega
    rw [kind_eq_void_of_le hle] at hpart
    simp [TypeKind.parts] at hpart

end Registry

end WebShader
