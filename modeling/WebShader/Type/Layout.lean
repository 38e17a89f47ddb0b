import WebShader.Type.Registry

/-!
# Memory layout

The size and alignment of types in buffers. Addresses have 32 bits: a layout that needs more is
refused instead of wrapping around. A struct keeps the layout it was registered with, whatever
rules apply around it.
-/

namespace WebShader

/-! ## Checked arithmetic -/

namespace Layout

/-- The number of addresses. -/
def addressSpace : Nat := 4294967296

/-- An address, if it exists. -/
def checked (n : Nat) : Option Nat := if n < addressSpace then some n else none

/-- The least multiple of the alignment that is not below the value. -/
def roundUp (value alignment : Nat) : Nat := (value + (alignment - 1)) / alignment * alignment

/-- The least multiple of the alignment that is not below the value, if the sum that finds it is an
address. -/
def roundUp? (value alignment : Nat) : Option Nat :=
  if alignment = 0 then some value
  else (checked (value + (alignment - 1))).map fun n => n / alignment * alignment

theorem le_roundUp (value : Nat) {alignment : Nat} (h : 0 < alignment) :
    value ≤ roundUp value alignment := by
  have hd := Nat.div_add_mod (value + (alignment - 1)) alignment
  have hm := Nat.mod_lt (value + (alignment - 1)) h
  unfold roundUp
  rw [Nat.mul_comm]
  omega

theorem dvd_roundUp (value alignment : Nat) : alignment ∣ roundUp value alignment :=
  Nat.dvd_mul_left _ _

theorem roundUp?_eq_some {value alignment n : Nat} (h : 0 < alignment)
    (hn : roundUp? value alignment = some n) : n = roundUp value alignment := by
  unfold roundUp? checked at hn
  rw [if_neg (by omega)] at hn
  split at hn
  · simpa [roundUp] using hn.symm
  · simp at hn

end Layout

/-- A size and an alignment, in bytes. -/
structure Extent where
  size : Nat
  alignment : Nat
  deriving DecidableEq

/-! ## Primitive types -/

namespace PrimitiveType

/-- The natural extent of a scalar or vector: three components align like four. -/
def vectorExtent (p : PrimitiveType) : Extent :=
  let component := p.scalar.byteSize
  let alignment :=
    if p.rows = 1 then component else if p.rows = 2 then 2 * component else 4 * component
  ⟨p.rows.toNat * component, alignment⟩

/-- The distance between the columns of a matrix, and its alignment. -/
def columnExtent (p : PrimitiveType) (policy : LayoutPolicy) : Extent :=
  let column := p.element.vectorExtent
  match policy with
  | .packed => ⟨Layout.roundUp column.size column.alignment, column.alignment⟩
  | .std140 => ⟨Layout.roundUp column.size 16, 16⟩

/-- The extent of a primitive type. -/
def extent (p : PrimitiveType) (policy : LayoutPolicy) : Extent :=
  if p.isMatrix then
    let column := p.columnExtent policy
    ⟨p.cols.toNat * column.size, column.alignment⟩
  else p.vectorExtent

end PrimitiveType

/-! ## Registered types -/

namespace Registry

open Layout

/-- The refusal of something too large to be addressed. -/
def tooLarge (what : String) : ShaderError := .type (.tooLarge what)

/-- The distance between the elements of an array, and its alignment. -/
def elementExtent (policy : LayoutPolicy) (element : Extent) : Option Extent :=
  match policy with
  | .packed =>
    (roundUp? element.size element.alignment).map fun stride => ⟨stride, element.alignment⟩
  | .std140 =>
    ((roundUp? element.size element.alignment).bind (roundUp? · 16)).map fun stride =>
      ⟨stride, max element.alignment 16⟩

/-- The extent of a type under the given rules. Runtime-sized arrays have no size, and types that
are not stored in buffers neither. -/
def extent (r : Registry) (t : TypeId) (policy : LayoutPolicy) : Except ShaderError Extent :=
  match r.kind t with
  | .primitive p => .ok (p.extent policy)
  | .array element n =>
    if element.index < t.index then
      match r.extent element policy with
      | .error e => .error e
      | .ok element =>
        match elementExtent policy element with
        | some stride =>
          match checked (stride.size * n) with
          | some size => .ok ⟨size, stride.alignment⟩
          | none => .error (tooLarge (quoted (r.display t)))
        | none => .error (tooLarge (quoted (r.display t)))
    else .ok ⟨0, 1⟩
  | .struct s => .ok ⟨s.layout.size, s.layout.alignment⟩
  | _ => .ok ⟨0, 1⟩
termination_by t.index

/-- Lay the members out from an offset on, each at the next multiple of its alignment: their
offsets, where the last one ends and the strictest alignment. -/
def layoutMembers (r : Registry) (policy : LayoutPolicy) :
    List Member → Nat → Nat → Except ShaderError (List Nat × Nat × Nat)
  | [], offset, alignment => .ok ([], offset, alignment)
  | m :: rest, offset, alignment => do
    let extent ← r.extent m.type policy
    let failure := tooLarge ("member " ++ quoted m.name)
    match roundUp? offset extent.alignment with
    | none => .error failure
    | some start =>
      match checked (start + extent.size) with
      | none => .error failure
      | some next =>
        let (offsets, final, strictest) ←
          r.layoutMembers policy rest next (max alignment extent.alignment)
        .ok (start :: offsets, final, strictest)

/-- The layout of a struct: its size is a multiple of its alignment, which `std140` raises to 16. -/
def structLayout (r : Registry) (members : List Member) (policy : LayoutPolicy) :
    Except ShaderError StructLayout := do
  let (offsets, final, strictest) ← r.layoutMembers policy members 0 1
  let alignment := match policy with
    | .packed => strictest
    | .std140 => max strictest 16
  match roundUp? final alignment with
  | some size => .ok ⟨offsets, alignment, size⟩
  | none => .error (tooLarge "struct")

end Registry

end WebShader
