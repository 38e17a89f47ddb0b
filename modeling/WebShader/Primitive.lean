/-!
# Scalars, vectors and matrices

A primitive type is a component type with a number of rows and columns. Vectors have one column;
matrices are stored column by column. The row and column counts are bytes, and a type may be
written down with a shape that no language has: `PrimitiveType.fault` says what is wrong with it.
-/

namespace WebShader

/-! ## Components -/

/-- The type of a component. -/
inductive ScalarKind where
  | bool
  | i32
  | u32
  | f32
  | f16
  deriving DecidableEq

namespace ScalarKind

/-- Every component type. -/
def all : List ScalarKind := [bool, i32, u32, f32, f16]

/-- The name of the component type. -/
def name : ScalarKind → String
  | bool => "bool"
  | i32 => "i32"
  | u32 => "u32"
  | f32 => "f32"
  | f16 => "f16"

/-- The component type whose name is `s`. -/
def ofName? (s : String) : Option ScalarKind := all.find? (·.name == s)

theorem ofName?_name (k : ScalarKind) : ofName? k.name = some k := by cases k <;> decide

/-- Whether the components are integers. -/
def isInteger (k : ScalarKind) : Bool := k == i32 || k == u32

/-- Whether the components are floating-point numbers. -/
def isFloat (k : ScalarKind) : Bool := k == f32 || k == f16

/-- Whether the components are numbers. -/
def isNumeric (k : ScalarKind) : Bool := k != bool

/-- The bytes a component takes in a buffer. -/
def byteSize : ScalarKind → Nat
  | f16 => 2
  | _ => 4

end ScalarKind

/-! ## Shapes -/

/-- A scalar, vector or matrix type. -/
structure PrimitiveType where
  scalar : ScalarKind
  rows : UInt8
  cols : UInt8
  deriving DecidableEq

/-- What is wrong with the shape of a primitive type. -/
inductive ShapeFault where
  | matrixSize (cols rows : UInt8)
  | matrixScalar (scalar : ScalarKind)
  | vectorSize (rows : UInt8)

namespace PrimitiveType

/-- The scalar of a component type. -/
def ofScalar (k : ScalarKind) : PrimitiveType := ⟨k, 1, 1⟩

/-- The vector of `n` components. -/
def vector (k : ScalarKind) (n : UInt8) : PrimitiveType := ⟨k, n, 1⟩

/-- The matrix of `cols` columns of `rows` components. -/
def matrix (k : ScalarKind) (cols rows : UInt8) : PrimitiveType := ⟨k, rows, cols⟩

/-- Whether the type has a single component. -/
def isScalar (p : PrimitiveType) : Bool := p.rows == 1 && p.cols == 1

/-- Whether the type is one column of several components. -/
def isVector (p : PrimitiveType) : Bool := p.cols == 1 && p.rows > 1

/-- Whether the type has several columns. -/
def isMatrix (p : PrimitiveType) : Bool := p.cols > 1

/-- The number of components, counted in a byte. -/
def components (p : PrimitiveType) : UInt8 := p.rows * p.cols

/-- The type obtained by indexing: a column of a matrix, a component of anything else. -/
def element (p : PrimitiveType) : PrimitiveType :=
  if p.isMatrix then vector p.scalar p.rows else ofScalar p.scalar

/-- The same shape with other components. -/
def withScalar (p : PrimitiveType) (k : ScalarKind) : PrimitiveType := ⟨k, p.rows, p.cols⟩

/-- The spelling of the type in messages, type keys and WGSL. -/
def text (p : PrimitiveType) : String :=
  if p.isMatrix then
    "mat" ++ toString p.cols.toNat ++ "x" ++ toString p.rows.toNat ++ "<" ++ p.scalar.name ++ ">"
  else if p.isVector then "vec" ++ toString p.rows.toNat ++ "<" ++ p.scalar.name ++ ">"
  else p.scalar.name

/-- The first fault of the shape: matrices have two to four rows and columns of floating-point
components, and anything else is one column of one to four components. -/
def fault (p : PrimitiveType) : Option ShapeFault :=
  if p.isMatrix then
    if p.cols > 4 || p.rows < 2 || p.rows > 4 then some (.matrixSize p.cols p.rows)
    else if p.scalar.isFloat then none
    else some (.matrixScalar p.scalar)
  else if p.cols != 1 || p.rows < 1 || p.rows > 4 then some (.vectorSize p.rows)
  else none

theorem withScalar_scalar (p : PrimitiveType) : p.withScalar p.scalar = p := rfl

theorem isScalar_ofScalar (k : ScalarKind) : (ofScalar k).isScalar = true := rfl

/-- A scalar type is the scalar of its component type. -/
theorem eq_ofScalar_of_isScalar {p : PrimitiveType} (h : p.isScalar = true) :
    p = ofScalar p.scalar := by
  rcases p with ⟨k, r, c⟩
  simp only [isScalar, Bool.and_eq_true, beq_iff_eq] at h
  rcases h with ⟨rfl, rfl⟩
  rfl

end PrimitiveType

end WebShader
