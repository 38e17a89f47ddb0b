/-!
# Address spaces and layout rules
-/

namespace WebShader

/-- The memory a pointer points into. -/
inductive AddressSpace where
  | function
  | priv
  | workgroup
  | uniform
  | storage
  deriving DecidableEq

namespace AddressSpace

/-- Every address space. -/
def all : List AddressSpace := [function, priv, workgroup, uniform, storage]

/-- The name of the address space. -/
def name : AddressSpace → String
  | function => "function"
  | priv => "private"
  | workgroup => "workgroup"
  | uniform => "uniform"
  | storage => "storage"

/-- The address space whose name is `s`. -/
def ofName? (s : String) : Option AddressSpace := all.find? (·.name == s)

end AddressSpace

/-- The rules a struct is laid out with.

Under `packed`, the rules of storage buffers, members follow each other at their natural
alignment, vectors of three or four components aligning to four components. Under `std140`, the
rules of uniform blocks, arrays, matrix columns and structs moreover align to 16 bytes, array
strides are rounded up to 16 bytes, and nested structs are `std140` too. -/
inductive LayoutPolicy where
  | packed
  | std140
  deriving DecidableEq

namespace LayoutPolicy

/-- Every set of rules. -/
def all : List LayoutPolicy := [packed, std140]

/-- The name of the rules. -/
def name : LayoutPolicy → String
  | packed => "packed"
  | std140 => "std140"

/-- The rules whose name is `s`. -/
def ofName? (s : String) : Option LayoutPolicy := all.find? (·.name == s)

end LayoutPolicy

end WebShader
