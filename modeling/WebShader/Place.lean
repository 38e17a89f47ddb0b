import WebShader.Expression

/-!
# Accesses and places

Members, swizzles, elements and addresses. Accessing the same part of the same expression twice
gives the same expression. A place is an expression that can be assigned to.
-/

namespace WebShader

/-! ## Accesses -/

namespace Builder

/-- The expression an access has given before. -/
def accessed? (b : Builder) (base : NodeId) (access : Access) : Option Expr :=
  (b.accesses.find? (·.1 == (base, access))).map (·.2)

end Builder

/-- The place of a member in a struct, and the member. -/
def StructType.member? (s : StructType) (name : String) : Option (Nat × Member) := do
  let i ← s.members.findIdx? (·.name == name)
  let m ← s.members[i]?
  return (i, m)

namespace Build

/-- Access a part of an expression: the expression given before, or a new one. -/
def access (base : Expr) (part : Access) (type : TypeId) (kind : NodeKind) : Build Expr := do
  match (← get).accessed? base.node part with
  | some e => return e
  | none =>
    let e ← pushNode type kind
    modify fun b => { b with accesses := ((base.node, part), e) :: b.accesses }
    return e

/-- Access a member of a struct. -/
def member (base : Expr) (name : String) : Build Expr := do
  let r := (← get).types
  match r.struct? base.type with
  | none => throw (.type (.memberOf name (r.display base.type)))
  | some s =>
    match s.member? name with
    | none => throw (.type (.noMember s.name name))
    | some (i, m) => access base (.member i) m.type (.member base.node i)

/-- Select components of a vector. -/
def swizzle (base : Expr) (mask : String) : Build Expr := do
  let r := (← get).types
  let failure := ShaderError.type (.swizzleOf (r.display base.type))
  match r.primitive? base.type with
  | none => throw failure
  | some p =>
    if !p.isVector then throw failure
    let s ← Swizzle.parse mask p.rows
    let t ← intern (Interning.primitive (.vector p.scalar (UInt8.ofNat s.length)))
    access base (.swizzle s) t (.swizzle base.node s)

/-- The type of the elements of an indexed type, and how many there are if it is known. -/
def elements (t : TypeId) : Build (TypeId × Option Nat) := do
  let r := (← get).types
  let failure := ShaderError.type (.indexInto (r.display t))
  match r.kind t with
  | .array element n => return (element, if n > 0 then some n else none)
  | .primitive p =>
    if p.isScalar then throw failure
    let element ← intern (Interning.primitive p.element)
    return (element, some (if p.isMatrix then p.cols else p.rows).toNat)
  | _ => throw failure

/-- Access the element of an index known to the host program. -/
def element (base : Expr) (type : TypeId) (bound : Option Nat) (i : Int) : Build Expr := do
  let inRange := isU32 i && bound.all (i.toNat < ·)
  if !inRange then throw (.type (.indexRange i ((← get).types.display base.type)))
  let n := i.toNat
  match (← get).accessed? base.node (.index n) with
  | some e => return e
  | none =>
    let index ← literal (if isI32 i then .i32 i else .u32 n)
    access base (.index n) type (.index base.node index.node)

/-- Access an element of an array, a column of a matrix or a component of a vector. -/
def «at» (base : Expr) (index : Value) : Build Expr := do
  let (type, bound) ← elements base.type
  match index with
  | .host (.int i) => element base type bound i
  | .expr e =>
    let r := (← get).types
    match r.primitive? e.type with
    | some p =>
      if !(p.isScalar && p.scalar.isInteger) then
        throw (.type (.indexType (r.display e.type)))
      pushNode type (.index base.node e.node)
    | none => throw (.type (.indexType (r.display e.type)))
  | .host v => throw (.type (.indexLiteral v.text))

end Build

/-! ## Roots -/

/-- The variable that members, swizzles and elements are taken from. -/
def Builder.root? (b : Builder) (n : NodeId) : Option VarId :=
  match b.node? n with
  | some ⟨_, .var v⟩ => some v
  | some ⟨_, .member base _⟩ | some ⟨_, .swizzle base _⟩ | some ⟨_, .index base _⟩ =>
    if base.index < n.index then b.root? base else none
  | _ => none
termination_by n.index

/-- The variable is found among the expressions alone. -/
theorem Builder.root?_congr {b b' : Builder} (hnodes : b'.nodes = b.nodes) (n : NodeId) :
    b'.root? n = b.root? n := by
  have hbase : ∀ m : NodeId, (if m.index < n.index then b'.root? m else none) =
      if m.index < n.index then b.root? m else none := fun m => by
    split
    · exact root?_congr hnodes m
    · rfl
  have hnode : b'.node? n = b.node? n := by rw [node?, node?, hnodes]
  rw [root?, root?, hnode]
  simp only [hbase]
termination_by n.index

namespace Build

/-- The memory whose variables have an address. -/
def addressSpace? : Role → Option AddressSpace
  | .localVar => some .function
  | .workgroup => some .workgroup
  | .storage _ false => some .storage
  | _ => none

/-- Take the address of a variable or of a part of one. -/
def addressOf (place : Expr) : Build Expr := do
  require .pointer
  let b ← get
  match (b.root? place.node).bind b.var? with
  | none => throw (.type .noAddress)
  | some v =>
    match addressSpace? v.role with
    | none => throw (.type (.addressOf v.name v.role))
    | some space =>
      let t ← intern (Interning.pointer place.type space)
      pushNode t (.addressOf place.node)

/-- The value a pointer points to. -/
def deref (pointer : Expr) : Build Expr := do
  let r := (← get).types
  match r.kind pointer.type with
  | .pointer pointee _ => pushNode pointee (.deref pointer.node)
  | _ => throw (.type (.deref (r.display pointer.type)))

end Build

/-! ## Places -/

namespace Builder

/-- Refuse a variable that cannot be assigned to. -/
def checkVarPlace (v : Variable) : Except ShaderError Unit :=
  if v.role.isWritable then .ok ()
  else if v.role = .param then .error (.declaration (.readOnlyParam v.name))
  else .error (.type (.notAssignable v.name v.role))

/-- Refuse a swizzle that cannot be assigned through: a component selected twice, or several
components in WGSL. -/
def checkSwizzlePlace (target : Target) (s : Swizzle) : Except ShaderError Unit :=
  if !s.isUnique then .error (.type (.swizzleRepeats s.text))
  else if target = .webGPU && s.length > 1 then .error (.type (.swizzleWide s.text))
  else .ok ()

/-- Refuse an expression that cannot be assigned to. -/
def checkPlace (b : Builder) (n : NodeId) : Except ShaderError Unit :=
  let undefined := ShaderError.internal (.undefinedExpression n.index)
  match b.node? n with
  | none => .error undefined
  | some node =>
    match node.kind with
    | .var v =>
      match b.var? v with
      | some v => checkVarPlace v
      | none => .error undefined
    | .builtin builtin => if builtin.isOutput then .ok () else .error (.type .notPlace)
    | .member base _ | .index base _ =>
      if base.index < n.index then b.checkPlace base else .error undefined
    | .swizzle base s =>
      match checkSwizzlePlace b.target s with
      | .error e => .error e
      | .ok () => if base.index < n.index then b.checkPlace base else .error undefined
    | .deref _ => .ok ()
    | _ => .error (.type .notPlace)
termination_by n.index

/-- A place is one by its expressions and variables, and by what swizzles the target takes. -/
theorem checkPlace_congr {b b' : Builder} (hnodes : b'.nodes = b.nodes) (hvars : b'.vars = b.vars)
    (hswizzle : ∀ s, checkSwizzlePlace b'.target s = checkSwizzlePlace b.target s) (n : NodeId) :
    b'.checkPlace n = b.checkPlace n := by
  have hbase : ∀ (m : NodeId) x, (if m.index < n.index then b'.checkPlace m else x) =
      if m.index < n.index then b.checkPlace m else x := fun m x => by
    split
    · exact checkPlace_congr hnodes hvars hswizzle m
    · rfl
  have hnode : b'.node? n = b.node? n := by rw [node?, node?, hnodes]
  have hvar : ∀ v, b'.var? v = b.var? v := fun v => by rw [var?, var?, hvars]
  rw [checkPlace, checkPlace, hnode]
  simp only [hbase, hswizzle, hvar]
termination_by n.index

end Builder

end WebShader
