import Mathlib.Algebra.Order.Floor.Ring
import Mathlib.Data.Rat.Floor
import WebShader.Identifier
import WebShader.Operator
import WebShader.Primitive
import WebShader.Proofs.ListTraversal
import WebShader.Swizzle

/-!
# Data

What expressions stand for: booleans, integers of 32 bits that wrap around, floats that are exact,
vectors of these, arrays and structs. Operators work component by component. An operation gives
nothing where no language gives it a meaning.
-/

namespace WebShader

/-! ## Words -/

/-- Whether the text is a name as far as its characters go. -/
def isName (text : String) : Bool :=
  match text.toList with
  | [] => false
  | c :: rest => isNameStart c && rest.all isNameRest

/-- Whether the text is a name, and not the literal of a boolean. -/
def isWord (text : String) : Bool := isName text && text != "true" && text != "false"

/-- A word is a name. -/
theorem isName_of_isWord {text : String} (h : isWord text = true) : isName text = true := by
  rw [isWord, Bool.and_eq_true, Bool.and_eq_true] at h
  exact h.1.1

/-- A name starts with a character that names start with. -/
theorem exists_of_isName {text : String} (h : isName text = true) :
    ∃ c rest, text.toList = c :: rest ∧ isNameStart c = true ∧ rest.all isNameRest = true := by
  unfold isName at h
  split at h
  · cases h
  · rename_i c rest hlist
    rw [Bool.and_eq_true] at h
    exact ⟨c, rest, hlist, h⟩

/-- A name that is not the literal of a boolean. -/
structure Word where
  text : String
  isWord : isWord text = true
  deriving DecidableEq

/-! ## Scalars -/

/-- A component. An exact integer is a literal that has not been given a type. -/
inductive Scalar where
  | bool (b : Bool)
  | i32 (x : BitVec 32)
  | u32 (x : BitVec 32)
  | float (x : ℚ)
  | exact (n : Int)
  deriving DecidableEq

/-- The quotient of rationals rounded toward zero. -/
def truncated (x : ℚ) : Int := if 0 ≤ x then ⌊x⌋ else ⌈x⌉

namespace Scalar

/-- Whether the component has a type. -/
def isOf : Scalar → ScalarKind → Bool
  | bool _, .bool => true
  | i32 _, .i32 => true
  | u32 _, .u32 => true
  | float _, .f32 | float _, .f16 => true
  | _, _ => false

/-- The zero of a type. -/
def zero : ScalarKind → Scalar
  | .bool => bool false
  | .i32 => i32 0
  | .u32 => u32 0
  | .f32 | .f16 => float 0

/-- The integer of 32 bits that an integer is, if it is in range. -/
def ofInt? (n : Int) : Option Scalar :=
  if -2147483648 ≤ n ∧ n < 2147483648 then some (i32 (BitVec.ofInt 32 n)) else none

/-- The integer of 32 bits without sign that a natural number is, if it is in range. -/
def ofNat? (n : Nat) : Option Scalar :=
  if n < 4294967296 then some (u32 (BitVec.ofNat 32 n)) else none

/-- A component converted to another type. Integers keep their bits, floats lose their fraction. -/
def convert : ScalarKind → Scalar → Option Scalar
  | .bool, bool b => some (bool b)
  | .bool, i32 x | .bool, u32 x => some (bool (x ≠ 0))
  | .bool, float x => some (bool (x ≠ 0))
  | .i32, bool b => some (i32 (if b then 1 else 0))
  | .i32, i32 x | .i32, u32 x => some (i32 x)
  | .i32, float x => ofInt? (truncated x)
  | .i32, exact n => ofInt? n
  | .u32, bool b => some (u32 (if b then 1 else 0))
  | .u32, i32 x | .u32, u32 x => some (u32 x)
  | .f32, bool b | .f16, bool b => some (float (if b then 1 else 0))
  | .f32, i32 x | .f16, i32 x => some (float x.toInt)
  | .f32, u32 x | .f16, u32 x => some (float x.toNat)
  | .f32, float x | .f16, float x => some (float x)
  | _, _ => none

/-- A unary operation on a component. -/
def unary : UnaryOp → Scalar → Option Scalar
  | .neg, i32 x => some (i32 (-x))
  | .neg, float x => some (float (-x))
  | .neg, exact n => some (exact (-n))
  | .not, bool b => some (bool !b)
  | .bitNot, i32 x => some (i32 (~~~x))
  | .bitNot, u32 x => some (u32 (~~~x))
  | _, _ => none

/-- A binary operation on booleans. -/
def ofBools (a b : Bool) : BinaryOp → Option Scalar
  | .and => some (bool (a && b))
  | .or => some (bool (a || b))
  | .eq => some (bool (a == b))
  | .ne => some (bool (a != b))
  | _ => none

/-- A binary operation on integers with a sign. A division by zero gives the dividend. -/
def ofInts (x y : BitVec 32) : BinaryOp → Option Scalar
  | .add => some (i32 (x + y))
  | .sub => some (i32 (x - y))
  | .mul => some (i32 (x * y))
  | .div => some (i32 (if y = 0 then x else x.sdiv y))
  | .rem => some (i32 (if y = 0 then 0 else x.srem y))
  | .bitAnd => some (i32 (x &&& y))
  | .bitOr => some (i32 (x ||| y))
  | .bitXor => some (i32 (x ^^^ y))
  | .eq => some (bool (x = y))
  | .ne => some (bool (x ≠ y))
  | .lt => some (bool (x.slt y))
  | .le => some (bool (x.sle y))
  | .gt => some (bool (y.slt x))
  | .ge => some (bool (y.sle x))
  | _ => none

/-- A binary operation on integers without sign. A division by zero gives the dividend. -/
def ofNats (x y : BitVec 32) : BinaryOp → Option Scalar
  | .add => some (u32 (x + y))
  | .sub => some (u32 (x - y))
  | .mul => some (u32 (x * y))
  | .div => some (u32 (if y = 0 then x else x / y))
  | .rem => some (u32 (if y = 0 then 0 else x % y))
  | .bitAnd => some (u32 (x &&& y))
  | .bitOr => some (u32 (x ||| y))
  | .bitXor => some (u32 (x ^^^ y))
  | .eq => some (bool (x = y))
  | .ne => some (bool (x ≠ y))
  | .lt => some (bool (x.ult y))
  | .le => some (bool (x.ule y))
  | .gt => some (bool (y.ult x))
  | .ge => some (bool (y.ule x))
  | _ => none

/-- A binary operation on floats. Nothing divides by zero. -/
def ofFloats (x y : ℚ) : BinaryOp → Option Scalar
  | .add => some (float (x + y))
  | .sub => some (float (x - y))
  | .mul => some (float (x * y))
  | .div => if y = 0 then none else some (float (x / y))
  | .rem => if y = 0 then none else some (float (x - y * truncated (x / y)))
  | .eq => some (bool (x = y))
  | .ne => some (bool (x ≠ y))
  | .lt => some (bool (x < y))
  | .le => some (bool (x ≤ y))
  | .gt => some (bool (y < x))
  | .ge => some (bool (y ≤ x))
  | _ => none

/-- A binary operation on components of one type. Shifts are left out. -/
def binary (op : BinaryOp) : Scalar → Scalar → Option Scalar
  | bool a, bool b => ofBools a b op
  | i32 x, i32 y => ofInts x y op
  | u32 x, u32 y => ofNats x y op
  | float x, float y => ofFloats x y op
  | _, _ => none

end Scalar

/-! ## Data -/

/-- A value. The fields of a record are in the order of its struct. -/
inductive Datum where
  | scalar (a : Scalar)
  | vector (as : List Scalar)
  | array (elements : List Datum)
  | record (struct : String) (fields : List (Word × Datum))

namespace Datum

/-- Whether the value is a single component. -/
def isScalar : Datum → Bool
  | scalar _ => true
  | _ => false

/-- Whether the value is a vector. -/
def isVector : Datum → Bool
  | vector _ => true
  | _ => false

/-- The components of a scalar or a vector. -/
def components? : Datum → Option (List Scalar)
  | scalar a => some [a]
  | vector as => some as
  | _ => none

/-- The scalar of one component, or the vector of two to four. -/
def ofComponents? (as : List Scalar) : Option Datum :=
  match as with
  | [a] => some (scalar a)
  | [_, _] | [_, _, _] | [_, _, _, _] => some (vector as)
  | _ => none

/-! ## Parts -/

/-- The components of a vector that are selected, in order. -/
def select (as : List Scalar) (selected : List Component) : Option Datum :=
  (selected.mapM fun c => as[c.index.toNat]?).bind ofComponents?

/-- The components that a mask names, all by letters of one set. -/
def selected? (mask : String) : Option (List Component) := do
  let letters ← mask.toList.mapM Component.ofLetter?
  if letters.all fun l => letters.all fun l' => l.2 = l'.2 then some (letters.map (·.1)) else none

/-- The field of a record by its name. -/
def field? : Datum → String → Option Datum
  | record _ fields, name => (fields.find? fun f => f.1.text == name).map (·.2)
  | _, _ => none

/-- A part of a value by its name: some components of a vector or the field of a record. -/
def part? : Datum → String → Option Datum
  | vector as, mask => (selected? mask).bind (select as)
  | d, name => d.field? name

/-- The position that an index stands for. -/
def position? : Datum → Option Nat
  | scalar (.i32 x) => if 0 ≤ x.toInt then some x.toNat else none
  | scalar (.u32 x) => some x.toNat
  | _ => none

/-- An element of an array or a component of a vector by its index. -/
def element? : Datum → Datum → Option Datum
  | vector as, i => i.position?.bind fun k => as[k]?.map scalar
  | array elements, i => i.position?.bind fun k => elements[k]?
  | _, _ => none

/-! ## Operators -/

/-- An operation on each component. -/
def map (f : Scalar → Option Scalar) : Datum → Option Datum
  | scalar a => (f a).map scalar
  | vector as => (as.mapM f).map vector
  | _ => none

/-- An operation on components side by side; a scalar stands next to each component of a vector. -/
def zip (f : Scalar → Scalar → Option Scalar) : Datum → Datum → Option Datum
  | scalar a, scalar b => (f a b).map scalar
  | scalar a, vector bs => (bs.mapM (f a)).map vector
  | vector as, scalar b => (as.mapM (f · b)).map vector
  | vector as, vector bs =>
    if as.length = bs.length then ((as.zip bs).mapM fun p => f p.1 p.2).map vector else none
  | _, _ => none

end Datum

/-- A unary operator on values. -/
def UnaryOp.outcome? (op : UnaryOp) (d : Datum) : Option Datum := d.map (Scalar.unary op)

/-- A binary operator on values. Scalars and vectors are not compared with one another, and
conditions are scalars. -/
def BinaryOp.outcome? (op : BinaryOp) (l r : Datum) : Option Datum :=
  if op.isComparison && l.isScalar != r.isScalar || op.isLogical && !(l.isScalar && r.isScalar) then
    none
  else Datum.zip (Scalar.binary op) l r

/-- `&&` and `||` combine booleans. -/
theorem Scalar.bools_of_binary {op : BinaryOp} (hop : op.isLogical = true) {x y z : Scalar}
    (h : binary op x y = some z) : ∃ a b, x = bool a ∧ y = bool b := by
  cases op with
  | and | or =>
      cases x with
      | bool a =>
          cases y with
          | bool b => exact ⟨a, b, rfl, rfl⟩
          | i32 | u32 | float | exact => cases h
      | i32 | u32 | float | exact => cases y <;> cases h
  | _ => cases hop

/-- A scalar has one component. -/
theorem Datum.exists_of_isScalar {d : Datum} (h : d.isScalar = true) : ∃ a, d = scalar a := by
  cases d with
  | scalar a => exact ⟨a, rfl⟩
  | _ => cases h

/-! ## Constructors -/

/-- What builds values: a scalar or vector type, an array type or a struct. -/
inductive Maker where
  | primitive (type : PrimitiveType)
  | array (element : Maker) (length : Nat)
  | record (struct : String) (fields : List Word)

/-- The components of a scalar or vector type built from those of its parts: zero without any, one
repeated, or as many as it has. -/
def PrimitiveType.spread (p : PrimitiveType) : List Scalar → Option (List Scalar)
  | [] => some (List.replicate p.rows.toNat (Scalar.zero p.scalar))
  | [a] => some (List.replicate p.rows.toNat a)
  | as => if as.length = p.rows.toNat then some as else none

/-- A value of a scalar or vector type, its parts converted to the type of its components. -/
def PrimitiveType.make (p : PrimitiveType) (args : List Datum) : Option Datum := do
  let parts ← args.mapM Datum.components?
  let components ← p.spread parts.flatten
  Datum.ofComponents? (← components.mapM (Scalar.convert p.scalar))

/-- Build a value. -/
def Maker.make : Maker → List Datum → Option Datum
  | primitive p, args => p.make args
  | array _ n, args => if args.length = n then some (.array args) else none
  | record struct fields, args =>
    if args.length = fields.length && !args.isEmpty then some (.record struct (fields.zip args))
    else none

/-- The fields of records have words for names. -/
theorem Datum.isWord_of_field? {d v : Datum} {name : String} (h : d.field? name = some v) :
    isWord name = true := by
  cases d with
  | record struct fields =>
      obtain ⟨f, hf, -⟩ := Option.map_eq_some_iff.mp h
      have hname := List.find?_some hf
      rw [beq_iff_eq] at hname
      exact hname ▸ f.1.isWord
  | _ => cases h

/-- A member that can be read is a part. -/
theorem Datum.part?_of_field? {d v : Datum} {name : String} (h : d.field? name = some v) :
    d.part? name = some v := by
  cases d with
  | record => exact h
  | _ => cases h

/-- A record has a value for each of its fields. -/
theorem Maker.length_of_make {struct : String} {fields : List Word} {args : List Datum} {v : Datum}
    (h : (record struct fields).make args = some v) : args.length = fields.length := by
  rw [make] at h
  split at h
  · rename_i hlength
    simp only [Bool.and_eq_true, decide_eq_true_eq] at hlength
    exact hlength.1
  · cases h

/-- A mask that selects something is a name. -/
theorem Swizzle.isName_text {mask : Swizzle} (h : mask.components ≠ []) :
    isName mask.text = true := by
  have hstart : ∀ c, isNameStart (mask.letters.letter c) = true := by
    intro c
    cases mask.letters <;> cases c <;> decide
  have hrest : ∀ c, isNameRest (mask.letters.letter c) = true := by
    intro c
    cases mask.letters <;> cases c <;> decide
  obtain ⟨c, rest, hlist⟩ := List.exists_cons_of_ne_nil h
  rw [isName, text, String.toList_ofList, hlist, List.map_cons]
  simp only [hstart, Bool.true_and, List.all_map, List.all_eq_true, Function.comp_apply]
  exact fun c _ => hrest c

/-! ## Parts of what is computed by component -/

/-- The components of a mask are read off from its letters. -/
theorem Datum.selected?_text (mask : Swizzle) : selected? mask.text = some mask.components := by
  have hletters : (mask.components.map mask.letters.letter).mapM Component.ofLetter? =
      some (mask.components.map fun c => (c, mask.letters)) := by
    rw [mapM_eq_some_iff, List.forall₂_map_left_iff, List.forall₂_map_right_iff,
      List.forall₂_same]
    intro c _
    exact Component.ofLetter?_letter mask.letters c
  rw [selected?, Swizzle.text, String.toList_ofList, hletters]
  simp [Function.comp_def]

/-- A computed component is computed from the component at its place. -/
theorem getElem?_of_mapM {α β : Type} {f : α → Option β} {as : List α} {bs : List β}
    (h : as.mapM f = some bs) {k : Nat} {b : β} (hb : bs[k]? = some b) :
    ∃ a, as[k]? = some a ∧ f a = some b := by
  rw [mapM_eq_some_iff] at h
  induction h generalizing k with
  | nil => cases hb
  | cons ha _ ih =>
      cases k with
      | zero =>
          rw [List.getElem?_cons_zero, Option.some.injEq] at hb
          exact ⟨_, rfl, hb ▸ ha⟩
      | succ k => exact ih hb

/-- Computed components are computed from the components at their places. -/
theorem getElems?_of_mapM {α β γ : Type} {f : α → Option β} {as : List α} {bs : List β}
    (h : as.mapM f = some bs) {place : γ → Nat} {cs : List γ} {ys : List β}
    (hys : (cs.mapM fun c => bs[place c]?) = some ys) :
    ∃ xs, (cs.mapM fun c => as[place c]?) = some xs ∧ xs.mapM f = some ys := by
  simp only [mapM_eq_some_iff] at hys ⊢
  induction hys with
  | nil => exact ⟨[], List.Forall₂.nil, List.Forall₂.nil⟩
  | cons hy _ ih =>
      obtain ⟨x, hx, hfx⟩ := getElem?_of_mapM h hy
      obtain ⟨xs, hxs, hfxs⟩ := ih
      exact ⟨x :: xs, List.Forall₂.cons hx hxs, List.Forall₂.cons hfx hfxs⟩

namespace Datum

variable {f : Scalar → Option Scalar}

/-- What a mask selects is named by its letters, some of them. -/
theorem part?_of_select {as : List Scalar} {mask : Swizzle} {v : Datum}
    (h : select as mask.components = some v) :
    (vector as).part? mask.text = some v ∧ isName mask.text = true := by
  refine ⟨by rw [part?, selected?_text, Option.bind_some, h], Swizzle.isName_text fun hnil => ?_⟩
  rw [hnil] at h
  cases h

/-- What has been computed by component has components, and is a vector where its operand is one. -/
theorem components_of_map {d w : Datum} (h : d.map f = some w) :
    (w.isScalar = true ∨ w.isVector = true) ∧ w.isVector = d.isVector := by
  cases d with
  | scalar =>
      obtain ⟨_, -, rfl⟩ := Option.map_eq_some_iff.mp h
      exact ⟨Or.inl rfl, rfl⟩
  | vector =>
      obtain ⟨_, -, rfl⟩ := Option.map_eq_some_iff.mp h
      exact ⟨Or.inr rfl, rfl⟩
  | array | record => cases h

/-- What is made of computed components is computed from what is made of the components. -/
theorem ofComponents?_of_mapM {as bs : List Scalar} {v : Datum} (h : as.mapM f = some bs)
    (hv : ofComponents? bs = some v) : ∃ u, ofComponents? as = some u ∧ u.map f = some v := by
  have hlength : as.length = bs.length := (mapM_eq_some_iff.mp h).length_eq
  unfold ofComponents? at hv
  split at hv
  · obtain ⟨a, rfl⟩ := List.length_eq_one_iff.mp hlength
    refine ⟨scalar a, rfl, ?_⟩
    rw [mapM_eq_some_iff, List.forall₂_cons] at h
    rw [map, h.1, ← hv]
    rfl
  · obtain ⟨a, a', rfl⟩ := List.length_eq_two.mp hlength
    exact ⟨vector _, rfl, by rw [map, h, ← hv]; rfl⟩
  · obtain ⟨a, a', a'', rfl⟩ := List.length_eq_three.mp hlength
    exact ⟨vector _, rfl, by rw [map, h, ← hv]; rfl⟩
  · rcases as with _ | ⟨a, as⟩
    · cases hlength
    · obtain ⟨a', a'', a''', rfl⟩ := List.length_eq_three.mp (Nat.succ.inj hlength)
      exact ⟨vector _, rfl, by rw [map, h, ← hv]; rfl⟩
  · cases hv

/-- Components are selected before or after a function is applied to each. -/
theorem select_of_mapM {as bs : List Scalar} {selected : List Component} {v : Datum}
    (h : as.mapM f = some bs) (hv : select bs selected = some v) :
    ∃ u, select as selected = some u ∧ u.map f = some v := by
  obtain ⟨ys, hys, hv⟩ := Option.bind_eq_some_iff.mp hv
  obtain ⟨xs, hxs, hfxs⟩ := getElems?_of_mapM h hys
  obtain ⟨u, hu, huv⟩ := ofComponents?_of_mapM hfxs hv
  exact ⟨u, by rw [select, hxs, Option.bind_some, hu], huv⟩

/-- A part of what is computed by component is computed from that part. -/
theorem part?_of_map {d w v : Datum} {name : String} (hw : d.map f = some w)
    (hv : w.part? name = some v) : ∃ u, d.part? name = some u ∧ u.map f = some v := by
  cases d with
  | scalar a =>
      obtain ⟨b, -, rfl⟩ := Option.map_eq_some_iff.mp hw
      cases hv
  | vector as =>
      obtain ⟨bs, hbs, rfl⟩ := Option.map_eq_some_iff.mp hw
      obtain ⟨selected, hselected, hv⟩ := Option.bind_eq_some_iff.mp hv
      obtain ⟨u, hu, huv⟩ := select_of_mapM hbs hv
      exact ⟨u, by rw [part?, hselected, Option.bind_some, hu], huv⟩
  | array | record => cases hw

/-- An element of what is computed by component is computed from that element. -/
theorem element?_of_map {d w v i : Datum} (hw : d.map f = some w)
    (hv : w.element? i = some v) : ∃ u, d.element? i = some u ∧ u.map f = some v := by
  cases d with
  | scalar a =>
      obtain ⟨b, -, rfl⟩ := Option.map_eq_some_iff.mp hw
      cases hv
  | vector as =>
      obtain ⟨bs, hbs, rfl⟩ := Option.map_eq_some_iff.mp hw
      obtain ⟨k, hk, hv⟩ := Option.bind_eq_some_iff.mp hv
      obtain ⟨b, hb, rfl⟩ := Option.map_eq_some_iff.mp hv
      obtain ⟨a, ha, hab⟩ := getElem?_of_mapM hbs hb
      refine ⟨scalar a, ?_, by rw [map, hab, Option.map_some]⟩
      rw [element?, hk, Option.bind_some, ha, Option.map_some]
  | array | record => cases hw

end Datum

end WebShader
