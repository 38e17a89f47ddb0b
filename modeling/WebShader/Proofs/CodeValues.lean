import WebShader.Code.Printer
import WebShader.Proofs.TermValues

/-!
# Values of target code

What the text of an expression stands for once it is read back, from what the texts of its parts
stand for.
-/

namespace WebShader

namespace Code.Expr

open TextTree (ReadsWhole signed)

variable {τ : Type}

/-- The text of the expression, read back, stands for the value, whatever the text stands in. -/
def Means (target : Target) (names : Names) (d : Dialect τ) (e : Expr τ) (v : Datum) : Prop :=
  ∃ sign t, TextTree.Reads (!target.isGlsl) (e.text d) sign t ∧
    TextTree.value target names (signed sign t) = some v

variable {target : Target} {names : Names} {d : Dialect τ} {e e' : Expr τ} {u u' v : Datum}

/-- The text by itself stands for the value. -/
theorem Means.read (h : e.Means target names d v) : target.read names (e.text d) = some v := by
  obtain ⟨sign, t, hreads, hvalue⟩ := h
  rw [Target.read, hreads.whole.ofText?, Option.bind_some, hvalue]

/-- The text of code with a meaning is read whole, as a tree with its value. -/
theorem Means.readsWhole (h : e.Means target names d v) :
    ∃ t, ReadsWhole (!target.isGlsl) (e.text d) t ∧ TextTree.value target names t = some v := by
  obtain ⟨sign, t, hreads, hvalue⟩ := h
  exact ⟨_, hreads.whole, hvalue⟩

/-! ## Literals and places -/

/-- A boolean literal means its value. -/
theorem means_bool (b : Bool) :
    (literal (toString b)).Means target names d (.scalar (.bool b)) := by
  have hname : isName (toString b) = true := by cases b <;> decide
  exact ⟨none, .word (toString b), TextTree.reads_isName hname, TextTree.value_bool b⟩

/-- A number means the scalar it denotes. -/
theorem means_number {text : String} {a : Scalar} (h : target.number? text = some a) :
    (literal text).Means target names d (.scalar a) := by
  refine ⟨none, .number text, TextTree.reads_of_number? h, ?_⟩
  rw [signed, TextTree.value_number, h, Option.map_some]

/-- A number after a minus. -/
theorem means_negative {text : String} {a b : Scalar} (h : target.number? text = some a)
    (hb : Scalar.unary .neg a = some b) :
    (literal ("-" ++ text)).Means target names d (.scalar b) := by
  refine ⟨some .neg, .number text, TextTree.reads_negative_of_number? h, ?_⟩
  rw [signed, TextTree.value_unary, TextTree.value_number, h, Option.map_some, Option.bind_some,
    TextTree.unary?_eq (by simp), UnaryOp.outcome?, Datum.map, hb, Option.map_some]

/-- A signed integer, but for the least one, whose digits are out of range. -/
theorem means_signed {suffix : String} (hnumber : ∀ n : Nat, n < 2147483648 →
      target.number? (toString n ++ suffix) = some (.i32 (BitVec.ofInt 32 n)))
    {i : Int} (hlow : -2147483648 < i) (hhigh : i < 2147483648) :
    (literal (toString i ++ suffix)).Means target names d (.scalar (.i32 (BitVec.ofInt 32 i))) := by
  cases i with
  | ofNat n => exact means_number (hnumber n (Int.ofNat_lt.mp hhigh))
  | negSucc n =>
      have hneg : Scalar.unary .neg (.i32 (BitVec.ofInt 32 (n + 1 : Nat))) =
          some (.i32 (BitVec.ofInt 32 (Int.negSucc n))) := by
        rw [Scalar.unary, ← BitVec.ofInt_neg]
        rfl
      rw [show toString (Int.negSucc n) = "-" ++ toString (n + 1) from rfl, String.append_assoc]
      exact means_negative (hnumber (n + 1) (by omega)) hneg

/-- A word, a field of a word or an element of one stands for what it is said to. -/
theorem means_place (h : names.place? target e = some v) : e.Means target names d v := by
  unfold Names.place? at h
  split at h
  · rename_i w
    have hw := names.isWord_of_var w v h
    exact ⟨none, .word w, TextTree.reads_isName (isName_of_isWord hw), by
      rw [signed, TextTree.value_word hw, h]⟩
  · rename_i w part
    obtain ⟨u, hu, hv⟩ := Option.bind_eq_some_iff.mp h
    have hw := names.isWord_of_var w u hu
    have hpart := Datum.isWord_of_field? hv
    refine ⟨none, .field (.word w) part,
      (TextTree.reads_isName (isName_of_isWord hw)).field rfl (isName_of_isWord hpart), ?_⟩
    exact TextTree.value_field (TextTree.value_word hw ▸ hu) (Datum.part?_of_field? hv)
  · rename_i w i
    obtain ⟨u, hu, h⟩ := Option.bind_eq_some_iff.mp h
    obtain ⟨k, hk, hv⟩ := Option.bind_eq_some_iff.mp h
    have hw := names.isWord_of_var w u hu
    have hi : TextTree.value target names (.number i) = some (.scalar k) := by
      rw [TextTree.value_number, hk, Option.map_some]
    refine ⟨none, .index (.word w) (.number i), (TextTree.reads_isName (isName_of_isWord hw)).index
      (TextTree.reads_of_number? hk).whole, ?_⟩
    exact TextTree.value_index (TextTree.value_word hw ▸ hu) hi hv
  · cases h

/-! ## Accesses -/

/-- A part of a value, which is no scalar. -/
theorem Means.field (h : e.Means target names d u) {name : String} (hname : isName name = true)
    (hv : u.part? name = some v) : (field e name).Means target names d v := by
  obtain ⟨sign, t, hreads, hvalue⟩ := h
  have hscalar : u.isScalar = false := by
    cases u with
    | scalar => cases hv
    | _ => rfl
  exact ⟨sign, .field t name, hreads.field (TextTree.isNumber_of_value hvalue hscalar) hname,
    TextTree.value_field hvalue hv⟩

/-- An element of what the code means. -/
theorem Means.index (h : e.Means target names d u) (h' : e'.Means target names d u')
    (hv : u.element? u' = some v) : (index e e').Means target names d v := by
  obtain ⟨sign, t, hreads, hvalue⟩ := h
  obtain ⟨t', hreads', hvalue'⟩ := h'.readsWhole
  exact ⟨sign, .index t t', hreads.index hreads', TextTree.value_index hvalue hvalue' hv⟩

/-! ## Operators -/

/-- An operator is applied to what its operand means. -/
theorem Means.unary {op : UnaryOp} (h : e.Means target names d u)
    (hv : target.unary? op u = some v) : (unary op e).Means target names d v := by
  obtain ⟨t, hreads, hvalue⟩ := h.readsWhole
  refine ⟨some op, .group t, hreads.unary op, ?_⟩
  rw [signed, TextTree.value_unary, TextTree.value_group, hvalue, Option.bind_some, hv]

/-- An operator is applied to what its operands mean. -/
theorem Means.binary {op : BinaryOp} (h : e.Means target names d u)
    (h' : e'.Means target names d u') (hv : target.binary? op u u' = some v) :
    (binary op e e').Means target names d v := by
  obtain ⟨t, hreads, hvalue⟩ := h.readsWhole
  obtain ⟨t', hreads', hvalue'⟩ := h'.readsWhole
  refine ⟨none, .group (.binary op t t'), hreads.binary op hreads', ?_⟩
  rw [signed, TextTree.value_group, TextTree.value_binary hvalue hvalue' hv]

/-! ## Applications -/

/-- The text of what is applied, read back, is a tree that gives the value when it is applied. -/
def Applies (target : Target) (names : Names) (d : Dialect τ) (callee : Callee τ)
    (args : List Datum) (v : Datum) : Prop :=
  ∃ f, TextTree.Reads (!target.isGlsl) (callee.text d) none f ∧
    TextTree.apply target names f args = some v

/-- The texts of arguments are read as trees with their values. -/
theorem exists_trees {args : List (Expr τ)} {us : List Datum}
    (h : List.Forall₂ (Means target names d) args us) :
    ∃ ts, List.Forall₂ (ReadsWhole (!target.isGlsl)) (texts d args) ts ∧
      TextTree.values target names ts = some us := by
  induction h with
  | nil =>
      exact ⟨[], .nil, rfl⟩
  | cons h _ ih =>
      obtain ⟨t, hreads, hvalue⟩ := h.readsWhole
      obtain ⟨ts, hrest, hvalues⟩ := ih
      refine ⟨t :: ts, .cons hreads hrest, ?_⟩
      rw [TextTree.values_cons, hvalue, hvalues, Option.bind_some, Option.map_some]

/-- A call is applied to what its arguments mean. -/
theorem means_apply {callee : Callee τ} {args : List (Expr τ)} {us : List Datum}
    (hargs : List.Forall₂ (Means target names d) args us)
    (h : Applies target names d callee us v) : (apply callee args).Means target names d v := by
  obtain ⟨f, hf, happly⟩ := h
  obtain ⟨ts, hreads, hvalues⟩ := exists_trees hargs
  refine ⟨none, .call f ts, hf.call hreads, ?_⟩
  rw [signed, TextTree.value_call, hvalues, Option.bind_some, happly]

/-- A built-in function is applied as such, whatever the names of the program. -/
theorem applies_builtin {name : String} {g : List Datum → Option Datum} {us : List Datum}
    (hname : isName name = true) (hg : target.builtin? name = some g) (hv : g us = some v) :
    Applies target names d (.builtin name) us v := by
  refine ⟨.word name, TextTree.reads_isName hname, ?_⟩
  rw [TextTree.apply, TextTree.builtin?, hg]
  exact hv

/-- A function of the program that no type or built-in function hides. -/
theorem applies_function {name : String} {us : List Datum}
    (hbuiltin : target.builtin? name = none) (hprimitive : target.primitiveNamed? name = none)
    (hstruct : names.struct name = none) (hv : names.function name us = some v) :
    Applies target names d (.function name) us v := by
  have hname := isName_of_isWord (names.isWord_of_function name us v hv)
  refine ⟨.word name, TextTree.reads_isName hname, ?_⟩
  rw [TextTree.apply, TextTree.builtin?, hbuiltin, TextTree.maker?, hprimitive, hstruct]
  exact hv

end Code.Expr

end WebShader
