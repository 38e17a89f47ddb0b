import Mathlib.Tactic.IntervalCases
import WebShader.Proofs.TextReading
import WebShader.Target

/-!
# Meaning of text

What an expression that has been read stands for on a target, given what its words stand for. In
GLSL ES vectors are compared as a whole by `==`, and component by component by functions; WGSL has
literals without a type.
-/

namespace WebShader

/-! ## Names -/

/-- What words stand for: variables, structs with their fields, and functions. -/
structure Names where
  var : String → Option Datum
  struct : String → Option (List Word)
  function : String → List Datum → Option Datum
  isWord_of_var : ∀ name d, var name = some d → isWord name = true
  isWord_of_struct : ∀ name fields, struct name = some fields → isWord name = true
  isWord_of_function : ∀ name args d, function name args = some d → isWord name = true

/-! ## Numbers -/

/-- The natural number that digits stand for; only zero starts with a zero. -/
def decimal? (digits : List Char) : Option Nat :=
  if digits.isEmpty || !digits.all Char.isDigit || digits.head? = some '0' && digits.length > 1 then
    none
  else some (Nat.ofDigitChars 10 digits 0)

namespace Target

/-- What a number stands for; a letter after the digits gives it a type. -/
def number? (target : Target) (text : String) : Option Scalar :=
  match text.toList.getLast? with
  | some 'u' => (decimal? text.toList.dropLast).bind Scalar.ofNat?
  | some 'i' =>
    if target.isGlsl then none
    else (decimal? text.toList.dropLast).bind fun n => Scalar.ofInt? n
  | _ =>
    (decimal? text.toList).bind fun n =>
      if target.isGlsl then Scalar.ofInt? n else some (.exact n)

/-! ## Operators -/

/-- A unary operator. In GLSL ES `!` is for scalars only. -/
def unary? (target : Target) (op : UnaryOp) (d : Datum) : Option Datum :=
  if target.isGlsl && op = .not && d.isVector then none else op.outcome? d

/-- Whether two vectors of one length are equal, or not. -/
def compareWhole? (op : BinaryOp) : Datum → Datum → Option Datum
  | .vector as, .vector bs =>
    if as.length = bs.length then
      match op with
      | .eq => some (.scalar (.bool (as = bs)))
      | .ne => some (.scalar (.bool (as ≠ bs)))
      | _ => none
    else none
  | _, _ => none

/-- Whether some component of a value is a float. -/
def hasFloat (d : Datum) : Bool :=
  (d.components?.getD []).any fun a => a.isOf .f32

/-- A binary operator, its operands evaluated. In GLSL ES comparisons are for scalars, save that
vectors can be tested for equality as a whole, floats have no remainder, and in GLSL ES 1.00 neither
do integers. -/
def binary? (target : Target) (op : BinaryOp) (l r : Datum) : Option Datum :=
  if target.isGlsl then
    if op.isComparison && l.isVector then compareWhole? op l r
    else if op = .rem && (target = .webGL || hasFloat l) then none
    else op.outcome? l r
  else op.outcome? l r

/-! ## Types and functions -/

/-- The scalar or vector type of a word of GLSL ES. -/
def glslPrimitive? : String → Option PrimitiveType
  | "bool" => some (.ofScalar .bool)
  | "int" => some (.ofScalar .i32)
  | "uint" => some (.ofScalar .u32)
  | "float" => some (.ofScalar .f32)
  | "bvec2" => some (.vector .bool 2)
  | "bvec3" => some (.vector .bool 3)
  | "bvec4" => some (.vector .bool 4)
  | "ivec2" => some (.vector .i32 2)
  | "ivec3" => some (.vector .i32 3)
  | "ivec4" => some (.vector .i32 4)
  | "uvec2" => some (.vector .u32 2)
  | "uvec3" => some (.vector .u32 3)
  | "uvec4" => some (.vector .u32 4)
  | "vec2" => some (.vector .f32 2)
  | "vec3" => some (.vector .f32 3)
  | "vec4" => some (.vector .f32 4)
  | _ => none

/-- The scalar type of a word of WGSL. -/
def wgslScalar? : String → Option PrimitiveType
  | "bool" => some (.ofScalar .bool)
  | "i32" => some (.ofScalar .i32)
  | "u32" => some (.ofScalar .u32)
  | "f32" => some (.ofScalar .f32)
  | _ => none

/-- The scalar or vector type of a word. In WGSL the component type of a vector follows in angle
brackets. -/
def primitiveNamed? (target : Target) (w : String) : Option PrimitiveType :=
  if target.isGlsl then glslPrimitive? w else wgslScalar? w

/-- The number of components of the WGSL vectors of a word. -/
def vectorSize? : String → Option UInt8
  | "vec2" => some 2
  | "vec3" => some 3
  | "vec4" => some 4
  | _ => none

/-- A function of GLSL ES that compares vectors component by component. -/
def compareVectors (op : BinaryOp) : List Datum → Option Datum
  | [.vector as, .vector bs] => op.outcome? (.vector as) (.vector bs)
  | _ => none

/-- The function `not` of GLSL ES. -/
def notVector : List Datum → Option Datum
  | [.vector as] => UnaryOp.not.outcome? (.vector as)
  | _ => none

/-- The remainder of floats rounded toward minus infinity: `x - y * floor(x / y)`. -/
def floored : Scalar → Scalar → Option Scalar
  | .float x, .float y => if y = 0 then none else some (.float (x - y * ⌊x / y⌋))
  | _, _ => none

/-- The function `mod` of GLSL ES. -/
def modFloats : List Datum → Option Datum
  | [l, r] => l.zip floored r
  | _ => none

/-- The functions of GLSL ES that operators are spelled by. -/
def glslFunction? : String → Option (List Datum → Option Datum)
  | "equal" => some (compareVectors .eq)
  | "notEqual" => some (compareVectors .ne)
  | "lessThan" => some (compareVectors .lt)
  | "lessThanEqual" => some (compareVectors .le)
  | "greaterThan" => some (compareVectors .gt)
  | "greaterThanEqual" => some (compareVectors .ge)
  | "not" => some notVector
  | "mod" => some modFloats
  | _ => none

/-- The built-in function of a name. -/
def builtin? (target : Target) (name : String) : Option (List Datum → Option Datum) :=
  if target.isGlsl then glslFunction? name else none

end Target

/-! ## Trees -/

namespace TextTree

variable (target : Target) (names : Names)

/-- The built-in function that an expression names. -/
def builtin? : TextTree → Option (List Datum → Option Datum)
  | word w => target.builtin? w
  | _ => none

/-- The type that an expression names. The length of a GLSL ES array follows its element type in
square brackets, and its elements are no arrays; in WGSL both stand in angle brackets. -/
def maker? : TextTree → Option Maker
  | word w =>
    match target.primitiveNamed? w with
    | some p => some (.primitive p)
    | none => (names.struct w).map (.record w)
  | index t (number n) =>
    if target.isGlsl then
      match t with
      | index _ _ => none
      | _ => (maker? t).bind fun element => (decimal? n.toList).map (.array element)
    else none
  | template w [word k] =>
    if target.isGlsl then none
    else (Target.vectorSize? w).bind fun size =>
      (target.primitiveNamed? k).map fun p => .primitive (.vector p.scalar size)
  | template "array" [t, number n] =>
    if target.isGlsl then none
    else (maker? t).bind fun element => (decimal? n.toList).map (.array element)
  | _ => none

/-- A built-in function, a type or a function of the program applied to values. Constructors of
GLSL ES need arguments. -/
def apply (f : TextTree) (args : List Datum) : Option Datum :=
  match f.builtin? target with
  | some g => g args
  | none =>
    match f.maker? target names with
    | some m => if target.isGlsl && args.isEmpty then none else m.make args
    | none =>
      match f with
      | word w => names.function w args
      | _ => none

/-- A condition. -/
def condition? : Datum → Option Bool
  | .scalar (.bool b) => some b
  | _ => none

mutual

/-- What a tree stands for. The right operand of `&&` and `||` is evaluated only where it
matters. -/
def value : TextTree → Option Datum
  | word w =>
    if w = "true" then some (.scalar (.bool true))
    else if w = "false" then some (.scalar (.bool false))
    else names.var w
  | number n => (target.number? n).map .scalar
  | group t => value t
  | field t name => (value t).bind (·.part? name)
  | index t i => (value t).bind fun d => (value i).bind d.element?
  | unary op t => (value t).bind (target.unary? op)
  | binary op l r =>
    match op with
    | .and =>
      ((value l).bind condition?).bind fun b =>
        if b then ((value r).bind condition?).map (.scalar <| .bool ·)
        else some (.scalar (.bool false))
    | .or =>
      ((value l).bind condition?).bind fun b =>
        if b then some (.scalar (.bool true))
        else ((value r).bind condition?).map (.scalar <| .bool ·)
    | op => (value l).bind fun d => (value r).bind (target.binary? op d)
  | call f args => (values args).bind (apply target names f)
  | template _ _ => none
termination_by structural t => t

/-- What several trees stand for. -/
def values : List TextTree → Option (List Datum)
  | [] => some []
  | t :: rest => (value t).bind fun d => (values rest).map (d :: ·)
termination_by structural ts => ts

end

end TextTree

/-- What a text stands for on a target, if it is an expression that stands for something. -/
def Target.read (target : Target) (names : Names) (text : String) : Option Datum :=
  (TextTree.ofText? (!target.isGlsl) text).bind (TextTree.value target names)

/-! ## Decimals -/

/-- The digits of a positive number do not start with a zero. -/
theorem head?_toDigits {n : Nat} (hn : 0 < n) : (Nat.toDigits 10 n).head? ≠ some '0' := by
  induction n using Nat.strongRecOn with
  | ind n ih =>
      rcases Nat.lt_or_ge n 10 with hlt | hge
      · rw [Nat.toDigits_of_lt_base hlt]
        interval_cases n <;> decide
      · rw [Nat.toDigits_of_base_le (by decide) hge,
          List.head?_append_of_ne_nil _ Nat.toDigits_ne_nil]
        exact ih (n / 10) (by omega) (by omega)

/-- Digits stand for the number that they spell. -/
theorem decimal?_toDigits (n : Nat) : decimal? (Nat.toDigits 10 n) = some n := by
  have hall : (Nat.toDigits 10 n).all Char.isDigit = true := by
    rw [List.all_eq_true]
    exact fun c hc => Nat.isDigit_of_mem_toDigits (by decide) (by decide) hc
  have hzero : ((Nat.toDigits 10 n).head? = some '0' &&
      decide ((Nat.toDigits 10 n).length > 1)) = false := by
    rcases Nat.eq_zero_or_pos n with rfl | hn
    · rfl
    · simp [head?_toDigits hn]
  have hnil : (Nat.toDigits 10 n).isEmpty = false := by
    rw [List.isEmpty_eq_false_iff]
    exact Nat.toDigits_ne_nil
  rw [decimal?, hnil, hall, hzero]
  simp [Nat.ofDigitChars_toDigits]

/-- A natural number is read back from its digits. -/
theorem decimal?_toString (n : Nat) : decimal? (toString n).toList = some n := by
  rw [show (toString n).toList = Nat.toDigits 10 n from Nat.toList_repr, decimal?_toDigits]

/-- What is read as a number is made of digits. -/
theorem exists_of_decimal? {digits : List Char} {n : Nat} (h : decimal? digits = some n) :
    ∃ c more, digits = c :: more ∧ c.isDigit = true ∧ more.all Char.isDigit = true := by
  unfold decimal? at h
  split at h
  · cases h
  · rename_i hguard
    cases digits with
    | nil => exact absurd rfl hguard
    | cons c more =>
        simp only [List.isEmpty_cons, Bool.false_or, Bool.or_eq_true, not_or, Bool.not_eq_true,
          Bool.not_eq_false', List.all_cons, Bool.and_eq_true] at hguard
        exact ⟨c, more, rfl, hguard.1.1, hguard.1.2⟩

/-- A name can go on with digits. -/
theorem all_isNameRest_of_isDigit {digits : List Char} (h : digits.all Char.isDigit = true) :
    digits.all isNameRest = true := by
  rw [List.all_eq_true] at h ⊢
  intro c hc
  simp [isNameRest, Char.isAlphanum, h c hc]

namespace Target

/-- An unsigned literal denotes its number. -/
theorem number?_unsigned (target : Target) (n : Nat) :
    target.number? (toString n ++ "u") = Scalar.ofNat? n := by
  have htext : (toString n ++ "u").toList = Nat.toDigits 10 n ++ ['u'] := by
    rw [String.toList_append, show (toString n).toList = Nat.toDigits 10 n from Nat.toList_repr]
    rfl
  rw [number?, htext, List.getLast?_append]
  simp [decimal?_toDigits]

/-- A signed literal of WGSL denotes its number. -/
theorem number?_signed {target : Target} (h : target.isGlsl = false) (n : Nat) :
    target.number? (toString n ++ "i") = Scalar.ofInt? n := by
  have htext : (toString n ++ "i").toList = Nat.toDigits 10 n ++ ['i'] := by
    rw [String.toList_append, show (toString n).toList = Nat.toDigits 10 n from Nat.toList_repr]
    rfl
  rw [number?, htext, List.dropLast_concat, decimal?_toDigits, h, if_neg Bool.false_ne_true]
  have hlast : (Nat.toDigits 10 n ++ ['i']).getLast? = some 'i' := by simp
  split
  case h_1 hu =>
    rw [hlast] at hu
    exact absurd hu (by decide)
  case h_2 => rw [Option.bind_some]
  case h_3 _ hi => exact absurd hlast hi

/-- Digits alone are an integer in GLSL ES, and a number of any kind in WGSL. -/
theorem number?_digits (target : Target) (n : Nat) :
    target.number? (toString n) = if target.isGlsl then Scalar.ofInt? n else some (.exact n) := by
  rw [number?, show (toString n).toList = Nat.toDigits 10 n from Nat.toList_repr]
  have hlast : ∀ c, (Nat.toDigits 10 n).getLast? = some c → c.isDigit = true := fun c hc =>
    Nat.isDigit_of_mem_toDigits (by decide) (by decide) (List.mem_of_getLast? hc)
  split
  case h_1 h => exact absurd (hlast _ h) (by decide)
  case h_2 h => exact absurd (hlast _ h) (by decide)
  case h_3 => rw [decimal?_toDigits, Option.bind_some]

/-- What is a number starts with a digit, and goes on with digits and letters. -/
theorem exists_of_number? {target : Target} {text : String} {a : Scalar}
    (h : target.number? text = some a) :
    ∃ c more, text.toList = c :: more ∧ c.isDigit = true ∧ more.all isNameRest = true := by
  have hsuffix : ∀ x n, isNameRest x = true → text.toList.getLast? = some x →
      decimal? text.toList.dropLast = some n →
      ∃ c more, text.toList = c :: more ∧ c.isDigit = true ∧ more.all isNameRest = true := by
    intro x n hx hlast hn
    obtain ⟨c, more, hlist, hc, hmore⟩ := exists_of_decimal? hn
    refine ⟨c, more ++ [x], ?_, hc, ?_⟩
    · rw [← List.dropLast_append_getLast? x hlast, hlist, List.cons_append]
    · rw [List.all_append, all_isNameRest_of_isDigit hmore, List.all_cons, hx]
      rfl
  unfold number? at h
  split at h
  · rename_i hlast
    obtain ⟨n, hn, -⟩ := Option.bind_eq_some_iff.mp h
    exact hsuffix _ n (by decide) hlast hn
  · rename_i hlast
    split at h
    · cases h
    · obtain ⟨n, hn, -⟩ := Option.bind_eq_some_iff.mp h
      exact hsuffix _ n (by decide) hlast hn
  · obtain ⟨n, hn, -⟩ := Option.bind_eq_some_iff.mp h
    obtain ⟨c, more, hlist, hc, hmore⟩ := exists_of_decimal? hn
    exact ⟨c, more, hlist, hc, all_isNameRest_of_isDigit hmore⟩

end Target

/-- A natural number is read as a number. -/
theorem TextTree.reads_nat {templates : Bool} (n : Nat) :
    Reads templates (toString n) none (.number (toString n)) := by
  obtain ⟨c, more, hlist, hc, hmore⟩ := exists_of_decimal? (decimal?_toString n)
  exact reads_number hlist hc (all_isNameRest_of_isDigit hmore)

/-- What is a number is read as one. -/
theorem TextTree.reads_of_number? {templates : Bool} {target : Target} {text : String} {a : Scalar}
    (h : target.number? text = some a) : Reads templates text none (.number text) := by
  obtain ⟨c, more, hlist, hc, hmore⟩ := Target.exists_of_number? h
  exact reads_number hlist hc hmore

/-- A number after a minus is read as one with a sign. -/
theorem TextTree.reads_negative_of_number? {templates : Bool} {target : Target} {text : String}
    {a : Scalar} (h : target.number? text = some a) :
    Reads templates ("-" ++ text) (some .neg) (.number text) := by
  obtain ⟨c, more, hlist, hc, hmore⟩ := Target.exists_of_number? h
  exact reads_negative hlist hc hmore

/-! ## Values -/

namespace TextTree

variable {target : Target} {names : Names}

/-- The value of a number. -/
theorem value_number (n : String) :
    value target names (.number n) = (target.number? n).map .scalar := rfl

/-- Parentheses do not change a value. -/
theorem value_group (t : TextTree) : value target names (.group t) = value target names t := rfl

/-- The value of an operator with one operand. -/
theorem value_unary (op : UnaryOp) (t : TextTree) :
    value target names (.unary op t) = (value target names t).bind (target.unary? op) := rfl

/-- The value of a call. -/
theorem value_call (f : TextTree) (args : List TextTree) :
    value target names (.call f args) =
      (values target names args).bind (apply target names f) := rfl

/-- The values of arguments are those of each. -/
theorem values_cons (t : TextTree) (ts : List TextTree) :
    values target names (t :: ts) =
      (value target names t).bind fun d => (values target names ts).map (d :: ·) := rfl

/-- The value of a name. -/
theorem value_word {w : String} (hw : isWord w = true) :
    value target names (.word w) = names.var w := by
  simp only [isWord, Bool.and_eq_true, bne_iff_ne] at hw
  exact (if_neg hw.1.2).trans (if_neg hw.2)

/-- The value of a boolean literal. -/
theorem value_bool (b : Bool) :
    value target names (.word (toString b)) = some (.scalar (.bool b)) := by
  cases b <;> rfl

/-- A sign on values is an operation by component, on scalars at least. -/
theorem outcome?_of_unary? {op : UnaryOp} {d w : Datum} (h : target.unary? op d = some w) :
    op.outcome? d = some w := by
  unfold Target.unary? at h
  split at h
  · cases h
  · exact h

/-- The text of an operator with one operand means what the operator does. -/
theorem unary?_eq {op : UnaryOp} {d : Datum}
    (h : (target.isGlsl && op = .not && d.isVector) = false) :
    target.unary? op d = op.outcome? d := by
  rw [Target.unary?, h]
  rfl

/-- A sign that applies to a vector applies to what is taken out of it. -/
theorem unary?_of_isVector {op : UnaryOp} {d w u v : Datum} (h : target.unary? op d = some w)
    (hd : d.isVector = true) (hu : op.outcome? u = some v) : target.unary? op u = some v := by
  rw [← hu]
  apply unary?_eq
  unfold Target.unary? at h
  split at h
  · cases h
  · rename_i hguard
    rw [hd, Bool.and_true] at hguard
    simp [hguard]

/-- The sign before what is accessed may be applied to the part. -/
theorem value_access (access : Datum → Option Datum) (hscalar : ∀ a, access (.scalar a) = none)
    (hmap : ∀ f d w v, Datum.map f d = some w → access w = some v →
      ∃ u, access d = some u ∧ u.map f = some v) {sign : Option UnaryOp} {t t' : TextTree}
      {d v : Datum}
    (ht' : value target names t' = (value target names t).bind access)
    (hd : value target names (signed sign t) = some d) (hv : access d = some v) :
    value target names (signed sign t') = some v := by
  cases sign with
  | none =>
      rw [signed] at hd ⊢
      rw [ht', hd, Option.bind_some, hv]
  | some op =>
      rw [signed, value_unary] at hd
      obtain ⟨e, he, hd⟩ := Option.bind_eq_some_iff.mp hd
      have happly : e.map (Scalar.unary op) = some d := outcome?_of_unary? hd
      obtain ⟨u, hu, huv⟩ := hmap _ _ _ _ happly hv
      have hvector : e.isVector = true := by
        cases e with
        | vector => rfl
        | scalar =>
            rw [hscalar] at hu
            cases hu
        | array | record => cases happly
      rw [signed, value_unary, ht', he, Option.bind_some, hu, Option.bind_some]
      exact unary?_of_isVector hd hvector huv

/-- The value of a part. -/
theorem value_field {sign : Option UnaryOp} {t : TextTree} {name : String} {d v : Datum}
    (hd : value target names (signed sign t) = some d) (hv : d.part? name = some v) :
    value target names (signed sign (.field t name)) = some v :=
  value_access (·.part? name) (fun _ => rfl) (fun _ _ _ _ => Datum.part?_of_map) rfl hd hv

/-- The value of an element. -/
theorem value_index {sign : Option UnaryOp} {t i : TextTree} {d e v : Datum}
    (hd : value target names (signed sign t) = some d) (he : value target names i = some e)
    (hv : d.element? e = some v) : value target names (signed sign (.index t i)) = some v := by
  refine value_access (·.element? e) (fun _ => rfl) (fun _ _ _ _ => Datum.element?_of_map) ?_ hd hv
  show ((value target names t).bind fun d => (value target names i).bind d.element?) = _
  rw [he]
  rfl

/-- A number is a scalar, with or without a sign. -/
theorem isNumber_of_value {sign : Option UnaryOp} {t : TextTree} {d : Datum}
    (h : value target names (signed sign t) = some d) (hd : d.isScalar = false) :
    t.isNumber = false := by
  cases t with
  | number n =>
      exfalso
      cases sign with
      | none =>
          obtain ⟨a, -, rfl⟩ := Option.map_eq_some_iff.mp h
          cases hd
      | some op =>
          obtain ⟨e, he, h⟩ := Option.bind_eq_some_iff.mp h
          obtain ⟨a, -, rfl⟩ := Option.map_eq_some_iff.mp he
          obtain ⟨b, -, rfl⟩ := Option.map_eq_some_iff.mp (outcome?_of_unary? h)
          cases hd
  | _ => rfl

/-- A logical operator means what it does. -/
theorem binary?_of_isLogical {op : BinaryOp} (h : op.isLogical = true) (d e : Datum) :
    target.binary? op d e = op.outcome? d e := by
  unfold Target.binary?
  cases op with
  | and | or => simp [BinaryOp.isComparison]
  | _ => cases h

/-- Two conditions combined are two booleans. -/
theorem bools_of_outcome? {op : BinaryOp} (hop : op.isLogical = true) {d e v : Datum}
    (h : op.outcome? d e = some v) : ∃ a b, d = .scalar (.bool a) ∧ e = .scalar (.bool b) ∧
      (Scalar.ofBools a b op).map .scalar = some v := by
  unfold BinaryOp.outcome? at h
  split at h
  · cases h
  · rename_i hguard
    simp only [hop, Bool.true_and, Bool.or_eq_true, not_or, Bool.not_eq_true, Bool.not_eq_false',
      Bool.and_eq_true] at hguard
    obtain ⟨-, hd, he⟩ := hguard
    obtain ⟨x, rfl⟩ := Datum.exists_of_isScalar hd
    obtain ⟨y, rfl⟩ := Datum.exists_of_isScalar he
    obtain ⟨z, hz, rfl⟩ := Option.map_eq_some_iff.mp h
    obtain ⟨a, b, rfl, rfl⟩ := Scalar.bools_of_binary hop hz
    exact ⟨a, b, rfl, rfl, h⟩

/-- The value of an operator with two operands. -/
theorem value_binary {op : BinaryOp} {l r : TextTree} {d e v : Datum}
    (hd : value target names l = some d) (he : value target names r = some e)
    (h : target.binary? op d e = some v) : value target names (.binary op l r) = some v := by
  cases op with
  | and | or =>
      have happly := (binary?_of_isLogical rfl d e).symm.trans h
      obtain ⟨a, b, rfl, rfl, hab⟩ := bools_of_outcome? rfl happly
      rw [value, hd, he, ← hab]
      cases a <;> cases b <;> rfl
  | _ =>
      show ((value target names l).bind fun d => (value target names r).bind (target.binary? _ d)) =
        some v
      rw [hd, he]
      exact h

/-- A type is applied as such, if no built-in function hides it. -/
theorem apply_of_maker? {f : TextTree} {m : Maker} {args : List Datum}
    (hbuiltin : f.builtin? target = none) (hm : f.maker? target names = some m)
    (hargs : (target.isGlsl && args.isEmpty) = false) :
    apply target names f args = m.make args := by
  unfold apply
  rw [hbuiltin, hm]
  simp [hargs]

end TextTree

end WebShader
