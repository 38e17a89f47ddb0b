import WebShader.Proofs.AcceptedArguments

/-!
# The order of operands

Which of two operands comes first does not matter to a commutative operator: it applies in one order
exactly if it applies in the other, with the same result. Two host values, where the second takes
the type of the first, are a case of their own. Their types agree in either order, unless one of
them is an integer that only an unsigned type holds and the other an integer that both types hold.
-/

namespace WebShader

/-! ## Types of results -/

/-- The operators whose operands may change places. -/
def BinaryOp.isCommutative : BinaryOp → Bool
  | add | mul | eq | ne | and | or | bitAnd | bitOr | bitXor => true
  | _ => false

/-- Whether the product of two types depends on their order: one is a matrix, none is a scalar. -/
def PrimitiveType.isMatrixPair (p q : PrimitiveType) : Bool :=
  (p.isMatrix || q.isMatrix) && !p.isScalar && !q.isScalar

/-- Two matrices are a pair in either order. -/
theorem PrimitiveType.isMatrixPair_comm (p q : PrimitiveType) :
    p.isMatrixPair q = q.isMatrixPair p := by
  rw [isMatrixPair, isMatrixPair, Bool.or_comm, Bool.and_right_comm]

/-- A scalar is no vector. -/
theorem PrimitiveType.not_isVector_of_isScalar {p : PrimitiveType} (h : p.isScalar = true) :
    p.isVector = false := by
  rw [eq_ofScalar_of_isScalar h]
  rfl

/-- A scalar is no matrix. -/
theorem PrimitiveType.not_isMatrix_of_isScalar {p : PrimitiveType} (h : p.isScalar = true) :
    p.isMatrix = false := by
  rw [eq_ofScalar_of_isScalar h]
  rfl

namespace BinaryOp

variable {op : BinaryOp} {p q result : PrimitiveType}

/-- An operation by component has one type in either order. -/
theorem componentwise?_comm (p q : PrimitiveType) : componentwise? p q = componentwise? q p := by
  unfold componentwise?
  by_cases hpq : p = q
  · rw [hpq]
  · rw [if_neg hpq, if_neg (Ne.symm hpq)]
    by_cases hp : p.isScalar = true
    · have hvector := PrimitiveType.not_isVector_of_isScalar hp
      simp [hp, hvector]
    · -- the other operand is the scalar, if one of them is
      rw [Bool.not_eq_true] at hp
      rw [hp, Bool.and_comm q.isScalar]
      simp

/-- A matrix may be scaled from either side. -/
theorem matrixProduct?_comm (hpair : p.isMatrixPair q = false)
    (hmatrix : (p.isMatrix || q.isMatrix) = true) : matrixProduct? p q = matrixProduct? q p := by
  have hscaled : ∀ {p q : PrimitiveType}, p.isScalar = true → q.isMatrix = true →
      matrixProduct? p q = some q ∧ matrixProduct? q p = some q := by
    intro p q hp hq
    have hvector := PrimitiveType.not_isVector_of_isScalar hp
    have hmatrix := PrimitiveType.not_isMatrix_of_isScalar hp
    simp [matrixProduct?, hp, hq, hvector, hmatrix]
  rw [PrimitiveType.isMatrixPair, hmatrix, Bool.true_and, Bool.and_eq_false_iff,
    Bool.not_eq_false', Bool.not_eq_false'] at hpair
  rcases hpair with hp | hq
  · have hq : q.isMatrix = true := by
      rwa [PrimitiveType.not_isMatrix_of_isScalar hp, Bool.false_or] at hmatrix
    rw [(hscaled hp hq).1, (hscaled hp hq).2]
  · have hp : p.isMatrix = true := by
      rwa [PrimitiveType.not_isMatrix_of_isScalar hq, Bool.or_false] at hmatrix
    rw [(hscaled hq hp).1, (hscaled hq hp).2]

/-- The result of a commutative operator does not depend on the order of the operand types. -/
theorem result?_comm (hop : op.isCommutative = true)
    (hproduct : op = .mul → p.isMatrixPair q = false) : op.result? p q = op.result? q p := by
  by_cases hpq : p = q
  · rw [hpq]
  · have hqp : ¬q = p := fun h => hpq h.symm
    by_cases hscalar : p.scalar = q.scalar
    · have hcomponents := componentwise?_comm p q
      have hmatrix := Bool.or_comm p.isMatrix q.isMatrix
      by_cases hmul : op = .mul ∧ (p.isMatrix || q.isMatrix) = true
      · obtain ⟨rfl, hmatrix'⟩ := hmul
        have hproduct := matrixProduct?_comm (hproduct rfl) hmatrix'
        simp [result?, isLogical, isComparison, isShift, hscalar, hcomponents, hproduct, hmatrix]
      · -- what is left only compares the operands, or works component by component
        cases op <;> simp_all [isCommutative, result?, isLogical, isComparison, isShift]
    · have hscalar' : ¬q.scalar = p.scalar := fun h => hscalar h.symm
      cases op <;> simp_all [isCommutative, result?, isLogical, isComparison, isShift]

/-- But for shifts, the operands of an operator have components of one type. -/
theorem scalar_eq_of_result? (hop : op.isShift = false) (h : op.result? p q = some result) :
    p.scalar = q.scalar := by
  by_contra hne
  have hpq : p ≠ q := fun heq => hne (by rw [heq])
  cases op <;> simp_all [result?, isLogical, isComparison, isShift]

end BinaryOp

/-! ## Types of host values -/

namespace HostValue

variable {u v : HostValue}

/-- The type that a host value has by itself. -/
def ownKind : HostValue → Option ScalarKind
  | bool _ => some .bool
  | int i => if isI32 i then some .i32 else if isU32 i then some .u32 else none
  | float x => if (float x).fits .f32 then some .f32 else none

/-- The type that a host value takes where one is suggested. -/
def nearKind (v : HostValue) (hint : Option ScalarKind) : Option ScalarKind :=
  (hint.filter (v.fits ·)).or v.ownKind

/-- The type that two host values have in common, the first one typed before the second. -/
def commonKind (u v : HostValue) : Option ScalarKind :=
  (u.nearKind (if u.isFloat || v.isFloat then some .f32 else none)).filter (v.fits ·)

/-- An integer that both integer types hold next to one that only the unsigned type holds. -/
def IsMixed : HostValue → HostValue → Prop
  | int i, int j => 0 ≤ i ∧ i < 2 ^ 31 ∧ 2 ^ 31 ≤ j ∧ j < 2 ^ 32
  | _, _ => False

/-- A value fits its own kind. -/
theorem fits_of_ownKind {k : ScalarKind} (h : v.ownKind = some k) : v.fits k = true := by
  cases v with
  | bool b =>
      rw [← Option.some.inj h]
      rfl
  | int i =>
      simp only [ownKind] at h
      split at h
      · rwa [← Option.some.inj h]
      · split at h
        · rwa [← Option.some.inj h]
        · cases h
  | float x =>
      simp only [ownKind] at h
      split at h
      · rwa [← Option.some.inj h]
      · cases h

/-- A host value that comes after another takes its type exactly if it fits it. -/
theorem nearKind_eq_iff {k : ScalarKind} : v.nearKind (some k) = some k ↔ v.fits k = true := by
  unfold nearKind
  by_cases h : v.fits k = true
  · simp [Option.filter, h]
  · have hown : v.ownKind ≠ some k := fun hown => h (fits_of_ownKind hown)
    simp [Option.filter, h, hown]

/-- Next to a float, both values are floats where they can be, or have nothing in common. -/
theorem commonKind_of_isFloat (h : (u.isFloat || v.isFloat) = true) :
    u.commonKind v = if u.fits .f32 && v.fits .f32 then some .f32 else none := by
  unfold commonKind nearKind
  rw [if_pos h]
  by_cases hu : u.fits .f32 = true
  · simp [Option.filter, hu]
  · -- what the first value is by itself does not fit the second one
    have hown : u.ownKind.filter (v.fits ·) = none := by
      cases u with
      | float x => simp [ownKind, hu]
      | bool b =>
          cases v with
          | float y => rfl
          | bool | int => cases h
      | int i =>
          cases v with
          | float y =>
              simp only [ownKind]
              split
              · rfl
              · split <;> rfl
          | bool | int => cases h
    simp only [Option.filter, hu, Bool.false_and, Bool.false_eq_true, if_false,
      Option.none_or] at hown ⊢
    exact hown

/-- Away from floats, the second value takes the type that the first one has by itself. -/
theorem commonKind_of_not_isFloat (h : (u.isFloat || v.isFloat) = false) :
    u.commonKind v = u.ownKind.filter (v.fits ·) := by
  unfold commonKind nearKind
  rw [if_neg (by simp [h])]
  rfl

/-- The kind that two integers have in common. -/
theorem commonKind_ints (i j : Int) : (int i).commonKind (int j) =
    if isI32 i then if isI32 j then some .i32 else none
    else if isU32 i && isU32 j then some .u32 else none := by
  rw [commonKind_of_not_isFloat rfl, ownKind]
  split
  · rfl
  · split
    · rename_i hi
      rw [hi, Bool.true_and]
      rfl
    · rename_i hi
      rw [Bool.not_eq_true] at hi
      rw [hi]
      rfl

/-- Two host values have a type in common in either order. -/
theorem commonKind_comm (huv : ¬u.IsMixed v) (hvu : ¬v.IsMixed u) :
    u.commonKind v = v.commonKind u := by
  by_cases h : (u.isFloat || v.isFloat) = true
  · rw [commonKind_of_isFloat h, commonKind_of_isFloat (by rwa [Bool.or_comm]), Bool.and_comm]
  · rw [Bool.not_eq_true] at h
    have hswap : (v.isFloat || u.isFloat) = false := by rwa [Bool.or_comm]
    cases u with
    | float x => cases h
    | bool b =>
        cases v with
        | float y => cases h
        | bool c => rfl
        | int j =>
            rw [commonKind_of_not_isFloat h, commonKind_of_not_isFloat hswap, ownKind, ownKind]
            split
            · rfl
            · split <;> rfl
    | int i =>
        cases v with
        | float y => cases h
        | bool c =>
            rw [commonKind_of_not_isFloat h, commonKind_of_not_isFloat hswap, ownKind, ownKind]
            split
            · rfl
            · split <;> rfl
        | int j =>
            rw [commonKind_ints, commonKind_ints]
            simp only [IsMixed, isI32, isU32, Bool.and_eq_true, decide_eq_true_eq] at huv hvu ⊢
            repeat' split
            all_goals first | rfl | omega

/-- An integer that both integer types hold is signed if it comes first, and unsigned after one that
only the unsigned type holds. -/
theorem commonKind_of_isMixed (h : u.IsMixed v) :
    u.commonKind v = none ∧ v.commonKind u = some .u32 := by
  cases u with
  | bool | float => cases h
  | int i =>
      cases v with
      | bool | float => cases h
      | int j =>
          have hi : isI32 i = true ∧ isU32 i = true := by
            simp only [isI32, isU32, Bool.and_eq_true, decide_eq_true_eq]
            obtain ⟨h₁, h₂, -, -⟩ := h
            omega
          have hj : isI32 j = false ∧ isU32 j = true := by
            simp only [isI32, isU32, Bool.and_eq_true, Bool.and_eq_false_iff, decide_eq_true_eq,
              decide_eq_false_iff_not]
            obtain ⟨-, -, h₁, h₂⟩ := h
            omega
          rw [commonKind_ints, commonKind_ints]
          simp [hi, hj]

example : (int 1).commonKind (int 3000000000) = none ∧
    (int 3000000000).commonKind (int 1) = some .u32 := by decide

end HostValue

/-! ## Operands -/

namespace Build

open Builder (run_bind_eq_ok_iff run_get_bind run_pure_eq_ok_iff)

variable {b b' : Builder} {callees : Callees}

/-- A literal takes the kind of what stands near it, if it fits. -/
theorem lowerNear_host (v : HostValue) (hint : Option ScalarKind) :
    lowerNear (.host v) hint = lower (.host v) (hint.filter (v.fits ·)) := by
  unfold lowerNear
  cases hint with
  | none => rfl
  | some k => by_cases h : v.fits k = true <;> simp [Value.fits, Option.filter, h]

/-- The literal that a host value becomes where a type is suggested. -/
theorem scalar_toLiteral_filter (v : HostValue) (hint : Option ScalarKind) :
    ((v.toLiteral (hint.filter (v.fits ·))).toOption).map (·.scalar) = v.nearKind hint := by
  have hown : ((v.toLiteral none).toOption).map (·.scalar) = v.ownKind := by
    cases v with
    | bool b => rfl
    | int i =>
        simp only [HostValue.toLiteral, HostValue.ownKind]
        split
        · rfl
        · split <;> rfl
    | float x =>
        simp only [HostValue.toLiteral, HostValue.ownKind]
        split <;> rfl
  unfold HostValue.nearKind
  cases hfilter : hint.filter (v.fits ·) with
  | none => exact hown
  | some k =>
      obtain ⟨l, hl⟩ := HostValue.exists_toLiteral_of_fits (Option.filter_eq_some_iff.mp hfilter).2
      rw [hl, Option.some_or]
      exact congrArg some (HostValue.scalar_of_toLiteral hl)

/-- The types that are registered for a literal. -/
theorem types_of_run_literal {l : Literal} {e : Expr} (h : b.run (literal l) = (.ok e, b')) :
    b'.types = (b.types.run (Interning.scalar l.scalar)).2 := by
  obtain ⟨t, b₁, hintern, hpush⟩ := run_bind_eq_ok_iff.mp (run_literal_eq_ok_iff.mp h).2
  rw [Builder.run_intern] at hintern
  obtain ⟨-, rfl⟩ := Prod.mk.inj hintern
  obtain ⟨-, rfl⟩ := Prod.mk.inj hpush
  rfl

/-- A host value is lowered near a type if the target has the type that it takes there. -/
theorem kind_of_run_lowerNear (hb : b.Typed callees) {v : HostValue} {hint : Option ScalarKind}
    {e : Expr} (h : b.run (lowerNear (.host v) hint) = (.ok e, b')) :
    ∃ k, v.nearKind hint = some k ∧ b.target.supportsScalar k = true ∧
      b'.types = (b.types.run (Interning.scalar k)).2 ∧
      b'.types.kind e.type = .primitive (.ofScalar k) := by
  rw [lowerNear_host, lower] at h
  split at h
  · rename_i l hl
    have hkind := scalar_toLiteral_filter v hint
    rw [hl] at hkind
    exact ⟨l.scalar, hkind.symm, (run_literal_eq_ok_iff.mp h).1, types_of_run_literal h,
      ((ensures_literal hb l).2.2 e b' h).2⟩
  · cases (Prod.mk.inj h).1

/-- A literal whose kind the target has can be lowered. -/
theorem succeeds_lowerNear {v : HostValue} {hint : Option ScalarKind} {k : ScalarKind}
    (hkind : v.nearKind hint = some k) (hsupports : b.target.supportsScalar k = true) :
    (lowerNear (.host v) hint).Succeeds b := by
  rw [← scalar_toLiteral_filter] at hkind
  obtain ⟨l, hl, rfl⟩ := Option.map_eq_some_iff.mp hkind
  rw [lowerNear_host, lower]
  cases hliteral : v.toLiteral (hint.filter (v.fits ·)) with
  | error fault =>
      rw [hliteral] at hl
      cases hl
  | ok l' =>
      rw [hliteral] at hl
      obtain rfl := Option.some.inj hl
      exact succeeds_literal hsupports

/-! ## Operators -/

/-- An operation gives an expression of a type. -/
def Gives (act : Build Expr) (b : Builder) (t : TypeId) : Prop :=
  ∃ e b', b.run act = (.ok e, b') ∧ e.type = t

/-- An operator applies to two expressions, and its result has a type. -/
def Combines (op : BinaryOp) (l r : Expr) (b : Builder) (t : TypeId) : Prop :=
  ∃ p q result, b.types.primitive? l.type = some p ∧ b.types.primitive? r.type = some q ∧
    op.result? p q = some result ∧ (b.types.run (Interning.primitive result)).1 = .ok t

variable {op : BinaryOp} {x y : Value} {t : TypeId}

/-- An operator with a type combines the types of its operands. -/
theorem combines_of_run_binaryType {l r : Expr} (h : b.run (binaryType op l r) = (.ok t, b')) :
    Combines op l r b t := by
  rw [binaryType] at h
  obtain ⟨p, hp, h⟩ := run_operandType_bind_eq_ok_iff.mp h
  obtain ⟨q, hq, h⟩ := run_operandType_bind_eq_ok_iff.mp h
  split at h
  · rename_i result hresult
    rw [Builder.run_intern] at h
    exact ⟨p, q, result, hp, hq, hresult, (Prod.mk.inj h).1⟩
  · cases (Prod.mk.inj h).1

/-- Operands that combine have a type together. -/
theorem run_binaryType_of_combines {l r : Expr} (h : Combines op l r b t) :
    ∃ b', b.run (binaryType op l r) = (.ok t, b') := by
  obtain ⟨p, q, result, hp, hq, hresult, ht⟩ := h
  refine ⟨{ b with types := (b.types.run (Interning.primitive result)).2 }, ?_⟩
  rw [binaryType]
  refine run_operandType_bind_eq_ok_iff.mpr ⟨p, hp, run_operandType_bind_eq_ok_iff.mpr ⟨q, hq, ?_⟩⟩
  rw [hresult]
  dsimp only
  rw [Builder.run_intern, ht]

/-- Two expressions combine as soon as they are recorded. -/
theorem combines_iff {l r : Expr} {node : NodeKind} :
    (∃ e b', b.run (do pushNode (← binaryType op l r) node) = (.ok e, b') ∧ e.type = t) ↔
      Combines op l r b t := by
  constructor
  · rintro ⟨e, b', h, rfl⟩
    obtain ⟨u, b₁, htype, hpush⟩ := run_bind_eq_ok_iff.mp h
    have hu : e.type = u := by
      obtain ⟨he, -⟩ := Prod.mk.inj hpush
      rw [← Except.ok.inj he]
    rw [hu]
    exact combines_of_run_binaryType htype
  · intro h
    obtain ⟨b₁, htype⟩ := run_binaryType_of_combines h
    obtain ⟨e, b', hpush⟩ := succeeds_pushNode (b := b₁) t node
    refine ⟨e, b', run_bind_eq_ok_iff.mpr ⟨t, b₁, htype, hpush⟩, ?_⟩
    obtain ⟨he, -⟩ := Prod.mk.inj hpush
    rw [← Except.ok.inj he]

/-- A binary operator first lowers its operands. -/
theorem run_binary_eq_ok_iff {e : Expr} : b.run (binary op x y) = (.ok e, b') ↔
    (op.isBitwise = true → b.target.supports .bitwiseOps = true) ∧
      ∃ l r b₁, b.run (lowerPair x y) = (.ok (l, r), b₁) ∧
        b₁.run (do pushNode (← binaryType op l r) (.binary op l.node r.node)) = (.ok e, b') := by
  unfold binary
  by_cases hop : op.isBitwise = true
  · rw [if_pos hop, run_bind_eq_ok_iff]
    constructor
    · rintro ⟨_, b₁, hrequire, h⟩
      obtain ⟨hsupports, rfl⟩ := run_require_eq_ok_iff.mp hrequire
      obtain ⟨⟨l, r⟩, b₂, hpair, h⟩ := run_bind_eq_ok_iff.mp h
      exact ⟨fun _ => hsupports, l, r, b₂, hpair, h⟩
    · rintro ⟨hsupports, l, r, b₁, hpair, h⟩
      exact ⟨(), b, run_require_eq_ok_iff.mpr ⟨hsupports hop, rfl⟩,
        run_bind_eq_ok_iff.mpr ⟨(l, r), b₁, hpair, h⟩⟩
  · rw [if_neg hop]
    beta_reduce
    rw [run_bind_eq_ok_iff]
    constructor
    · rintro ⟨⟨l, r⟩, b₁, hpair, h⟩
      exact ⟨fun hbitwise => absurd hbitwise hop, l, r, b₁, hpair, h⟩
    · rintro ⟨-, l, r, b₁, hpair, h⟩
      exact ⟨(l, r), b₁, hpair, h⟩

/-- A binary operator gives what it makes of its operands, once they are lowered. -/
theorem gives_binary_iff : (binary op x y).Gives b t ↔
    (op.isBitwise = true → b.target.supports .bitwiseOps = true) ∧
      ∃ l r b₁, b.run (lowerPair x y) = (.ok (l, r), b₁) ∧ Combines op l r b₁ t := by
  constructor
  · rintro ⟨e, b', h, ht⟩
    obtain ⟨hsupports, l, r, b₁, hpair, h⟩ := run_binary_eq_ok_iff.mp h
    exact ⟨hsupports, l, r, b₁, hpair, combines_iff.mp ⟨e, b', h, ht⟩⟩
  · rintro ⟨hsupports, l, r, b₁, hpair, hcombines⟩
    obtain ⟨e, b', h, ht⟩ := combines_iff.mpr hcombines
    exact ⟨e, b', run_binary_eq_ok_iff.mpr ⟨hsupports, l, r, b₁, hpair, h⟩, ht⟩

/-! ## Changing places -/

/-- A commutative operator combines its operands in either order. -/
theorem Combines.comm {l r : Expr} (hop : op.isCommutative = true)
    (hproduct : op = .mul → ∀ p q, b.types.primitive? l.type = some p →
      b.types.primitive? r.type = some q → p.isMatrixPair q = false)
    (h : Combines op l r b t) : Combines op r l b t := by
  obtain ⟨p, q, result, hp, hq, hresult, ht⟩ := h
  refine ⟨q, p, result, hq, hp, ?_, ht⟩
  rw [← BinaryOp.result?_comm hop fun hmul => hproduct hmul p q hp hq]
  exact hresult

/-- A host value next to an expression is lowered in the same way on either side. -/
theorem run_lowerPair_swap {v : HostValue} {e l r : Expr} :
    b.run (lowerPair (.expr e) (.host v)) = (.ok (l, r), b') ↔
      b.run (lowerPair (.host v) (.expr e)) = (.ok (r, l), b') := by
  unfold lowerPair
  dsimp only
  rw [run_get_bind, run_get_bind, run_bind_eq_ok_iff, run_bind_eq_ok_iff]
  constructor
  · rintro ⟨a, b₁, hlower, hpure⟩
    obtain ⟨hpair, rfl⟩ := run_pure_eq_ok_iff.mp hpure
    obtain ⟨rfl, rfl⟩ := Prod.mk.inj hpair
    exact ⟨_, _, hlower, rfl⟩
  · rintro ⟨a, b₁, hlower, hpure⟩
    obtain ⟨hpair, rfl⟩ := run_pure_eq_ok_iff.mp hpure
    obtain ⟨rfl, rfl⟩ := Prod.mk.inj hpair
    exact ⟨_, _, hlower, rfl⟩

/-- Of two host values, the second one is lowered next to what the first one became. -/
theorem run_lowerPair_hosts {u v : HostValue} {l r : Expr} :
    b.run (lowerPair (.host u) (.host v)) = (.ok (l, r), b') ↔
      ∃ b₁, b.run (lowerNear (.host u) (if u.isFloat || v.isFloat then some .f32 else none)) =
          (.ok l, b₁) ∧
        b₁.run (lowerNear (.host v) (b₁.scalarOf? l.type)) = (.ok r, b') := by
  unfold lowerPair
  dsimp only
  rw [run_bind_eq_ok_iff]
  constructor
  · rintro ⟨l', b₁, hl, hrest⟩
    rw [run_get_bind] at hrest
    obtain ⟨r', b₂, hr, hpure⟩ := run_bind_eq_ok_iff.mp hrest
    obtain ⟨hpair, rfl⟩ := run_pure_eq_ok_iff.mp hpure
    obtain ⟨rfl, rfl⟩ := Prod.mk.inj hpair
    exact ⟨b₁, hl, hr⟩
  · rintro ⟨b₁, hl, hr⟩
    refine ⟨l, b₁, hl, ?_⟩
    rw [run_get_bind]
    exact run_bind_eq_ok_iff.mpr ⟨r, b', hr, rfl⟩

/-- What an operator makes of two scalars of a type, once that type is registered for both. -/
def CombinesScalars (op : BinaryOp) (k : ScalarKind) (b : Builder) (t : TypeId) : Prop :=
  b.target.supportsScalar k = true ∧ ∃ result,
    op.result? (.ofScalar k) (.ofScalar k) = some result ∧
      (((b.types.run (Interning.scalar k)).2.run (Interning.scalar k)).2.run
        (Interning.primitive result)).1 = .ok t

/-- The component type of a scalar. -/
theorem scalarOf?_of_kind {k : ScalarKind} {t : TypeId}
    (h : b.types.kind t = .primitive (.ofScalar k)) : b.scalarOf? t = some k := by
  rw [Builder.scalarOf?, Registry.primitive?_eq_some_iff.mpr h]
  rfl

/-- An operator applies to two host values if it applies to the type that they have in common. -/
theorem combines_hosts_iff (hb : b.Typed callees) (hop : op.isShift = false) {u v : HostValue} :
    (∃ l r b', b.run (lowerPair (.host u) (.host v)) = (.ok (l, r), b') ∧ Combines op l r b' t) ↔
      ∃ k, u.commonKind v = some k ∧ CombinesScalars op k b t := by
  constructor
  · rintro ⟨l, r, b', hpair, p, q, result, hp, hq, hresult, ht⟩
    obtain ⟨b₁, hl, hr⟩ := run_lowerPair_hosts.mp hpair
    obtain ⟨hext, hb₁, -⟩ := ensures_lowerNear (v := .host u) hb trivial _
    rw [hl] at hext hb₁
    obtain ⟨k, hk, hsupports, htypes, hkind⟩ := kind_of_run_lowerNear hb hl
    rw [scalarOf?_of_kind hkind] at hr
    obtain ⟨k', hk', -, htypes', hkind'⟩ := kind_of_run_lowerNear hb₁ hr
    obtain ⟨hext', -, -⟩ := ensures_lowerNear (v := .host v) hb₁ trivial (some k)
    rw [hr] at hext'
    -- the operator takes only components of one type
    have hkind := Registry.kind_of_le hext'.types hkind (by simp)
    obtain rfl := Option.some.inj (hp.symm.trans (Registry.primitive?_eq_some_iff.mpr hkind))
    obtain rfl := Option.some.inj (hq.symm.trans (Registry.primitive?_eq_some_iff.mpr hkind'))
    obtain rfl : k = k' := BinaryOp.scalar_eq_of_result? hop hresult
    rw [htypes', htypes] at ht
    refine ⟨k, ?_, hsupports, result, hresult, ht⟩
    rw [HostValue.commonKind, hk, Option.filter_some, if_pos (HostValue.nearKind_eq_iff.mp hk')]
  · rintro ⟨k, hcommon, hsupports, result, hresult, ht⟩
    obtain ⟨hk, hfits⟩ := Option.filter_eq_some_iff.mp hcommon
    obtain ⟨l, b₁, hl⟩ := succeeds_lowerNear hk hsupports
    obtain ⟨hext, hb₁, -⟩ := ensures_lowerNear (v := .host u) hb trivial _
    rw [hl] at hext hb₁
    obtain ⟨_, hk₁, -, htypes, hkind⟩ := kind_of_run_lowerNear hb hl
    obtain rfl := Option.some.inj (hk.symm.trans hk₁)
    have hk' := HostValue.nearKind_eq_iff.mpr hfits
    obtain ⟨r, b', hr⟩ := succeeds_lowerNear (b := b₁) hk' (by rw [hext.target_eq]; exact hsupports)
    obtain ⟨hext', -, -⟩ := ensures_lowerNear (v := .host v) hb₁ trivial (some k)
    rw [hr] at hext'
    obtain ⟨_, hk₂, -, htypes', hkind'⟩ := kind_of_run_lowerNear hb₁ hr
    obtain rfl := Option.some.inj (hk'.symm.trans hk₂)
    refine ⟨l, r, b', run_lowerPair_hosts.mpr ⟨b₁, hl, ?_⟩, .ofScalar k, .ofScalar k, result,
      ?_, ?_, hresult, ?_⟩
    · rw [scalarOf?_of_kind hkind]
      exact hr
    · exact Registry.primitive?_eq_some_iff.mpr (Registry.kind_of_le hext'.types hkind (by simp))
    · exact Registry.primitive?_eq_some_iff.mpr hkind'
    · rw [htypes', htypes]
      exact ht

end Build

/-- A host value that an integer of both integer types is, next to one that only the unsigned type
holds. -/
def Value.IsMixed : Value → Value → Prop
  | .host u, .host v => u.IsMixed v
  | _, _ => False

/-- Two expressions whose product depends on their order. -/
def Builder.IsMatrixPair (b : Builder) : Value → Value → Prop
  | .expr l, .expr r => ∃ p q, b.types.primitive? l.type = some p ∧
      b.types.primitive? r.type = some q ∧ p.isMatrixPair q = true
  | _, _ => False

namespace Build

open Builder (run_bind_eq_ok_iff run_get_bind run_pure_eq_ok_iff)

variable {b b' : Builder} {callees : Callees} {op : BinaryOp} {x y : Value} {t : TypeId}

/-- A host value next to an expression is a scalar, which scales a matrix from either side. -/
theorem Combines.comm_host (hb : b.Typed callees) (hop : op.isCommutative = true) {v : HostValue}
    {hint : Option ScalarKind} {l r : Expr} (hr : b.run (lowerNear (.host v) hint) = (.ok r, b')) :
    Combines op l r b' t ↔ Combines op r l b' t := by
  obtain ⟨k, -, -, -, hkind⟩ := kind_of_run_lowerNear hb hr
  have hscalar : b'.types.primitive? r.type = some (.ofScalar k) :=
    Registry.primitive?_eq_some_iff.mpr hkind
  constructor
  · refine .comm hop fun _ p q _ hq => ?_
    obtain rfl := Option.some.inj (hscalar.symm.trans hq)
    simp [PrimitiveType.isMatrixPair, PrimitiveType.isScalar_ofScalar]
  · refine .comm hop fun _ p q hp _ => ?_
    obtain rfl := Option.some.inj (hscalar.symm.trans hp)
    simp [PrimitiveType.isMatrixPair, PrimitiveType.isScalar_ofScalar]

/-- Expressions are lowered to themselves. -/
theorem run_lowerPair_exprs (l r : Expr) :
    b.run (lowerPair (.expr l) (.expr r)) = (.ok (l, r), b) := by
  unfold lowerPair
  dsimp only
  rw [run_get_bind, lowerNear_expr]
  rfl

/-- Two expressions are operands as they are. -/
theorem combines_exprs_iff {l r : Expr} :
    (∃ l' r' b', b.run (lowerPair (.expr l) (.expr r)) = (.ok (l', r'), b') ∧
      Combines op l' r' b' t) ↔ Combines op l r b t := by
  rw [run_lowerPair_exprs]
  constructor
  · rintro ⟨l', r', b', hpair, h⟩
    obtain ⟨hexprs, rfl⟩ := Prod.mk.inj hpair
    obtain ⟨rfl, rfl⟩ := Prod.mk.inj (Except.ok.inj hexprs)
    exact h
  · intro h
    exact ⟨l, r, b, rfl, h⟩

/-- A host value next to an expression combines with it on either side. -/
theorem combines_expr_host_iff (hb : b.Typed callees) (hop : op.isCommutative = true) {e : Expr}
    {v : HostValue} :
    (∃ l r b', b.run (lowerPair (.expr e) (.host v)) = (.ok (l, r), b') ∧ Combines op l r b' t) ↔
      ∃ l r b', b.run (lowerPair (.host v) (.expr e)) = (.ok (l, r), b') ∧
        Combines op l r b' t := by
  have hlowered : ∀ {l r : Expr} {b' : Builder},
      b.run (lowerPair (.expr e) (.host v)) = (.ok (l, r), b') →
        ∃ hint, b.run (lowerNear (.host v) hint) = (.ok r, b') := by
    intro l r b' h
    unfold lowerPair at h
    dsimp only at h
    rw [run_get_bind] at h
    obtain ⟨r', b₁, hr, hpure⟩ := run_bind_eq_ok_iff.mp h
    obtain ⟨hpair, rfl⟩ := run_pure_eq_ok_iff.mp hpure
    obtain ⟨-, rfl⟩ := Prod.mk.inj hpair
    exact ⟨_, hr⟩
  constructor
  · rintro ⟨l, r, b', hpair, h⟩
    obtain ⟨hint, hr⟩ := hlowered hpair
    exact ⟨r, l, b', run_lowerPair_swap.mp hpair, (Combines.comm_host hb hop hr).mp h⟩
  · rintro ⟨r, l, b', hpair, h⟩
    have hpair' := run_lowerPair_swap.mpr hpair
    obtain ⟨hint, hr⟩ := hlowered hpair'
    exact ⟨l, r, b', hpair', (Combines.comm_host hb hop hr).mpr h⟩

/-- The operands of a commutative operator may change places: it applies in both orders or in
neither, with one type of result. Excepted are matrix products, and integers of which only one may
be signed. -/
theorem gives_binary_comm (hb : b.Typed callees) (hop : op.isCommutative = true)
    (hproduct : op = .mul → ¬b.IsMatrixPair x y) (hxy : ¬x.IsMixed y) (hyx : ¬y.IsMixed x) :
    (binary op x y).Gives b t ↔ (binary op y x).Gives b t := by
  have hshift : op.isShift = false := by cases op <;> first | rfl | cases hop
  rw [gives_binary_iff, gives_binary_iff, and_congr_right_iff]
  intro _
  cases x with
  | expr l =>
      cases y with
      | expr r =>
          rw [combines_exprs_iff, combines_exprs_iff]
          have hpair : ∀ {p q}, op = .mul → b.types.primitive? l.type = some p →
              b.types.primitive? r.type = some q → p.isMatrixPair q = false := by
            intro p q hmul hp hq
            by_contra hmatrix
            rw [Bool.not_eq_false] at hmatrix
            exact hproduct hmul ⟨p, q, hp, hq, hmatrix⟩
          constructor
          · exact .comm hop fun hmul p q hp hq => hpair hmul hp hq
          · refine .comm hop fun hmul q p hq hp => ?_
            rw [PrimitiveType.isMatrixPair_comm]
            exact hpair hmul hp hq
      | host v => exact combines_expr_host_iff hb hop
  | host u =>
      cases y with
      | expr r => exact (combines_expr_host_iff hb hop).symm
      | host v =>
          rw [combines_hosts_iff hb hshift, combines_hosts_iff hb hshift,
            HostValue.commonKind_comm hxy hyx]

/-- An integer of both integer types never comes before one that only the unsigned type holds. Where
it comes second, both are unsigned. -/
theorem gives_binary_of_isMixed (hb : b.Typed callees) (hop : op.isShift = false) {u v : HostValue}
    (h : u.IsMixed v) : ¬(binary op (.host u) (.host v)).Gives b t ∧
      ((binary op (.host v) (.host u)).Gives b t ↔
        (op.isBitwise = true → b.target.supports .bitwiseOps = true) ∧
          CombinesScalars op .u32 b t) := by
  obtain ⟨hfirst, hsecond⟩ := HostValue.commonKind_of_isMixed h
  constructor
  · rw [gives_binary_iff, combines_hosts_iff hb hop, hfirst]
    rintro ⟨-, k, hk, -⟩
    cases hk
  · rw [gives_binary_iff, combines_hosts_iff hb hop, hsecond, and_congr_right_iff]
    intro _
    simp

end Build

end WebShader
