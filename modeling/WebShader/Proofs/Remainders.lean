import Mathlib.Algebra.Order.Field.Rat
import Mathlib.Data.Rat.Floor
import Mathlib.Tactic.Linarith
import WebShader.Proofs.PrintedValues

/-!
# Remainders

GLSL ES spells the remainder of floats by `mod`, and GLSL ES 1.00 that of integers too: there the
quotient is rounded down, where the operator `%` rounds it toward zero. The two remainders are the
same where the quotient is not negative or nothing remains.
-/

namespace WebShader

/-! ## Two remainders -/

/-- What remains of a division whose quotient is rounded down, or toward zero. -/
def residue (down : Bool) (x y : ℚ) : ℚ := x - y * (if down then ⌊x / y⌋ else truncated (x / y))

/-- An integer is not rounded. -/
theorem truncated_intCast (n : Int) : truncated n = n := by
  unfold truncated
  split
  · exact Int.floor_intCast n
  · exact Int.ceil_intCast n

/-- A quotient of natural numbers is rounded as by division. -/
theorem truncated_natCast_div (m n : Nat) : truncated ((m : ℚ) / n) = (m : Int).tdiv n := by
  have hpos : (0 : ℚ) ≤ (m : ℚ) / n := div_nonneg (Nat.cast_nonneg m) (Nat.cast_nonneg n)
  rw [truncated, if_pos hpos, Rat.floor_natCast_div_natCast]
  exact (Int.tdiv_eq_ediv_of_nonneg (Int.natCast_nonneg m)).symm

/-- Rounding towards zero respects signs. -/
theorem truncated_neg (x : ℚ) : truncated (-x) = -truncated x := by
  unfold truncated
  rcases lt_trichotomy x 0 with hx | rfl | hx
  · rw [if_pos (by linarith), if_neg (by linarith), Int.floor_neg]
  · simp
  · rw [if_neg (by linarith), if_pos (by linarith), Int.ceil_neg]

/-- The quotient of integers rounded toward zero. -/
theorem truncated_intCast_div (a b : Int) : truncated ((a : ℚ) / b) = a.tdiv b := by
  obtain ⟨m, rfl | rfl⟩ := Int.eq_nat_or_neg a <;> obtain ⟨n, rfl | rfl⟩ := Int.eq_nat_or_neg b
  · exact truncated_natCast_div m n
  · rw [Int.cast_neg, div_neg, truncated_neg, Int.tdiv_neg]
    exact congrArg _ (truncated_natCast_div m n)
  · rw [Int.cast_neg, neg_div, truncated_neg, Int.neg_tdiv]
    exact congrArg _ (truncated_natCast_div m n)
  · rw [Int.cast_neg, Int.cast_neg, neg_div_neg_eq, Int.neg_tdiv, Int.tdiv_neg, Int.neg_neg]
    exact truncated_natCast_div m n

/-- The remainder of integers that `%` gives. -/
theorem residue_tmod (a b : Int) : residue false a b = (a.tmod b : Int) := by
  rw [residue, if_neg Bool.false_ne_true, truncated_intCast_div, Int.tmod_def]
  push_cast
  rfl

/-- The two remainders are the same where the quotient is not negative or is an integer. -/
theorem residue_eq_iff {x y : ℚ} (hy : y ≠ 0) :
    residue true x y = residue false x y ↔ 0 ≤ x / y ∨ ∃ n : Int, x / y = n := by
  have hquotient : residue true x y = residue false x y ↔ ⌊x / y⌋ = truncated (x / y) := by
    rw [residue, residue, if_pos rfl, if_neg Bool.false_ne_true, sub_right_inj,
      mul_right_inj' hy, Int.cast_inj]
  rw [hquotient, truncated]
  constructor
  · intro h
    split at h
    · rename_i hpos
      exact Or.inl hpos
    · refine Or.inr ⟨⌊x / y⌋, le_antisymm ?_ (Int.floor_le _)⟩
      rw [h]
      exact Int.le_ceil _
  · rintro (hpos | ⟨n, hn⟩)
    · rw [if_pos hpos]
    · rw [hn, Int.floor_intCast, Int.ceil_intCast, ite_self]

/-- What remains of a quotient rounded down is a part of the divisor. -/
theorem residue_eq_mul_fract {x y : ℚ} (hy : y ≠ 0) :
    residue true x y = y * Int.fract (x / y) := by
  rw [residue, if_pos rfl, Int.fract, mul_sub, mul_div_cancel₀ x hy]

/-- A remainder is smaller than what is divided by. -/
theorem abs_residue_lt {x y : ℚ} (hy : y ≠ 0) : |residue true x y| < |y| := by
  rw [residue_eq_mul_fract hy, abs_mul, abs_of_nonneg (Int.fract_nonneg (x / y))]
  exact mul_lt_of_lt_one_right (abs_pos.mpr hy) (Int.fract_lt_one _)

/-! ## Components -/

/-- A component is the signed integer or the float of a number. -/
inductive Scalar.IsNumber : ScalarKind → ℚ → Scalar → Prop where
  | i32 (x : BitVec 32) : IsNumber .i32 x.toInt (.i32 x)
  | float {k : ScalarKind} (hk : k.isFloat = true) (x : ℚ) : IsNumber k x (.float x)

/-- Whether the remainder of a component type rounds the quotient down. -/
def Target.roundsDown (target : Target) (k : ScalarKind) : Bool :=
  target.isGlsl && (k.isFloat || target = .webGL)

/-- A number that is not zero is no zero integer. -/
theorem toInt_ne_zero {x : BitVec 32} (hx : x ≠ 0) : (x.toInt : ℚ) ≠ 0 := by
  rw [Int.cast_ne_zero, ← BitVec.toInt_zero]
  exact fun h => hx (BitVec.toInt_inj.mp h)

/-- The operator `%` on integers. -/
theorem toInt_srem (x y : BitVec 32) :
    ((x.srem y).toInt : ℚ) = residue false x.toInt y.toInt := by
  rw [BitVec.toInt_srem, residue_tmod]

/-- The operator `%` rounds the quotient toward zero. -/
theorem outcome?_rem {k : ScalarKind} {a b : Scalar} {x y : ℚ} (ha : a.IsNumber k x)
    (hb : b.IsNumber k y) (hy : y ≠ 0) :
    ∃ c, c.IsNumber k (residue false x y) ∧
      BinaryOp.rem.outcome? (.scalar a) (.scalar b) = some (.scalar c) := by
  cases ha with
  | float hk x =>
      cases hb with
      | float _ y =>
          refine ⟨_, .float hk _, ?_⟩
          change (if y = 0 then none else _ : Option Scalar).map Datum.scalar = _
          rw [if_neg hy]
          rfl
      | i32 => cases hk
  | i32 x =>
      cases hb with
      | float hk => cases hk
      | i32 y =>
          refine ⟨.i32 (x.srem y), ?_, ?_⟩
          · rw [← toInt_srem]
            exact .i32 _
          · change some (Datum.scalar (.i32 (if y = 0 then 0 else x.srem y))) = _
            rw [if_neg fun h => hy (by rw [h]; rfl)]

/-- What remains of integers when the quotient is rounded down is an integer of 32 bits. -/
theorem exists_convert_residue (x : BitVec 32) {y : BitVec 32} (hy : y ≠ 0) :
    ∃ z : BitVec 32, Scalar.convert .i32 (.float (residue true x.toInt y.toInt)) = some (.i32 z) ∧
      (z.toInt : ℚ) = residue true x.toInt y.toInt := by
  obtain ⟨n, hn⟩ : ∃ n : Int, residue true x.toInt y.toInt = n := by
    refine ⟨x.toInt - y.toInt * ⌊(x.toInt : ℚ) / y.toInt⌋, ?_⟩
    rw [residue, if_pos rfl]
    push_cast
    rfl
  have hsmall := abs_residue_lt (x := x.toInt) (toInt_ne_zero hy)
  rw [hn, ← Int.cast_abs, ← Int.cast_abs, Int.cast_lt] at hsmall
  have hdivisor : |y.toInt| ≤ 2147483648 := by
    rw [abs_le]
    have hlow : -2147483648 ≤ y.toInt := y.le_toInt
    have hhigh : y.toInt < 2147483648 := y.toInt_lt
    omega
  obtain ⟨hlow, hhigh⟩ := abs_lt.mp (lt_of_lt_of_le hsmall hdivisor)
  refine ⟨BitVec.ofInt 32 n, ?_, ?_⟩
  · rw [hn, Scalar.convert, truncated_intCast, Scalar.ofInt?, if_pos ⟨hlow.le, hhigh⟩]
  · rw [hn, BitVec.toInt_ofInt_eq_self (by decide) hlow.le hhigh]

/-! ## GLSL ES -/

namespace Glsl

open Code.Expr (Means)

section Remainder

variable {target : Target} {names : Names} (htarget : target.isGlsl = true) {l r : Expr}

include htarget

/-- The function `mod` rounds the quotient down. -/
theorem means_mod {x y : ℚ} (hl : l.Means target names dialect (.scalar (.float x)))
    (hr : r.Means target names dialect (.scalar (.float y))) (hy : y ≠ 0) :
    (Code.Expr.builtin "mod" [l, r]).Means target names dialect
      (.scalar (.float (residue true x y))) := by
  refine Code.Expr.means_apply (.cons hl (.cons hr .nil))
    (Code.Expr.applies_builtin (by decide) (g := Target.modFloats) ?_ ?_)
  · rw [Target.builtin?, htarget]
    rfl
  · rw [Target.modFloats, Datum.zip, Target.floored, if_neg hy]
    rfl

/-- An integer is converted to the float of its value. -/
theorem means_toFloat {x : BitVec 32} (h : l.Means target names dialect (.scalar (.i32 x))) :
    (toFloat (.ofScalar .i32) l).Means target names dialect (.scalar (.float x.toInt)) :=
  Code.Expr.means_apply (.cons h .nil)
    (applies_primitive htarget rfl rfl (by decide) (List.cons_ne_nil _ _) rfl)

/-- A float is converted to an integer. -/
theorem means_toInt {x : ℚ} {z : BitVec 32}
    (h : l.Means target names dialect (.scalar (.float x)))
    (hz : Scalar.convert .i32 (.float x) = some (.i32 z)) :
    (Code.Expr.construct (.primitive (.ofScalar .i32)) [l]).Means target names dialect
      (.scalar (.i32 z)) := by
  refine Code.Expr.means_apply (.cons h .nil)
    (applies_primitive htarget rfl rfl (by decide) (List.cons_ne_nil _ _) ?_)
  have hcomponents : [Scalar.float x].mapM (Scalar.convert .i32) = some [.i32 z] :=
    mapM_eq_some_iff.mpr (.cons hz .nil)
  change ([Scalar.float x].mapM (Scalar.convert .i32)).bind Datum.ofComponents? = _
  rw [hcomponents]
  rfl

end Remainder

section Rem

variable {s : ResolvedStage} {σ : Valuation} {names : Names} {k : ScalarKind} {a b : Scalar}
  {x y : ℚ}

/-- The remainder of integers is that of floats in GLSL ES 1.00. -/
theorem means_remainder (htarget : s.target.isGlsl = true) {l r : Expr} {t : TypeId}
    (hl : l.Means s.target names dialect (.scalar a))
    (hr : r.Means s.target names dialect (.scalar b))
    (ht : s.types.primitive? t = some (.ofScalar k)) (ha : a.IsNumber k x) (hb : b.IsNumber k y)
    (hy : y ≠ 0) :
    ∃ c e, remainder s l (.ofScalar k) r (.ofScalar k) t = .ok e ∧
      c.IsNumber k (residue (s.target.roundsDown k) x y) ∧
        e.Means s.target names dialect (.scalar c) := by
  cases ha with
  | float hk x =>
      cases hb with
      | float _ y =>
          have hdown : s.target.roundsDown k = true := by rw [Target.roundsDown, htarget, hk]; rfl
          exact ⟨_, _, if_pos hk, hdown ▸ .float hk _, means_mod htarget hl hr hy⟩
      | i32 => cases hk
  | i32 x =>
      cases hb with
      | float hk => cases hk
      | i32 y =>
          have hzero : y ≠ 0 := fun h => hy (by rw [h]; rfl)
          by_cases hwebGL : s.target = .webGL
          · obtain ⟨z, hz, hvalue⟩ := exists_convert_residue x hzero
            have hmod := means_mod htarget (means_toFloat htarget hl) (means_toFloat htarget hr) hy
            refine ⟨.i32 z, _, ?_, ?_, means_toInt htarget hmod hz⟩
            · rw [remainder, if_neg (by decide), if_pos hwebGL, ht]
            · rw [hwebGL, show Target.webGL.roundsDown .i32 = true from rfl, ← hvalue]
              exact .i32 z
          · have hdown : s.target.roundsDown .i32 = false := by
              simp [Target.roundsDown, hwebGL, ScalarKind.isFloat]
            obtain ⟨c, hc, happly⟩ := outcome?_rem (.i32 x) (.i32 y) hy
            refine ⟨c, .binary .rem l r, ?_, hdown ▸ hc, hl.binary hr ?_⟩
            · rw [remainder, if_neg (by decide), if_neg hwebGL]
            · have hint : Target.hasFloat (.scalar (.i32 x)) = false := rfl
              simp [Target.binary?, hwebGL, hint, BinaryOp.isComparison, happly]

/-- The remainder of two terms is what is stored by a compound assignment of it. -/
theorem means_rem (htarget : s.target.isGlsl = true) {lhs rhs : Term} {t : TypeId} {l r : Expr}
    (hlhs : expr s lhs = .ok l) (hrhs : expr s rhs = .ok r)
    (hl : l.Means s.target names dialect (.scalar a))
    (hr : r.Means s.target names dialect (.scalar b))
    (hlt : s.types.primitive? lhs.type = some (.ofScalar k))
    (hrt : s.types.primitive? rhs.type = some (.ofScalar k))
    (ht : s.types.primitive? t = some (.ofScalar k)) (ha : a.IsNumber k x) (hb : b.IsNumber k y)
    (hy : y ≠ 0) :
    ∃ c e, c.IsNumber k (residue (s.target.roundsDown k) x y) ∧
      e.Means s.target names dialect (.scalar c) ∧ expr s (.binary t .rem lhs rhs) = .ok e ∧
        assign s lhs (some .rem) rhs = .ok (.assign l none e) := by
  obtain ⟨c, e, he, hc, hmeans⟩ := means_remainder htarget hl hr hlt ha hb hy
  have hbinary : ∀ t', s.types.primitive? t' = some (.ofScalar k) →
      binary s .rem l lhs.type r rhs.type t' = .ok e := by
    intro t' ht'
    rw [binary, hlt, hrt, ← he]
    simp only [remainder, ht', hlt]
    rfl
  refine ⟨c, e, hc, hmeans, ?_, ?_⟩
  · rw [expr, hlhs, hrhs]
    exact hbinary t ht
  · simp only [assign, hlhs, hrhs, bind, Except.bind, isWrittenOut, if_true, hbinary _ hlt]
    rfl

end Rem

end Glsl

/-! ## WGSL -/

namespace Wgsl

/-- A scalar is not wrapped. -/
theorem isPaddedPlace_of_scalar {s : ResolvedStage} {e : Term} {k : ScalarKind}
    (h : s.types.primitive? e.type = some (.ofScalar k)) : isPaddedPlace s e = false := by
  have hkind : s.types.kind e.type = .primitive (.ofScalar k) := by
    unfold Registry.primitive? at h
    split at h
    · rename_i hkind
      rw [hkind, Option.some.inj h]
    · cases h
  have hmatrix : isPaddedMatrix (.ofScalar k) = false := by cases k <;> rfl
  rw [isPaddedPlace, isPadded, wrapped?, hkind]
  simp [hmatrix]

/-- The operator of a remainder stands between the operands, also in a compound assignment. -/
theorem expr_rem {s : ResolvedStage} {lhs rhs : Term} {l r : Expr} (t : TypeId)
    (hlhs : expr s lhs = .ok l) (hrhs : expr s rhs = .ok r) :
    expr s (.binary t .rem lhs rhs) = .ok (.binary .rem l r) := by
  have hplace : place s (.binary t .rem lhs rhs) = .ok (.binary .rem l r) := by
    have hassoc : place s (.binary t .rem lhs rhs) =
        expr s lhs >>= fun l => expr s rhs >>= fun r => pure (.binary .rem l r) := by
      simp only [place, expr, bind_assoc]
      rfl
    rw [hassoc, hlhs, hrhs]
    rfl
  rw [expr, hplace]
  rfl

/-- An assignment with a remainder is printed with the operator. -/
theorem assign_rem {s : ResolvedStage} {lhs rhs : Term} {l r : Expr}
    (hplain : isPaddedPlace s lhs = false) (hlhs : expr s lhs = .ok l) (hrhs : expr s rhs = .ok r) :
    assign s lhs (some .rem) rhs = .ok (.assign l (some .rem) r) := by
  rw [assign, hplain, if_neg Bool.false_ne_true]
  simp only [assignPlain, hlhs, hrhs, bind, Except.bind]
  rfl

end Wgsl

/-! ## Assignments -/

/-- The text of the place that an assignment stores in, and the value that it stores there: that of
its right side, or what the operator makes of both sides. -/
def Code.Stmt.stored? {τ : Type} (target : Target) (names : Names) (d : Dialect τ) :
    Code.Stmt τ → Option (String × Datum)
  | .assign place none value => (target.read names (value.text d)).map (place.text d, ·)
  | .assign place (some op) value =>
    ((target.read names (place.text d)).bind fun before =>
      (target.read names (value.text d)).bind (target.binary? op before)).map (place.text d, ·)
  | _ => none

/-- What an assignment stores in the language of the stage, and where. -/
def ResolvedStage.stored? (s : ResolvedStage) (names : Names) (place : Term) (op : Option BinaryOp)
    (value : Term) : Except ShaderError (Option (String × Datum)) :=
  if s.target.isGlsl then
    (Glsl.assign s place op value).map (·.stored? s.target names Glsl.dialect)
  else (Wgsl.assign s place op value).map (·.stored? s.target names Wgsl.dialect)

/-! ## Remainders as they are printed -/

/-- The text of a remainder and what is stored by a compound assignment of it are the remainder
whose quotient the target rounds down or toward zero; the two are the same where the quotient is
not negative or is an integer. -/
theorem printed_rem {s : ResolvedStage} {names : Names} {k : ScalarKind} {lhs rhs : Term}
    {t : TypeId} (hlt : s.types.primitive? lhs.type = some (.ofScalar k))
    (hrt : s.types.primitive? rhs.type = some (.ofScalar k))
    (ht : s.types.primitive? t = some (.ofScalar k)) {a b : Scalar}
    (hl : s.Prints names lhs (.scalar a)) (hr : s.Prints names rhs (.scalar b)) {x y : ℚ}
    (ha : a.IsNumber k x) (hb : b.IsNumber k y) (hy : y ≠ 0) :
    (∃ c text place, c.IsNumber k (residue (s.target.roundsDown k) x y) ∧
      s.exprText (.binary t .rem lhs rhs) = .ok text ∧
        s.target.read names text = some (.scalar c) ∧ s.exprText lhs = .ok place ∧
          s.stored? names lhs (some .rem) rhs = .ok (some (place, .scalar c))) ∧
      (residue true x y = residue false x y ↔ 0 ≤ x / y ∨ ∃ n : Int, x / y = n) := by
  refine ⟨?_, residue_eq_iff hy⟩
  unfold ResolvedStage.Prints at hl hr
  unfold ResolvedStage.exprText ResolvedStage.stored?
  split at hl
  -- in GLSL the remainder is a call or an operator of its own, as the kind of its operands has it
  · rename_i htarget
    rw [if_pos htarget] at hr
    obtain ⟨l, hlhs, hlmeans⟩ := hl
    obtain ⟨r, hrhs, hrmeans⟩ := hr
    obtain ⟨c, e, hc, hmeans, hexpr, hassign⟩ :=
      Glsl.means_rem htarget hlhs hrhs hlmeans hrmeans hlt hrt ht ha hb hy
    refine ⟨c, _, _, hc, by rw [if_pos htarget, hexpr]; rfl, hmeans.read,
      by rw [if_pos htarget, hlhs]; rfl, ?_⟩
    rw [if_pos htarget, hassign]
    change Except.ok ((s.target.read names (e.text Glsl.dialect)).map _) = _
    rw [hmeans.read]
    rfl
  · rename_i htarget
    rw [if_neg htarget] at hr
    rw [Bool.not_eq_true] at htarget
    obtain ⟨l, hlhs, hlmeans⟩ := hl
    obtain ⟨r, hrhs, hrmeans⟩ := hr
    obtain ⟨c, hc, happly⟩ := outcome?_rem ha hb hy
    have hdown : s.target.roundsDown k = false := by rw [Target.roundsDown, htarget]; rfl
    have hbinary : s.target.binary? .rem (.scalar a) (.scalar b) = some (.scalar c) := by
      rw [Target.binary?, htarget]
      exact happly
    refine ⟨c, _, _, hdown ▸ hc, by rw [htarget, Wgsl.expr_rem t hlhs hrhs]; rfl,
      (hlmeans.binary hrmeans hbinary).read, by rw [htarget, hlhs]; rfl, ?_⟩
    rw [htarget, Wgsl.assign_rem (Wgsl.isPaddedPlace_of_scalar hlt) hlhs hrhs]
    change Except.ok (((s.target.read names (l.text Wgsl.dialect)).bind fun before =>
      (s.target.read names (r.text Wgsl.dialect)).bind (s.target.binary? .rem before)).map _) = _
    rw [hlmeans.read, Option.bind_some, hrmeans.read, Option.bind_some, hbinary]
    rfl

/-! ## A negative dividend -/

/-- A stage with a variable that is a signed integer. -/
def counterStage (target : Target) : ResolvedStage where
  target := target
  indentWidth := 2
  types := ⟨#[⟨"i32", .primitive ⟨.i32, 1, 1⟩⟩], 0⟩
  vars := #[{ name := "n", type := ⟨0⟩, role := .localVar, stage := .vertex }]
  plan := {}
  decls := { stage := .vertex }
  constants := []
  functions := []
  main := []

/-- The variable is `-7`. -/
def counterValuation : Valuation where
  var v := if v.index = 0 then some (.scalar (.i32 (-7))) else none
  builtin _ := none
  call _ _ := none

/-- The name of the variable. -/
def counterNames : Names := .ofVar "n" (by decide) (.scalar (.i32 (-7)))

theorem agrees_counterNames (target : Target) :
    (counterStage target).Agrees counterNames counterValuation := by
  refine ResolvedStage.agrees_of_names ?_ (fun _ => rfl) ?_ (fun _ _ _ h => by cases h)
  · intro v d h
    obtain ⟨i⟩ := v
    simp only [counterValuation] at h
    split at h
    · rename_i hi
      subst hi
      exact ⟨"n", rfl, rfl, h⟩
    · cases h
  · intro t struct h
    obtain ⟨i⟩ := t
    match i with
    | 0 => cases h
    | i + 1 => cases h

/-- The remainder of the variable by two. -/
def counterRem : Term := .binary ⟨0⟩ .rem (.var ⟨0⟩ ⟨0⟩) (.literal ⟨0⟩ (.i32 2))

/-- The remainder of `-7` by `2` in GLSL ES 1.00. -/
theorem printed_rem_counter :
    (∃ c text place, c.IsNumber .i32 (residue true (-7) 2) ∧
      (counterStage .webGL).exprText counterRem = .ok text ∧
        Target.webGL.read counterNames text = some (.scalar c) ∧
          (counterStage .webGL).exprText (.var ⟨0⟩ ⟨0⟩) = .ok place ∧
            (counterStage .webGL).stored? counterNames (.var ⟨0⟩ ⟨0⟩) (some .rem)
              (.literal ⟨0⟩ (.i32 2)) = .ok (some (place, .scalar c))) ∧
      (residue true (-7) 2 = residue false (-7) 2 ↔
        (0 : ℚ) ≤ -7 / 2 ∨ ∃ n : Int, (-7 / 2 : ℚ) = n) :=
  printed_rem rfl rfl rfl (ResolvedStage.prints_of_value (agrees_counterNames .webGL) rfl rfl)
    (ResolvedStage.prints_of_value (agrees_counterNames .webGL) rfl rfl) (.i32 (-7)) (.i32 2)
    (by decide)

/-- The remainder of `-7` by `2` is `1` in GLSL ES 1.00 and `-1` in WGSL. -/
theorem rem_counter_differs :
    (counterStage .webGL).exprText counterRem = .ok "int(mod(float(n), float(2)))" ∧
      Target.webGL.read counterNames "int(mod(float(n), float(2)))" = some (.scalar (.i32 1)) ∧
        (counterStage .webGPU).exprText counterRem = .ok "(n % 2i)" ∧
          Target.webGPU.read counterNames "(n % 2i)" = some (.scalar (.i32 (-1))) := by
  refine ⟨rfl, ?_, rfl, rfl⟩
  -- quotients of rationals are not unfolded otherwise
  with_unfolding_all rfl

end WebShader
