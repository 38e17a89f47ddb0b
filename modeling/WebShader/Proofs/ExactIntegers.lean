import Mathlib.Algebra.Order.Field.Rat
import Mathlib.Data.Rat.Cast.Order
import Mathlib.Tactic.FieldSimp
import Mathlib.Tactic.Positivity
import Mathlib.Tactic.Ring
import WebShader.Proofs.IntrinsicOverloads

/-!
# Exact integers

The integers among the values of a component type. Whether a host value fits a type is decided by
the odd factor of an integer, and the literal is made by rounding: an integer whose odd factor has
no more bits than a mantissa is rounded to itself.
-/

namespace WebShader

/-! ## Odd factors -/

/-- A factor of two does not change the odd part. -/
theorem oddPart_two_mul (n : Nat) : oddPart (2 * n) = oddPart n := by
  by_cases h : n = 0
  · rw [h]
  · rw [oddPart, if_neg (by simp; omega), Nat.mul_div_cancel_left n Nat.two_pos]

/-- A natural is its odd factor times a power of two. -/
theorem exists_eq_oddPart_mul (n : Nat) : ∃ k, n = oddPart n * 2 ^ k := by
  induction n using oddPart.induct with
  | case1 n h =>
      refine ⟨0, ?_⟩
      rw [oddPart, if_pos h, pow_zero, mul_one]
  | case2 n h ih =>
      obtain ⟨k, hk⟩ := ih
      have heven : n = 2 * (n / 2) := by
        simp only [Bool.or_eq_true, decide_eq_true_eq, not_or] at h
        omega
      refine ⟨k + 1, ?_⟩
      rw [heven, oddPart_two_mul, pow_succ, ← mul_assoc, ← hk, mul_comm]

/-- The odd part is at most the number. -/
theorem oddPart_le (n : Nat) : oddPart n ≤ n := by
  obtain ⟨k, hk⟩ := exists_eq_oddPart_mul n
  calc oddPart n ≤ oddPart n * 2 ^ k := Nat.le_mul_of_pos_right _ (Nat.two_pow_pos k)
    _ = n := hk.symm

/-- Powers of two do not count. -/
theorem oddPart_mul_pow (m k : Nat) : oddPart (m * 2 ^ k) = oddPart m := by
  induction k with
  | zero => rw [pow_zero, mul_one]
  | succ k ih => rw [pow_succ, ← mul_assoc, mul_comm, oddPart_two_mul, ih]

/-! ## Integers of a type -/

/-- An integer is a mantissa of some bits, with a sign, times a power of two. -/
def IsScaled (bits : Nat) (i : Int) : Prop := ∃ m e : Int, |m| < 2 ^ bits ∧ (i : ℚ) = m * 2 ^ e

/-- The integers among the values of a type: those of 32 bits, with or without a sign, and those
that have few bits up to a power of two. The floats of 16 bits end at 65504. -/
def ScalarKind.HasInt (i : Int) : ScalarKind → Prop
  | .bool => False
  | .i32 => -2 ^ 31 ≤ i ∧ i < 2 ^ 31
  | .u32 => 0 ≤ i ∧ i < 2 ^ 32
  | .f32 => IsScaled 24 i
  | .f16 => IsScaled 11 i ∧ |i| ≤ 65504

/-- A power of two in a mantissa may as well be left in the integer. -/
theorem IsScaled.exists_nat {bits : Nat} {i : Int} (h : IsScaled bits i) :
    ∃ m k : Nat, m < 2 ^ bits ∧ i.natAbs = m * 2 ^ k := by
  obtain ⟨m, e, hm, hi⟩ := h
  have hm : m.natAbs < 2 ^ bits := by
    rw [Int.abs_eq_natAbs] at hm
    exact_mod_cast hm
  rcases le_or_gt 0 e with he | he
  · -- the exponent is natural
    obtain ⟨k, rfl⟩ := Int.eq_ofNat_of_zero_le he
    have hi : i = m * 2 ^ k := by
      rw [zpow_natCast] at hi
      exact_mod_cast hi
    exact ⟨m.natAbs, k, hm, by rw [hi, Int.natAbs_mul, Int.natAbs_pow]; rfl⟩
  · -- the integer is at most the mantissa
    obtain ⟨k, hk⟩ := Int.exists_eq_neg_ofNat he.le
    have hi : i * 2 ^ k = m := by
      rw [hk, zpow_neg, zpow_natCast, ← div_eq_mul_inv, eq_div_iff (by positivity)] at hi
      exact_mod_cast hi
    refine ⟨i.natAbs, 0, lt_of_le_of_lt ?_ hm, by rw [pow_zero, mul_one]⟩
    rw [← hi, Int.natAbs_mul, Int.natAbs_pow]
    exact Nat.le_mul_of_pos_right _ (Nat.two_pow_pos k)

/-- An integer is exact in some bits if its odd factor has no more of them. -/
theorem isExactIn_iff {bits : Nat} {i : Int} : isExactIn bits i = true ↔ IsScaled bits i := by
  rw [isExactIn, decide_eq_true_eq, Nat.pow_eq]
  constructor
  · intro h
    obtain ⟨k, hk⟩ := exists_eq_oddPart_mul i.natAbs
    refine ⟨i.sign * oddPart i.natAbs, k, ?_, ?_⟩
    · rw [Int.abs_eq_natAbs, Int.natAbs_mul, Int.natAbs_natCast]
      have hsign : i.sign.natAbs ≤ 1 := by
        rw [Int.natAbs_sign]
        split <;> omega
      exact_mod_cast lt_of_le_of_lt (mul_le_of_le_one_left (Nat.zero_le _) hsign) h
    · have hi : i = i.sign * oddPart i.natAbs * 2 ^ k := by
        rw [mul_assoc]
        conv_lhs => rw [← Int.sign_mul_natAbs i, hk]
        push_cast
        rfl
      rw [zpow_natCast]
      exact_mod_cast hi
  · intro h
    obtain ⟨m, k, hm, hi⟩ := h.exists_nat
    rw [hi, oddPart_mul_pow]
    exact lt_of_le_of_lt (oddPart_le m) hm

/-- An integer fits a type exactly if it is one of its values. -/
theorem HostValue.fits_int_iff {i : Int} {k : ScalarKind} :
    (HostValue.int i).fits k = true ↔ k.HasInt i := by
  cases k with
  | bool => simp [fits, ScalarKind.HasInt]
  | i32 => simp [fits, isI32, ScalarKind.HasInt]
  | u32 => simp [fits, isU32, ScalarKind.HasInt]
  | f32 => exact isExactIn_iff
  | f16 =>
      have hmax : i.natAbs ≤ Binary.maxHalf ↔ |i| ≤ 65504 := by
        rw [Int.abs_eq_natAbs, Binary.maxHalf]
        omega
      rw [fits, Bool.and_eq_true, decide_eq_true_eq, isExactIn_iff, hmax]
      rfl

/-! ## Rounding -/

namespace Binary

/-- The number a datum stands for, if it is finite. -/
def value? : Binary → Option ℚ
  | finite negative m e => some ((if negative then -1 else 1) * m * 2 ^ e)
  | _ => none

variable {f : BinaryFormat} {n : Nat}

/-- The unit in the last place of a natural, where it is above the least of the format. -/
theorem unitExponent_one (hn : n ≠ 0) (hmin : f.minExponent + f.precision ≤ 1) :
    unitExponent f n 1 = n.log2 - (f.precision - 1) := by
  have hbelow : ¬n < 2 ^ n.log2 := Nat.not_lt.mpr (Nat.log2_self_le hn)
  have hguess : ¬((n.log2 : Int) - (Nat.log2 1 : Nat) < 0) := by
    rw [show Nat.log2 1 = 0 from rfl]
    omega
  unfold unitExponent
  simp only [hguess, if_false, one_mul, Nat.pow_eq]
  rw [show Nat.log2 1 = 0 from rfl, Nat.cast_zero, sub_zero, Int.toNat_natCast]
  simp only [hbelow, decide_false, Bool.false_eq_true, if_false]
  exact max_eq_right (by omega)

/-- A division without a remainder is not rounded. -/
theorem divideToEven_of_dvd {num den : Nat} (hden : 0 < den) (h : den ∣ num) :
    divideToEven num den = num / den := by
  unfold divideToEven
  rw [Nat.mod_eq_zero_of_dvd h]
  simp [hden]

/-- A natural with few bits up to a power of two is a multiple of its unit in the last place. -/
theorem scaledMantissa_mul {e : Int} (h : e ≤ 0 ∨ 2 ^ e.toNat ∣ n) :
    (scaledMantissa n 1 e : ℚ) * 2 ^ e = n := by
  unfold scaledMantissa
  simp only [Nat.pow_eq, one_mul]
  split
  · rename_i he
    obtain ⟨k, rfl⟩ := Int.exists_eq_neg_ofNat he.le
    rw [divideToEven_of_dvd Nat.one_pos (one_dvd _), Nat.div_one, neg_neg, Int.toNat_natCast,
      zpow_neg, zpow_natCast]
    push_cast
    field_simp
  · rename_i he
    obtain ⟨k, rfl⟩ := Int.eq_ofNat_of_zero_le (not_lt.mp he)
    have hdvd : 2 ^ k ∣ n := by
      rcases h with h | h
      · obtain rfl : k = 0 := by omega
        exact one_dvd n
      · exact h
    rw [Int.toNat_natCast, divideToEven_of_dvd (Nat.two_pow_pos k) hdvd, zpow_natCast]
    exact_mod_cast Nat.div_mul_cancel hdvd

/-- The bits of a natural are those of its odd factor and the zeros after them. -/
theorem log2_eq_oddPart_add {k : Nat} (hn : n ≠ 0) (hk : n = oddPart n * 2 ^ k) :
    n.log2 = (oddPart n).log2 + k := by
  have hodd : oddPart n ≠ 0 := fun h => hn (by rw [hk, h, zero_mul])
  refine (Nat.log2_eq_iff hn).mpr ⟨?_, ?_⟩
  · calc 2 ^ ((oddPart n).log2 + k) = 2 ^ (oddPart n).log2 * 2 ^ k := pow_add 2 _ k
      _ ≤ oddPart n * 2 ^ k := Nat.mul_le_mul_right _ (Nat.log2_self_le hodd)
      _ = n := hk.symm
  · calc n = oddPart n * 2 ^ k := hk
      _ < 2 ^ ((oddPart n).log2 + 1) * 2 ^ k :=
        Nat.mul_lt_mul_of_pos_right Nat.lt_log2_self (Nat.two_pow_pos k)
      _ = 2 ^ ((oddPart n).log2 + k + 1) := by rw [← pow_add, add_right_comm]

/-- The unit in the last place divides a natural whose odd factor is a mantissa. -/
theorem unit_dvd (hn : n ≠ 0) (hmin : f.minExponent + f.precision ≤ 1)
    (hexact : oddPart n < 2 ^ f.precision) : 2 ^ (unitExponent f n 1).toNat ∣ n := by
  obtain ⟨k, hk⟩ := exists_eq_oddPart_mul n
  have hodd : oddPart n ≠ 0 := fun h => hn (by rw [hk, h, zero_mul])
  have hlog := log2_eq_oddPart_add hn hk
  have hbits : (oddPart n).log2 < f.precision := (Nat.log2_lt hodd).mpr hexact
  have hunit := unitExponent_one hn hmin
  conv_rhs => rw [hk]
  exact Dvd.dvd.mul_left (Nat.pow_dvd_pow 2 (by omega)) _

/-- An integer in the range of a format, of few enough bits up to a power of two, is rounded to
itself. -/
theorem value?_round (negative : Bool) (hmin : f.minExponent + f.precision ≤ 1)
    (hmax : (n.log2 : Int) < f.maxExponent + f.precision) (hexact : oddPart n < 2 ^ f.precision) :
    (round f negative n 1).value? = some (((if negative then -1 else 1) * n : ℚ)) := by
  by_cases hn : n = 0
  · simp [round, hn, value?]
  · have hunit := unitExponent_one hn hmin
    have hvalue := scaledMantissa_mul (Or.inr (unit_dvd hn hmin hexact))
    -- nothing is carried: the natural has one bit less than the unit after the mantissa
    have hcarry : scaledMantissa n 1 (unitExponent f n 1) < 2 ^ f.precision := by
      have hlt : (n : ℚ) < 2 ^ f.precision * 2 ^ unitExponent f n 1 := by
        rw [hunit, ← zpow_natCast, ← zpow_add₀ (by norm_num)]
        have hn : n < 2 ^ (n.log2 + 1) := Nat.lt_log2_self
        have hexp : (f.precision : Int) + (n.log2 - (f.precision - 1)) = (n.log2 + 1 : Nat) := by
          push_cast
          ring
        rw [hexp, zpow_natCast]
        exact_mod_cast hn
      rw [← hvalue] at hlt
      have hpos : (0 : ℚ) < 2 ^ unitExponent f n 1 := zpow_pos two_pos _
      exact_mod_cast lt_of_mul_lt_mul_right hlt hpos.le
    have hrange : ¬f.maxExponent < unitExponent f n 1 := by omega
    unfold round
    simp only [hn, hcarry.ne, hrange, if_false, Nat.pow_eq, value?]
    rw [mul_assoc, hvalue]

/-- An integer of 64 bits that 24 of them make up is a datum of the 32-bit format. -/
theorem value?_ofInt {i : Int} (hi : i.natAbs < 2 ^ 64) (hexact : isExactIn 24 i = true) :
    (ofInt .single i).value? = some (i : ℚ) := by
  have hlog : i.natAbs.log2 < 128 := by
    by_cases h : i.natAbs = 0
    · rw [h]
      decide
    · exact (Nat.log2_lt h).mpr (hi.trans (by decide))
  have hmax : (i.natAbs.log2 : Int) <
      BinaryFormat.single.maxExponent + BinaryFormat.single.precision := by
    show (i.natAbs.log2 : Int) < 104 + (24 : Nat)
    omega
  rw [ofInt, value?_round _ (by decide) hmax (of_decide_eq_true hexact)]
  have hsign : i = (if decide (i < 0) then -1 else 1) * (i.natAbs : Int) := by
    by_cases h : i < 0
    · rw [decide_eq_true h, if_pos rfl]
      omega
    · rw [decide_eq_false h, if_neg (by decide)]
      omega
  refine congrArg some ?_
  conv_rhs => rw [hsign]
  rw [Int.cast_mul, Int.cast_natCast]
  split <;> rfl

end Binary

/-! ## Literals -/

/-- The number that a literal denotes. -/
def Literal.number? : Literal → Option ℚ
  | bool _ => none
  | i32 i => some i
  | u32 n => some n
  | f32 x | f16 x => x.value?

namespace HostValue

/-- An integer without sign is its absolute value. -/
theorem number?_u32 {i : Int} (h : isU32 i = true) :
    (Literal.u32 i.toNat).number? = some (i : ℚ) := by
  have hnat : (i.toNat : Int) = i := by
    simp only [isU32, Bool.and_eq_true, decide_eq_true_eq] at h
    omega
  have hcast : ((i.toNat : Nat) : ℚ) = (i : ℚ) := by
    exact_mod_cast congrArg (Int.cast (R := ℚ)) hnat
  rw [Literal.number?, hcast]

/-- The literals that an integer is made into, each of a type that it fits. -/
theorem toLiteral_int_cases {i : Int} {hint : Option ScalarKind} {l : Literal}
    (h : (int i).toLiteral hint = .ok l) : (int i).fits l.scalar = true ∧
      (l = .i32 i ∨ l = .u32 i.toNat ∨
        l = .f32 (Binary.ofInt .single i) ∨ l = .f16 (Binary.ofInt .single i)) := by
  have hchosen : ∀ {c : Bool} {l' : Literal} {fault : TypeFault},
      (if c then .ok l' else .error fault) = Except.ok l → c = true ∧ l = l' := by
    intro c l' fault h
    cases c with
    | true => exact ⟨rfl, (Except.ok.inj h).symm⟩
    | false => cases h
  cases hint with
  | none =>
      simp only [toLiteral] at h
      split at h
      · rename_i hi
        obtain rfl := Except.ok.inj h
        exact ⟨hi, .inl rfl⟩
      · obtain ⟨hi, rfl⟩ := hchosen h
        exact ⟨hi, .inr (.inl rfl)⟩
  | some k =>
      cases k with
      | bool => cases h
      | i32 =>
          obtain ⟨hi, rfl⟩ := hchosen h
          exact ⟨hi, .inl rfl⟩
      | u32 =>
          obtain ⟨hi, rfl⟩ := hchosen h
          exact ⟨hi, .inr (.inl rfl)⟩
      | f32 =>
          obtain ⟨hi, rfl⟩ := hchosen h
          exact ⟨hi, .inr (.inr (.inl rfl))⟩
      | f16 =>
          obtain ⟨hi, rfl⟩ := hchosen h
          exact ⟨hi, .inr (.inr (.inr rfl))⟩

/-- The literal made of an integer of 64 bits, whatever type is asked for, denotes this integer,
which is one of the type of the literal. -/
theorem number?_of_toLiteral {i : Int} (hi : i.natAbs < 2 ^ 64) {hint : Option ScalarKind}
    {l : Literal} (h : (int i).toLiteral hint = .ok l) :
    l.scalar.HasInt i ∧ l.number? = some (i : ℚ) := by
  obtain ⟨hfits, hl⟩ := toLiteral_int_cases h
  refine ⟨fits_int_iff.mp hfits, ?_⟩
  rcases hl with rfl | rfl | rfl | rfl
  · rfl
  · exact number?_u32 hfits
  · exact Binary.value?_ofInt hi hfits
  · -- a mantissa of 11 bits has no more than 24
    exact Binary.value?_ofInt hi (fits_f32_of_f16 hfits)

end HostValue

end WebShader
