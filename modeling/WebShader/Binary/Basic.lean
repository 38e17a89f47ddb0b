/-!
# Binary floating-point numbers

Floating-point data as exact values: a mantissa times a power of two, an infinity, or no number at
all. `Binary.round` brings any quotient of naturals into a format, to the nearest datum and from
the middle to the one with the even mantissa.
-/

namespace WebShader

/-! ## Formats -/

/-- A format: the bits of a mantissa and the range of the exponents. -/
structure BinaryFormat where
  precision : Nat
  minExponent : Int
  maxExponent : Int

namespace BinaryFormat

/-- The 32-bit format. -/
def single : BinaryFormat := ⟨24, -149, 104⟩

/-- The 64-bit format. -/
def double : BinaryFormat := ⟨53, -1074, 971⟩

end BinaryFormat

/-! ## Data -/

/-- A floating-point datum; a finite one is `mantissa * 2 ^ exponent` with a sign. -/
inductive Binary where
  | nan
  | infinity (negative : Bool)
  | finite (negative : Bool) (mantissa : Nat) (exponent : Int)
  deriving DecidableEq

namespace Binary

/-- The value `m * 2 ^ e` as a quotient of naturals. -/
def quotient (m : Nat) (e : Int) : Nat × Nat :=
  if e < 0 then (m, Nat.pow 2 (-e).toNat) else (m * Nat.pow 2 e.toNat, 1)

/-- The quotient `num / den` rounded to the nearest natural, the middle going to the even one. -/
def divideToEven (num den : Nat) : Nat :=
  let q := num / den
  let twice := 2 * (num % den)
  if twice < den then q
  else if den < twice then q + 1
  else if q % 2 = 0 then q else q + 1

/-- The quotient `num / den` in units of `2 ^ e`, rounded to a natural. -/
def scaledMantissa (num den : Nat) (e : Int) : Nat :=
  if e < 0 then divideToEven (num * Nat.pow 2 (-e).toNat) den
  else divideToEven num (den * Nat.pow 2 e.toNat)

/-- The exponent of the unit in the last place of `num / den` in a format.

The logarithms of the two naturals give the exponent up to one. -/
def unitExponent (f : BinaryFormat) (num den : Nat) : Int :=
  let guess : Int := (num.log2 : Int) - (den.log2 : Int)
  let below : Bool :=
    if guess < 0 then num * Nat.pow 2 (-guess).toNat < den
    else num < den * Nat.pow 2 guess.toNat
  let top := if below then guess - 1 else guess
  max f.minExponent (top - ((f.precision : Int) - 1))

/-- The datum of a format nearest to `num / den`, of the two nearest the one whose mantissa is
even. -/
def round (f : BinaryFormat) (negative : Bool) (num den : Nat) : Binary :=
  if num = 0 then finite negative 0 f.minExponent
  else
    let e := unitExponent f num den
    let m := scaledMantissa num den e
    let carried := m = Nat.pow 2 f.precision
    let (m, e) := if carried then (Nat.pow 2 (f.precision - 1), e + 1) else (m, e)
    if f.maxExponent < e then infinity negative else finite negative m e

/-- The datum of a format nearest to an integer. -/
def ofInt (f : BinaryFormat) (i : Int) : Binary := round f (i < 0) i.natAbs 1

/-- The datum of another format nearest to this one. -/
def convert (f : BinaryFormat) : Binary → Binary
  | nan => nan
  | infinity negative => infinity negative
  | finite negative m e =>
    let (num, den) := quotient m e
    round f negative num den

/-- Whether the datum is finite and its magnitude is at most `bound`. -/
def isWithin (bound : Nat) : Binary → Bool
  | finite _ m e =>
    let (num, den) := quotient m e
    num ≤ bound * den
  | _ => false

/-- Whether the datum is an integer. -/
def isIntegral : Binary → Bool
  | finite _ m e =>
    let (num, den) := quotient m e
    num % den == 0
  | _ => false

/-- The largest magnitude of the 32-bit format. -/
def maxSingle : Nat := (Nat.pow 2 24 - 1) * Nat.pow 2 104

/-- The largest magnitude of the 16-bit format. -/
def maxHalf : Nat := 65504

/-! ## Laws of rounding -/

/-- A rounded quotient differs from the exact one by half a unit at most. -/
theorem divideToEven_bounds (num den : Nat) (h : 0 < den) :
    2 * num ≤ (2 * divideToEven num den + 1) * den ∧
      2 * divideToEven num den * den ≤ 2 * num + den := by
  have hd := Nat.div_add_mod num den
  have hm := Nat.mod_lt num h
  unfold divideToEven
  simp only
  generalize num / den = q at *
  generalize num % den = r at *
  subst hd
  have hq : q * den = den * q := Nat.mul_comm q den
  split
  · constructor <;> (simp only [Nat.add_mul, Nat.mul_assoc, hq]; omega)
  · split
    · constructor <;> (simp only [Nat.add_mul, Nat.mul_add, Nat.mul_assoc, hq]; omega)
    · split
      · constructor <;> (simp only [Nat.add_mul, Nat.mul_assoc, hq]; omega)
      · constructor <;> (simp only [Nat.add_mul, Nat.mul_add, Nat.mul_assoc, hq]; omega)

end Binary

end WebShader
