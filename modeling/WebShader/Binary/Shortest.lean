import WebShader.Binary.Basic

/-!
# Shortest decimals

The shortest decimal that reads back as a given datum: of the decimals in the interval that rounds
to the datum, one with the fewest digits, and of these the nearest to the datum, the larger when
two are as near.
-/

namespace WebShader

namespace Binary

/-! ## Intervals -/

/-- The positive numbers that round to a datum, as naturals over a common denominator: the datum
itself, the two ends, and whether the ends belong to the interval. -/
structure Interval where
  value : Nat
  low : Nat
  high : Nat
  den : Nat
  closed : Bool

/-- The interval of the datum `m * 2 ^ e`. The gap below is half as wide at a power of two, unless
the exponent is the least of the format; the ends round to the datum when its mantissa is even. -/
def interval (f : BinaryFormat) (m : Nat) (e : Int) : Interval :=
  let (unit, den) := quotient 1 (e - 2)
  let below := if m = Nat.pow 2 (f.precision - 1) && f.minExponent < e then 1 else 2
  ⟨4 * m * unit, (4 * m - below) * unit, (4 * m + 2) * unit, den, m % 2 == 0⟩

/-- Whether `num / den` belongs to the interval. -/
def Interval.has (i : Interval) (num den : Nat) : Bool :=
  let n := num * i.den
  if i.closed then i.low * den ≤ n && n ≤ i.high * den else i.low * den < n && n < i.high * den

/-! ## Digits -/

/-- The decimal point of a positive number: the exponent `k` with `10^(k-1) ≤ num / den < 10^k`. -/
def decimalPoint (num den : Nat) : Int :=
  if den ≤ num then (toString (num / den)).length
  else
    -- the zeros after the point: the first power of ten that brings the number up to one
    let zeros := ((List.range (den.log2 + 1)).find? fun z => den ≤ num * Nat.pow 10 (z + 1)).getD 0
    (0 : Int) - zeros

/-- The decimal of `count` digits next to the value, if one belongs to the interval: `n` stands for
`n * 10 ^ (point - count)`. -/
def gridPoint? (i : Interval) (point : Int) (count : Nat) : Option Nat :=
  let shift := point - count
  let (unit, scale) :=
    if shift < 0 then (1, Nat.pow 10 (-shift).toNat) else (Nat.pow 10 shift.toNat, 1)
  let below := i.value * scale / (i.den * unit)
  let twice := 2 * (i.value * scale - below * (i.den * unit))
  let lowFits := i.has (below * unit) scale
  let highFits := i.has ((below + 1) * unit) scale
  if lowFits && (!highFits || twice < i.den * unit) then some below
  else if highFits then some (below + 1)
  else none

/-- A positive decimal `0.d₁d₂… * 10 ^ point`, its last digit not zero. -/
structure Digits where
  digits : List Char
  point : Int

/-- The decimal of the natural `n` times `10 ^ shift`, without zeros at its end. -/
def Digits.ofNat (n : Nat) (shift : Int) : Digits :=
  let all := (toString n).toList
  ⟨(all.reverse.dropWhile (· == '0')).reverse, all.length + shift⟩

/-- The shortest decimal of the positive datum `m * 2 ^ e`. Seventeen digits always suffice for a
format of at most 64 bits. -/
def shortest (f : BinaryFormat) (m : Nat) (e : Int) : Digits :=
  let i := interval f m e
  let point := decimalPoint i.value i.den
  let found := (List.range 17).findSome? fun c =>
    (gridPoint? i point (c + 1)).map fun n => Digits.ofNat n (point - (c + 1 : Nat))
  found.getD (Digits.ofNat 0 0)

end Binary

end WebShader
