import WebShader.Binary.Basic

/-!
# Reading decimal numbers

A decimal text is an optional sign, then digits with at most one point among or around them, then
an optional exponent; or one of the words `nan`, `inf` and `infinity` in any case. It is read as
the nearest datum of a format.
-/

namespace WebShader

/-! ## Decimals -/

/-- The decimal `digits * 10 ^ exponent`, where `digits` is spelled with `length` digits after the
leading zeros. -/
structure Decimal where
  digits : Nat
  length : Nat
  exponent : Int

namespace Decimal

/-- The natural a list of digits spells, most significant first. -/
def natOfDigits (cs : List Char) : Nat :=
  cs.foldl (fun n c => 10 * n + (c.toNat - '0'.toNat)) 0

/-- Read an exponent: nothing, or the letter, an optional sign and some digits. -/
def readExponent : List Char → Option Int
  | [] => some 0
  | c :: rest =>
    if c.toLower != 'e' then none
    else
      let (negative, digits) := match rest with
        | '-' :: ds => (true, ds)
        | '+' :: ds => (false, ds)
        | ds => (false, ds)
      if digits.isEmpty || !digits.all Char.isDigit then none
      else
        let n : Int := natOfDigits digits
        some (if negative then -n else n)

/-- Read a decimal without sign. -/
def read (cs : List Char) : Option Decimal :=
  let whole := cs.takeWhile Char.isDigit
  let (fraction, rest) := match cs.dropWhile Char.isDigit with
    | '.' :: rest => (rest.takeWhile Char.isDigit, rest.dropWhile Char.isDigit)
    | rest => ([], rest)
  let digits := whole ++ fraction
  if digits.isEmpty then none
  else
    (readExponent rest).map fun e =>
      ⟨natOfDigits digits, (digits.dropWhile (· == '0')).length, e - fraction.length⟩

/-- The datum nearest to the decimal. Beyond 10^400 it is infinite and below 10^-400 it is zero,
which holds of every format of at most 64 bits. -/
def round (f : BinaryFormat) (negative : Bool) (d : Decimal) : Binary :=
  let top := (d.length : Int) + d.exponent
  if d.digits = 0 || top < -400 then .finite negative 0 f.minExponent
  else if 400 < top then .infinity negative
  else if d.exponent < 0 then Binary.round f negative d.digits (Nat.pow 10 (-d.exponent).toNat)
  else Binary.round f negative (d.digits * Nat.pow 10 d.exponent.toNat) 1

end Decimal

/-! ## Numbers -/

namespace Binary

/-- Read a number without sign. -/
def readMagnitude (f : BinaryFormat) (negative : Bool) (cs : List Char) : Option Binary :=
  let word := String.ofList (cs.map Char.toLower)
  if word == "nan" then some .nan
  else if word == "inf" || word == "infinity" then some (.infinity negative)
  else (Decimal.read cs).map (Decimal.round f negative)

/-- Read a number into a format. -/
def ofText? (f : BinaryFormat) (s : String) : Option Binary :=
  match s.toList with
  | '-' :: cs => readMagnitude f true cs
  | '+' :: cs => readMagnitude f false cs
  | cs => readMagnitude f false cs

end Binary

end WebShader
