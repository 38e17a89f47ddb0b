import WebShader.Binary.Shortest

/-!
# Writing floating-point numbers

Messages quote a number by its shortest decimal in positional notation. Sources spell it so that it
keeps its type: an integer below 10^16 with all its digits and one zero after the point, another
number of that range positionally, and anything else with an exponent.
-/

namespace WebShader

namespace Binary

/-- A decimal in positional notation. -/
def Digits.positional (d : Digits) : String :=
  let zeros (n : Nat) := List.replicate n '0'
  String.ofList <|
    if d.point ≤ 0 then '0' :: '.' :: zeros (-d.point).toNat ++ d.digits
    else
      let whole := d.point.toNat
      if whole < d.digits.length then d.digits.take whole ++ '.' :: d.digits.drop whole
      else d.digits ++ zeros (whole - d.digits.length)

/-- A decimal in scientific notation, one digit standing before the point. -/
def Digits.scientific (d : Digits) : String :=
  let mantissa := match d.digits with
    | [] => "0"
    | [c] => c.toString
    | c :: rest => c.toString ++ "." ++ String.ofList rest
  mantissa ++ "e" ++ toString (d.point - 1)

/-- The sign of a number. -/
def signText (negative : Bool) : String := if negative then "-" else ""

/-- The number as messages quote it. -/
def text (f : BinaryFormat) : Binary → String
  | nan => "NaN"
  | infinity negative => signText negative ++ "inf"
  | finite negative m e =>
    signText negative ++ if m = 0 then "0" else (shortest f m e).positional

/-- The number as sources spell it; its shortest decimal decides on the notation. -/
def literalText (f : BinaryFormat) : Binary → String
  | nan => "NaN"
  | infinity negative => signText negative ++ "inf"
  | finite negative m e =>
    signText negative ++
      if m = 0 then "0.0"
      else
        let d := shortest f m e
        let (num, den) := quotient m e
        if num % den == 0 && d.point ≤ 16 then toString (num / den) ++ ".0"
        else if -4 < d.point && d.point ≤ 16 then d.positional
        else d.scientific

end Binary

end WebShader
