import Colourway.Number.Shortest
import Colourway.Text.Basic

/-!
# Numbers as text

Integers are written in plain digits, unless they have too many of them. A double is written with
the fewest digits that read back: positionally, always with a point, while its first digit stands at
10^-4 or above and below 10^16, and with an exponent of at least two digits otherwise.
-/

namespace Colourway.Number

/-- The decimal digits of a natural number. -/
def natText (n : Nat) : Text := (Nat.toDigits 10 n).map .char

/-- The sign in front of a number that may be negative. -/
def signText (negative : Bool) : Text := if negative then "-" else []

/-- The digits of an integer, with its sign. -/
def intDigits (n : Int) : Text :=
  signText (n < 0) ++ natText n.natAbs

/-- The greatest number of digits that an integer is read or written with. -/
def digitLimit : Nat := 4300

/-- The text of an integer, unless it has too many digits. -/
def intText? (n : Int) : Option Text :=
  if (natText n.natAbs).length ≤ digitLimit then some (intDigits n) else none

/-- A row of zeros. -/
def zeroDigits (n : Nat) : Text := List.replicate n '0'

/-- The positional form of `0.digits · 10 ^ point`. -/
def positional (digits : Text) (point : Int) : Text :=
  if point ≤ 0 then "0." ++ zeroDigits (-point).toNat ++ digits
  else if digits.length ≤ point.toNat then
    digits ++ zeroDigits (point.toNat - digits.length) ++ ".0"
  else digits.take point.toNat ++ "." ++ digits.drop point.toNat

/-- The exponent form, with the first digit before the point. -/
def exponential (digits : Text) (exponent : Int) : Text :=
  let body : Text := match digits with
    | [] => []
    | [d] => [d]
    | d :: rest => d :: '.' :: rest
  let magnitude := natText exponent.natAbs
  let mark : Text := if exponent < 0 then "e-" else "e+"
  body ++ mark ++ zeroDigits (2 - magnitude.length) ++ magnitude

/-- The text of a decimal. -/
def Decimal.text (d : Decimal) : Text :=
  if d.digits = 0 then "0.0"
  else
    let digits := natText d.digits
    let point := d.exponent + Int.ofNat digits.length
    if -4 < point ∧ point ≤ 16 then positional digits point else exponential digits (point - 1)

/-- How the values that are no finite numbers are spelled. -/
structure SpecialNames where
  /-- Infinity, without its sign. -/
  infinity : Text
  /-- Not a number. -/
  nan : Text

/-- The spelling in messages and spliced values. -/
def SpecialNames.short : SpecialNames := ⟨"inf", "nan"⟩

/-- The spelling in written documents. -/
def SpecialNames.long : SpecialNames := ⟨"Infinity", "NaN"⟩

/-- The text of a double. -/
def floatText (names : SpecialNames) (x : Float) : Text :=
  match Reading.of x with
  | .nan => names.nan
  | .infinite negative => signText negative ++ names.infinity
  | .finite p => signText p.negative ++ p.shortest.text

end Colourway.Number
