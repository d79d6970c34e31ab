import Colourway.Number.Shortest

/-!
# Rounding and remainders of doubles

Rounding goes to the nearest integer, a half to the even one. The remainder by a positive integer
has the sign of the divisor. Both are computed from the exact value of the double.
-/

namespace Colourway.Number

/-- The nearest integer to `significand · 2 ^ exponent`, a half going to the even one. -/
def Parts.rounded (p : Parts) : Int :=
  let size :=
    if 0 ≤ p.exponent then p.significand * Nat.pow 2 p.exponent.toNat
    else
      let unit := Nat.pow 2 (-p.exponent).toNat
      let whole := p.significand / unit
      let twice := 2 * (p.significand % unit)
      if twice < unit || (twice == unit && whole % 2 == 0) then whole else whole + 1
  if p.negative then -Int.ofNat size else Int.ofNat size

/-- The integer part of `significand · 2 ^ exponent`, sign kept. -/
def Parts.truncated (p : Parts) : Int :=
  let size := p.significand * Nat.pow 2 p.exponent.toNat / Nat.pow 2 (-p.exponent).toNat
  if p.negative then -Int.ofNat size else Int.ofNat size

/-- The double `2 ^ exponent`, for exponents from -1074 to 1023. -/
def powerOfTwo (exponent : Int) : Float :=
  .ofBits <| Nat.toUInt64 <|
    if -1022 ≤ exponent then (exponent + 1023).toNat * Nat.pow 2 52
    else Nat.pow 2 (exponent + 1074).toNat

/-- The exact remainder of the size of the double by `n`; it is a double again. -/
def Parts.remainder (p : Parts) (n : Nat) : Float :=
  if 0 ≤ p.exponent then Float.ofNat (p.significand * Nat.pow 2 p.exponent.toNat % n)
  else Float.ofNat (p.significand % (n * Nat.pow 2 (-p.exponent).toNat)) * powerOfTwo p.exponent

/-- The remainder by a positive integer, with the sign of the divisor. For a negative double the
divisor is added to the remainder as doubles are added. -/
def floorMod (x : Float) (n : Nat) : Float :=
  match Reading.of x with
  | .finite p =>
    let r := p.remainder n
    if r == 0.0 then 0.0
    else if p.negative then -r + Float.ofNat n
    else r
  | _ => 0.0 / 0.0

end Colourway.Number
