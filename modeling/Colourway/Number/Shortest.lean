/-!
# The shortest decimal of a double

A finite double other than zero is `m · 2 ^ q`. The reals that are read as this double form an
interval around it, whose ends belong to it when `m` is even. Among the decimals with one digit,
then two, and so on, the two neighbours of the double are tried; the first grid with a neighbour
in the interval wins, and of two such neighbours the nearer one, an exact tie going to the even
digit. All arithmetic is exact.
-/

namespace Colourway.Number

/-- The parts of a finite double: its value is `significand · 2 ^ exponent`, up to sign. -/
structure Parts where
  /-- Whether the sign bit is set. -/
  negative : Bool
  /-- The integer significand. -/
  significand : Nat
  /-- The binary exponent. -/
  exponent : Int
  /-- Whether the double below is only half as far away as the one above. -/
  narrowBelow : Bool

/-- What a double stands for. -/
inductive Reading where
  /-- Not a number. -/
  | nan
  /-- An infinity with its sign. -/
  | infinite (negative : Bool)
  /-- A finite double. -/
  | finite (parts : Parts)

/-- Reads the bits of a double. -/
def Reading.of (x : Float) : Reading :=
  let bits := x.toBits.toNat
  let negative := bits / Nat.pow 2 63 == 1
  let biased := bits / Nat.pow 2 52 % Nat.pow 2 11
  let fraction := bits % Nat.pow 2 52
  if biased = 2047 then
    if fraction = 0 then .infinite negative else .nan
  else if biased = 0 then .finite ⟨negative, fraction, -1074, false⟩
  else
    .finite ⟨negative, Nat.pow 2 52 + fraction, Int.ofNat biased - 1075,
      fraction == 0 && biased > 1⟩

/-- A decimal `digits · 10 ^ exponent`. -/
structure Decimal where
  /-- The digits as one number. -/
  digits : Nat
  /-- The decimal exponent. -/
  exponent : Int
  deriving DecidableEq

/-- The double, the ends of its interval and one unit of the decimal grid `10 ^ grid`, all four
multiplied by the same positive number, which makes them integers. -/
structure Scaled where
  /-- The double. -/
  value : Nat
  /-- The lower end of the interval. -/
  low : Nat
  /-- The upper end of the interval. -/
  high : Nat
  /-- One unit of the grid. -/
  unit : Nat

/-- Brings a double and the grid `10 ^ grid` to integers. -/
def Parts.scaled (p : Parts) (grid : Int) : Scaled :=
  let up := Nat.pow 2 (p.exponent - 2).toNat * Nat.pow 10 (-grid).toNat
  { value := 4 * p.significand * up
    low := (4 * p.significand - if p.narrowBelow then 1 else 2) * up
    high := (4 * p.significand + 2) * up
    unit := Nat.pow 10 grid.toNat * Nat.pow 2 (2 - p.exponent).toNat }

/-- The point of the grid `10 ^ grid` that is read as the double, if one is: the nearer of its two
neighbours, the even one at a tie. -/
def Parts.onGrid? (p : Parts) (grid : Int) : Option Decimal :=
  let s := p.scaled grid
  let inside (n : Nat) : Bool :=
    if p.significand % 2 = 0 then s.low ≤ n * s.unit && n * s.unit ≤ s.high
    else s.low < n * s.unit && n * s.unit < s.high
  let below := s.value / s.unit
  let down := s.value - below * s.unit
  let up := (below + 1) * s.unit - s.value
  match inside below, inside (below + 1) with
  | true, true =>
    if down < up || (down == up && below % 2 == 0) then some ⟨below, grid⟩
    else some ⟨below + 1, grid⟩
  | true, false => some ⟨below, grid⟩
  | false, true => some ⟨below + 1, grid⟩
  | false, false => none

/-- Whether the double lies below `10 ^ power`. -/
def Parts.below (p : Parts) (power : Int) : Bool :=
  p.significand * Nat.pow 2 p.exponent.toNat * Nat.pow 10 (-power).toNat
    < Nat.pow 10 power.toNat * Nat.pow 2 (-p.exponent).toNat

/-- The least power of ten above the double. The binary logarithm gives it up to one or two. -/
def Parts.magnitude (p : Parts) : Int :=
  let guess := (Int.ofNat p.significand.log2 + p.exponent) * 30103 / 100000 - 1
  ((List.range 4).map (fun n => guess + Int.ofNat n)).find? p.below |>.getD (guess + 4)

/-- Takes trailing zeros of the digits into the exponent; the fuel bounds their number. -/
def Decimal.stripped : Nat → Decimal → Decimal
  | fuel + 1, d =>
    if d.digits ≠ 0 ∧ d.digits % 10 = 0 then stripped fuel ⟨d.digits / 10, d.exponent + 1⟩ else d
  | 0, d => d

/-- The shortest decimal that is read as the double, nearest to it among those. -/
def Parts.shortest (p : Parts) : Decimal :=
  if p.significand = 0 then ⟨0, 0⟩
  else
    let top := p.magnitude
    let grids := (List.range 17).map fun n => top - Int.ofNat (n + 1)
    ((grids.findSome? p.onGrid?).getD ⟨p.significand, p.exponent⟩).stripped 18

end Colourway.Number
