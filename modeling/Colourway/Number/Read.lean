import Colourway.Text.Blank
import Colourway.Text.Digit

/-!
# Reading numbers

The text of a number: an optional sign, digits with an optional point, an optional exponent;
single underscores may stand between digits, and the digits of any script count. Infinity and
"not a number" are spelled in letters of either case. White space around the number is ignored,
except for the separators U+001C to U+001F.
-/

namespace Colourway.Number

open Colourway.Text

/-- The double nearest to `±digits · 10 ^ exponent`. Numbers far outside the range of doubles are
decided by their magnitude alone. -/
def nearest (negative : Bool) (digits : Nat) (exponent : Int) : Float :=
  let magnitude := exponent + Int.ofNat (Nat.toDigits 10 digits).length
  let size : Float :=
    if digits = 0 ∨ magnitude < -400 then 0.0
    else if 400 < magnitude then 1.0 / 0.0
    else if exponent < 0 then Float.ofScientific digits true exponent.natAbs
    else Float.ofScientific digits false exponent.natAbs
  if negative then -size else size

/-- The number that a row of digits denotes. -/
def digitsValue (ds : List Nat) : Nat := ds.foldl (fun n d => 10 * n + d) 0

/-- Whether a text starts with a digit. -/
def startsWithDigit (s : Text) : Bool := (s.head?.bind digitValue?).isSome

/-- Takes digits from the front of a text. An underscore is passed over when it stands between
two digits; the flag says whether a digit came just before. -/
def takeDigits (afterDigit : Bool) : Text → List Nat × Text
  | [] => ([], [])
  | c :: rest =>
    match digitValue? c with
    | some d =>
      let (ds, left) := takeDigits true rest
      (d :: ds, left)
    | none =>
      if c = '_' && afterDigit && startsWithDigit rest then takeDigits false rest
      else ([], c :: rest)

/-- Takes a sign from the front of a text: whether it is a minus, and the rest. -/
def takeSign : Text → Bool × Text
  | .char '-' :: rest => (true, rest)
  | .char '+' :: rest => (false, rest)
  | s => (false, s)

/-- The exponent at the end of a number: nothing, or a mark, a sign and at least one digit. -/
def readExponent? : Text → Option Int
  | [] => some 0
  | c :: rest =>
    if c = 'e' ∨ c = 'E' then
      let (negative, digits) := takeSign rest
      match takeDigits false digits with
      | (d :: ds, []) =>
        let size := Int.ofNat (digitsValue (d :: ds))
        some (if negative then -size else size)
      | _ => none
    else none

/-- A number without sign: digits before or after the point, then the exponent. -/
def readUnsigned? (negative : Bool) (s : Text) : Option Float :=
  let (whole, rest) := takeDigits false s
  let (fraction, rest) := match rest with
    | .char '.' :: rest' => takeDigits false rest'
    | _ => ([], rest)
  if whole.isEmpty && fraction.isEmpty then none
  else
    (readExponent? rest).map fun e =>
      nearest negative (digitsValue (whole ++ fraction)) (e - Int.ofNat fraction.length)

/-- Whether two texts agree up to the case of ASCII letters. -/
def sameLetters (s : Text) (name : Text) : Bool := s.map CodePoint.toLower == name

/-- White space around a number. -/
def isNumberBlank (c : CodePoint) : Bool :=
  isBlank c && !(0x1c ≤ c.toNat && c.toNat ≤ 0x1f)

/-- The text without white space at either end. -/
def trimmed (s : Text) : Text := dropTail isNumberBlank (dropLead isNumberBlank s)

/-- The double that a text denotes. -/
def readFloat? (s : Text) : Option Float :=
  let (negative, body) := takeSign (trimmed s)
  if sameLetters body "inf" || sameLetters body "infinity" then
    some (if negative then -(1.0 / 0.0) else 1.0 / 0.0)
  else if sameLetters body "nan" then some (0.0 / 0.0)
  else readUnsigned? negative body

end Colourway.Number
