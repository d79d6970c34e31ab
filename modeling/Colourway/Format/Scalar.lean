import Colourway.Document.Basic
import Colourway.Number.Read
import Colourway.Number.Written
import Colourway.Syntax.Hex

/-!
# Scalars in documents

What the document formats have in common below the level of texts: values that are named by a word,
and numerals. The digits of numerals are ASCII digits. A decimal numeral is taken apart into the
digits before the point, those behind it and the exponent, so that each format can say which parts
have to be there. Integers of more than 4300 decimal digits are refused by all formats.
-/

namespace Colourway

/-! ## Digits -/

namespace Format

/-- An ASCII digit. -/
def isDigit (c : CodePoint) : Bool := 48 ≤ c.toNat && c.toNat ≤ 57

/-- The value of a digit in a base up to sixteen; letters of either case are digits from ten on. -/
def digitIn? (base : Nat) (c : CodePoint) : Option Nat :=
  if Syntax.isHexDigit c then
    let value :=
      if c.toNat ≤ 57 then c.toNat - 48 else if c.toNat ≤ 70 then c.toNat - 55 else c.toNat - 87
    if value < base then some value else none
  else none

/-- The number that digits denote in a base. -/
def number? (base : Nat) (digits : Text) : Option Nat :=
  digits.foldlM (fun n c => (digitIn? base c).map (base * n + ·)) 0

/-- The number that decimal digits denote. -/
def decimal (digits : Text) : Nat := digits.foldl (fun n c => 10 * n + (c.toNat - 48)) 0

/-- A number with its sign. -/
def signed (negative : Bool) (n : Nat) : Int := if negative then -Int.ofNat n else Int.ofNat n

/-- The code point that hexadecimal digits name. -/
def codePoint? (digits : Text) : Option CodePoint := (number? 16 digits).bind CodePoint.ofNat?

/-! ## Named values -/

/-- Takes the first word that stands at the front of a text, as the value that it names. -/
def takeNamed (names : List (Text × Scalar)) (s : Text) : Option (Scalar × Text) :=
  names.findSome? fun entry => (entry.1.isPrefixOf? s).map fun rest => (entry.2, rest)

end Format

/-! ## Decimal numerals -/

/-- A decimal numeral without its sign. -/
structure Numeral where
  /-- The digits before the point. -/
  whole : Text
  /-- The digits behind the point, if there is a point. -/
  fraction : Option Text
  /-- The exponent, if there is one. -/
  exponent : Option Int

namespace Numeral

open Format

/-- Takes an exponent from the front of a text: a mark, a sign and at least one digit. -/
def takeExponent : Text → Option Int × Text
  | [] => (none, [])
  | c :: rest =>
    let (negative, tail) := Number.takeSign rest
    let digits := tail.takeWhile isDigit
    if (c = 'e' ∨ c = 'E') ∧ digits ≠ [] then
      (some (signed negative (decimal digits)), tail.dropWhile isDigit)
    else (none, c :: rest)

/-- Takes the longest numeral from the front of a text. Any of its parts may be missing. -/
def take (s : Text) : Numeral × Text :=
  let whole := s.takeWhile isDigit
  match s.dropWhile isDigit with
  | .char '.' :: rest =>
    let (exponent, left) := takeExponent (rest.dropWhile isDigit)
    (⟨whole, some (rest.takeWhile isDigit), exponent⟩, left)
  | rest =>
    let (exponent, left) := takeExponent rest
    (⟨whole, none, exponent⟩, left)

/-- Whether there is a digit on either side of the point. -/
def hasDigits (n : Numeral) : Bool := !n.whole.isEmpty || !(n.fraction.getD []).isEmpty

/-- Whether a zero stands before other digits. -/
def hasLeadingZero (n : Numeral) : Bool :=
  n.whole.head? == some (.char '0') && 1 < n.whole.length

/-- Whether the numeral has digits before the point, no needless zero, and digits behind the point
if there is one. -/
def isStrict (n : Numeral) : Bool :=
  !n.whole.isEmpty && !n.hasLeadingZero && n.fraction != some []

/-- Whether the numeral denotes an integer that is too long. -/
def isTooLong (n : Numeral) : Bool :=
  n.fraction.isNone && n.exponent.isNone && Number.digitLimit < n.whole.length

/-- The number that the numeral denotes: an integer if it has neither point nor exponent. -/
def scalar (n : Numeral) (negative : Bool) : Scalar :=
  match n.fraction, n.exponent with
  | none, none => .int (signed negative (decimal n.whole))
  | fraction, exponent =>
    let behind := fraction.getD []
    .float <| Number.nearest negative (decimal (n.whole ++ behind))
      (exponent.getD 0 - Int.ofNat behind.length)

/-- The number that the numeral denotes, unless it is an integer that is too long. -/
def scalar? (n : Numeral) (negative : Bool) : Option Scalar :=
  if n.isTooLong then none else some (n.scalar negative)

end Numeral

end Colourway
