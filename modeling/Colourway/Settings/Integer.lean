import Colourway.Format.Scalar

/-!
# Integers in settings

A setting that is an integer may be written as a text. The text is first brought into a plain form,
by dropping what is allowed beside the digits: white space around it, a plus sign in front, zeros at
the front, a point with zeros and nothing else behind it, underscores between digits. What is left
is then read strictly, so a leftover of any of these is refused, a bare point among them.

Zeros at the front take the underscores among them along, however many there are, unless a minus
sign stands in front: then no zero may stand before other digits.
-/

namespace Colourway

/-- Why a text stands for no integer. -/
inductive IntegerProblem where
  /-- The text holds a code point that cannot be encoded. -/
  | unencodable
  /-- The text is not written as an integer. -/
  | malformed
  /-- The integer has too many digits. -/
  | tooLong
  deriving DecidableEq

namespace IntegerText

open Format

/-! ## The plain form -/

/-- The text without a plus sign in front; refused if a minus sign follows. -/
def dropPlus? : Text → Option Text
  | .char '+' :: .char '-' :: _ => none
  | .char '+' :: rest => some rest
  | s => some s

/-- Drops more zeros and underscores behind `last`, which is the one before. The last one stays if
nothing follows it, or a point. -/
def dropMoreZeros? (last : CodePoint) : Text → Option Text
  | [] => some [last]
  | c :: rest =>
    if c = '0' ∨ c = '_' then dropMoreZeros? c rest
    else if c = '.' then some (last :: c :: rest)
    else if isDigit c then some (c :: rest)
    else none

/-- The text without zeros at the front; refused if neither a digit nor a minus sign stands
there. -/
def dropZeros? : Text → Option Text
  | [] => none
  | c :: rest =>
    if c = '0' then dropMoreZeros? c rest
    else if isDigit c || c == '-' then some (c :: rest)
    else none

/-- The text without its point and the zeros behind it, if there are zeros and nothing else. -/
def dropFraction (s : Text) : Text :=
  let beforePoint (c : CodePoint) : Bool := c != '.'
  match s.dropWhile beforePoint with
  | _ :: d :: rest => if (d :: rest).all (· == .char '0') then s.takeWhile beforePoint else s
  | _ => s

/-- Whether two underscores stand side by side. -/
def hasUnderscorePair : Text → Bool
  | .char '_' :: .char '_' :: _ => true
  | _ :: rest => hasUnderscorePair rest
  | [] => false

/-- The text without underscores, if they stand one by one and at neither end. -/
def dropUnderscores (s : Text) : Text :=
  if s.head? = some '_' ∨ s.getLast? = some '_' ∨ hasUnderscorePair s then s
  else s.filter (· != .char '_')

/-- The plain form of a text. -/
def plain? (s : Text) : Option Text := do
  let unsigned ← dropPlus? (Number.trimmed s)
  let digits ← dropZeros? unsigned
  return dropUnderscores (dropFraction digits)

/-! ## Strict reading -/

/-- The greatest number of characters of the plain form, a minus sign included. -/
def lengthLimit : Nat := 4300

/-- Whether digits are there, and no zero stands before others. -/
def isPlain : Text → Bool
  | [] => false
  | c :: rest => c != '0' || rest.isEmpty

/-- The integer that a plain form denotes: digits, perhaps behind a minus sign. Too many digits are
refused as such even if something else follows them. -/
def strict (s : Text) : Except IntegerProblem Int :=
  let (negative, body) : Bool × Text :=
    match s with
    | .char '-' :: rest => (true, rest)
    | s => (false, s)
  let digits := body.takeWhile isDigit
  let signLength := s.length - body.length
  if !isPlain digits then .error .malformed
  else if lengthLimit < signLength + digits.length then .error .tooLong
  else if digits.length ≠ body.length then .error .malformed
  else .ok (signed negative (decimal digits))

/-- The integer that a text denotes. -/
def read (s : Text) : Except IntegerProblem Int :=
  if s.chars?.isNone then .error .unencodable
  else
    match plain? s with
    | some plain => strict plain
    | none => .error .malformed

end IntegerText

end Colourway
