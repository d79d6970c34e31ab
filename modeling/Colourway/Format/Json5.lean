import Colourway.Format.Bracketed
import Colourway.Format.Scalar
import Colourway.Text.Identifier

/-!
# JSON5

Documents as people write them: comments behind slashes or between slashes with asterisks, texts in
double or single quotes, keys without quotes, a comma behind the last part, numbers with a plus sign
or in hexadecimal digits. A text may run over several lines by a backslash at the end of each, and
may hold the line and paragraph separators as they stand. An escaped surrogate stays a code point of
its own.
-/

namespace Colourway.Json5

open Format

/-! ## Gaps -/

/-- The end of a line outside texts. -/
def isLineEnd (c : CodePoint) : Bool :=
  c == '\n' || c == '\r' || c.toNat == 0x2028 || c.toNat == 0x2029

/-- The spaces beyond ASCII. -/
def wideSpaces : List (Nat × Nat) :=
  [(0xa0, 0xa0), (0x1680, 0x1680), (0x2000, 0x200a), (0x202f, 0x202f), (0x205f, 0x205f),
    (0x3000, 0x3000), (0xfeff, 0xfeff)]

/-- White space between the parts of a document. -/
def isGap (c : CodePoint) : Bool :=
  isLineEnd c || c == ' ' || (9 ≤ c.toNat && c.toNat ≤ 12) || Text.inRanges wideSpaces c.toNat

/-- Where in a gap the reader stands. -/
inductive Gap where
  /-- Outside comments. -/
  | plain
  /-- In a comment that ends with the line. -/
  | line
  /-- In a comment that ends at its closing mark. -/
  | block

/-- Passes over white space and comments; refused if a comment does not end. -/
def skip : Gap → Text → Option Text
  | .plain, .char '/' :: .char '/' :: rest => skip .line rest
  | .plain, .char '/' :: .char '*' :: rest => skip .block rest
  | .plain, c :: rest => if isGap c then skip .plain rest else some (c :: rest)
  | .line, c :: rest => if isLineEnd c then skip .plain rest else skip .line rest
  | .block, .char '*' :: .char '/' :: rest => skip .plain rest
  | .block, _ :: rest => skip .block rest
  | .block, [] => none
  | _, [] => some []

/-! ## Texts -/

/-- What a character stands for behind a backslash. A character without a meaning of its own stands
for itself; the other digits have none at all. -/
def escape? (c : CodePoint) : Option CodePoint :=
  if c = 'b' then some '\x08'
  else if c = 'f' then some '\x0c'
  else if c = 'n' then some '\n'
  else if c = 'r' then some '\r'
  else if c = 't' then some '\t'
  else if c = 'v' then some '\x0b'
  else if c = 'x' ∨ c = 'u' ∨ isDigit c then none
  else some c

/-- Reads a text up to its closing quote. A zero behind a backslash is the character U+0000, unless
another digit follows. -/
def text (quote : CodePoint) : Text → Option (Text × Text)
  | [] => none
  | .char '\\' :: .char 'u' :: w :: x :: y :: z :: rest => do
    let c ← codePoint? [w, x, y, z]
    let (s, left) ← text quote rest
    return (c :: s, left)
  | .char '\\' :: .char 'x' :: y :: z :: rest => do
    let c ← codePoint? [y, z]
    let (s, left) ← text quote rest
    return (c :: s, left)
  | .char '\\' :: .char '\r' :: .char '\n' :: rest => text quote rest
  | .char '\\' :: .char '0' :: rest =>
    if rest.head?.any isDigit then none
    else do
      let (s, left) ← text quote rest
      return (.char '\x00' :: s, left)
  | .char '\\' :: e :: rest =>
    if isLineEnd e then text quote rest
    else do
      let c ← escape? e
      let (s, left) ← text quote rest
      return (c :: s, left)
  | c :: rest =>
    if c = quote then some ([], rest)
    else if c = '\\' ∨ c = '\n' ∨ c = '\r' then none
    else do
      let (s, left) ← text quote rest
      return (c :: s, left)

/-! ## Keys -/

/-- Reads what follows the first character of a name. -/
def nameTail : Text → Option (Text × Text)
  | [] => some ([], [])
  | .char '\\' :: .char 'u' :: w :: x :: y :: z :: rest => do
    let c ← codePoint? [w, x, y, z]
    let (s, left) ← nameTail rest
    return (c :: s, left)
  | c :: rest =>
    if Text.continuesName c then do
      let (s, left) ← nameTail rest
      return (c :: s, left)
    else some ([], c :: rest)

/-- Reads a name without quotes. An escape may name any code point, even in front. -/
def name : Text → Option (Text × Text)
  | [] => none
  | c :: rest => if Text.startsName c || c == '\\' then do
      let (s, left) ← nameTail (c :: rest)
      if s.isEmpty then none else return (s, left)
    else none

/-- Reads a key. -/
def key : Text → Option (Text × Text)
  | .char '"' :: rest => text '"' rest
  | .char '\'' :: rest => text '\'' rest
  | s => name s

/-! ## Values -/

/-- The values that are named by words. -/
def named : List (Text × Scalar) := [("null", .null), ("true", .bool true), ("false", .bool false)]

/-- The numbers that are named by words. -/
def specialNumbers : List (Text × Scalar) :=
  [("Infinity", .float (1.0 / 0.0)), ("NaN", .float (0.0 / 0.0))]

/-- Takes signs from the front of a text, at most one of them a minus sign. -/
def takeSigns : (negative : Bool) → Text → Option (Bool × Text)
  | negative, .char '+' :: rest => takeSigns negative rest
  | negative, .char '-' :: rest => if negative then none else takeSigns true rest
  | negative, s => some (negative, s)

/-- The opposite of a number. -/
def opposite : Scalar → Scalar
  | .int n => .int (-n)
  | .float x => .float (-x)
  | v => v

/-- Reads an integer in hexadecimal digits, behind the zero and the mark. -/
def hexadecimal (s : Text) : Option (Scalar × Text) :=
  let digits := s.takeWhile Syntax.isHexDigit
  if digits.isEmpty then none
  else (number? 16 digits).map fun n => (.int n, s.dropWhile Syntax.isHexDigit)

/-- Reads a decimal number. No name may follow it at once. -/
def decimalNumber (negative : Bool) (s : Text) : Option (Scalar × Text) :=
  let (numeral, left) := Numeral.take s
  if numeral.hasDigits && !numeral.hasLeadingZero && !left.head?.any Text.startsName then
    (numeral.scalar? negative).map (·, left)
  else none

/-- Reads a number. Hexadecimal numbers have no minus sign. -/
def number (s : Text) : Option (Scalar × Text) := do
  let (negative, body) ← takeSigns false s
  match takeNamed specialNumbers body with
  | some (x, left) => return (if negative then opposite x else x, left)
  | none =>
    match body with
    | .char '0' :: .char 'x' :: rest => if negative then none else hexadecimal rest
    | .char '0' :: .char 'X' :: rest => if negative then none else hexadecimal rest
    | _ => decimalNumber negative body

/-- Reads a value without parts. -/
def scalar : Text → Option (Scalar × Text)
  | .char '"' :: rest => (text '"' rest).map fun (t, left) => (.text t, left)
  | .char '\'' :: rest => (text '\'' rest).map fun (t, left) => (.text t, left)
  | s => (takeNamed named s).or (number s)

/-- How documents are written. -/
def form : Bracketed where
  gap := skip .plain
  scalar := scalar
  key := key
  finalComma := true

/-- The document that a text denotes. -/
def document? (s : Text) : Option Document := form.document? s

end Colourway.Json5
