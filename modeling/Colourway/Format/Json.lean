import Colourway.Format.Bracketed
import Colourway.Format.Scalar

/-!
# JSON

Documents as machines write them: no comments, texts and keys in double quotes, control characters
only as escapes. Two escaped surrogates that make up a pair are one character; one that stands alone
stays a surrogate. Besides the numbers of the standard, infinities and "not a number" are read.
-/

namespace Colourway.Json

open Format

/-- White space between the parts of a document. -/
def isGap (c : CodePoint) : Bool := c == ' ' || c == '\t' || c == '\n' || c == '\r'

/-- What a character stands for behind a backslash. -/
def escape? (c : CodePoint) : Option CodePoint :=
  if c = '"' ∨ c = '\\' ∨ c = '/' then some c
  else if c = 'b' then some '\x08'
  else if c = 'f' then some '\x0c'
  else if c = 'n' then some '\n'
  else if c = 'r' then some '\r'
  else if c = 't' then some '\t'
  else none

/-- Reads a text up to its closing quote. -/
def text : Text → Option (Text × Text)
  | [] => none
  | .char '"' :: rest => some ([], rest)
  | .char '\\' :: .char 'u' :: w :: x :: y :: z :: rest => do
    let c ← codePoint? [w, x, y, z]
    let (s, left) ← text rest
    return (c :: s, left)
  | .char '\\' :: e :: rest => do
    let c ← escape? e
    let (s, left) ← text rest
    return (c :: s, left)
  | c :: rest =>
    if c.toNat < 0x20 ∨ c = '\\' then none
    else do
      let (s, left) ← text rest
      return (c :: s, left)

/-- The character that a pair of surrogates stands for. -/
def paired? (high low : CodePoint) : Option CodePoint :=
  if 0xd800 ≤ high.toNat ∧ high.toNat < 0xdc00 ∧ 0xdc00 ≤ low.toNat ∧ low.toNat < 0xe000 then
    CodePoint.ofNat? (0x10000 + (high.toNat - 0xd800) * 0x400 + (low.toNat - 0xdc00))
  else none

/-- A text with each pair of surrogates as one character. -/
def joinPairs : Text → Text
  | [] => []
  | [c] => [c]
  | c :: d :: rest =>
    match paired? c d with
    | some e => e :: joinPairs rest
    | none => c :: joinPairs (d :: rest)

/-- Reads a text behind its opening quote. -/
def quotedText (s : Text) : Option (Text × Text) :=
  (text s).map fun (t, left) => (joinPairs t, left)

/-- The values that are named by words. -/
def named : List (Text × Scalar) :=
  [("null", .null), ("true", .bool true), ("false", .bool false), ("NaN", .float (0.0 / 0.0)),
    ("Infinity", .float (1.0 / 0.0)), ("-Infinity", .float (-(1.0 / 0.0)))]

/-- Takes a minus sign from the front of a text. -/
def takeMinus : Text → Bool × Text
  | .char '-' :: rest => (true, rest)
  | s => (false, s)

/-- Reads a number. -/
def number (s : Text) : Option (Scalar × Text) :=
  let (negative, body) := takeMinus s
  let (numeral, left) := Numeral.take body
  if numeral.isStrict then (numeral.scalar? negative).map (·, left) else none

/-- Reads a value without parts. -/
def scalar : Text → Option (Scalar × Text)
  | .char '"' :: rest => (quotedText rest).map fun (t, left) => (.text t, left)
  | s => (takeNamed named s).or (number s)

/-- Reads a key. -/
def key : Text → Option (Text × Text)
  | .char '"' :: rest => quotedText rest
  | _ => none

/-- How documents are written. -/
def form : Bracketed where
  gap s := some (s.dropWhile isGap)
  scalar := scalar
  key := key
  finalComma := false

/-- The document that a text denotes. -/
def document? (s : Text) : Option Document := form.document? s

end Colourway.Json
