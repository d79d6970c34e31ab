import Colourway.Document.Basic

/-!
# Documents in brackets

Documents are written as lists in square brackets and maps in curly ones, with commas between the
parts. Formats that share this form differ in white space and comments, in how keys and values
without parts are written, and in whether a comma may stand behind the last part. A repeated key
keeps its first place and its last value.

The readers take the unread text and return the text behind what they read. Their fuel bounds the
number of parts; twice the length of the text is always enough.
-/

namespace Colourway

/-- What formats with brackets differ in. -/
structure Bracketed where
  /-- Passes over white space and comments; refused if a comment does not end. -/
  gap : Text → Option Text
  /-- Reads a value without parts. -/
  scalar : Text → Option (Scalar × Text)
  /-- Reads a key. -/
  key : Text → Option (Text × Text)
  /-- Whether a comma may stand behind the last part. -/
  finalComma : Bool

namespace Bracketed

mutual

/-- Reads a value. -/
def value (b : Bracketed) : Nat → Text → Option (Document × Text)
  | 0, _ => none
  | fuel + 1, s => do
    match ← b.gap s with
    | .char '[' :: rest =>
      let (parts, left) ← items b fuel true rest
      return (.list parts, left)
    | .char '\x7b' :: rest =>
      let (parts, left) ← fields b fuel true rest
      return (.map (Assoc.ofPairs parts), left)
    | rest => (b.scalar rest).map fun (v, left) => (.scalar v, left)

/-- Reads the items of a list up to its closing bracket, which may come at once if `mayEnd`. -/
def items (b : Bracketed) : Nat → (mayEnd : Bool) → Text → Option (List Document × Text)
  | 0, _, _ => none
  | fuel + 1, mayEnd, s => do
    match ← b.gap s with
    | .char ']' :: rest => if mayEnd then return ([], rest) else none
    | s =>
      let (first, rest) ← value b fuel s
      match ← b.gap rest with
      | .char ']' :: rest => return ([first], rest)
      | .char ',' :: rest =>
        let (others, left) ← items b fuel b.finalComma rest
        return (first :: others, left)
      | _ => none

/-- Reads the fields of a map up to its closing bracket, which may come at once if `mayEnd`. -/
def fields (b : Bracketed) : Nat → (mayEnd : Bool) → Text → Option (Fields × Text)
  | 0, _, _ => none
  | fuel + 1, mayEnd, s => do
    match ← b.gap s with
    | .char '\x7d' :: rest => if mayEnd then return ([], rest) else none
    | s =>
      let (name, rest) ← b.key s
      match ← b.gap rest with
      | .char ':' :: rest =>
        let (first, rest) ← value b fuel rest
        match ← b.gap rest with
        | .char '\x7d' :: rest => return ([(name, first)], rest)
        | .char ',' :: rest =>
          let (others, left) ← fields b fuel b.finalComma rest
          return ((name, first) :: others, left)
        | _ => none
      | _ => none

end

/-- The document that a whole text denotes. -/
def document? (b : Bracketed) (s : Text) : Option Document := do
  let (d, rest) ← b.value (2 * s.length + 2) s
  match ← b.gap rest with
  | [] => return d
  | _ => none

end Bracketed

end Colourway
