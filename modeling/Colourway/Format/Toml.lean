import Colourway.Format.Toml.Scalar
import Colourway.Format.Toml.Table

/-!
# TOML

A settings file is a row of statements, one a line: fields `key = value`, headers in square brackets
that open a table for the fields below them, and headers in double brackets that open one more table
of an array. Values are scalars, arrays, which may run over several lines, and tables in curly
brackets, which may not. No key may be given twice.
-/

namespace Colourway.Toml

open Format

/-! ## Gaps -/

/-- The text behind white space. -/
def skipBlanks (s : Text) : Text := s.dropWhile isBlank

/-- What is left of a line behind a comment, if one starts here. -/
def skipComment : Text → Except Problem Text
  | .char '#' :: rest =>
    let inLine (c : CodePoint) : Bool := c != '\n'
    if (rest.takeWhile inLine).any isControl then .error .malformed
    else .ok (rest.dropWhile inLine)
  | s => .ok s

/-- The text behind white space, line ends and comments. The fuel bounds the number of lines. -/
def skipLines : Nat → Text → Except Problem Text
  | 0, s => .ok s
  | fuel + 1, s => do
    match ← skipComment (skipBlanks s) with
    | .char '\n' :: rest => skipLines fuel rest
    | left => return left

/-! ## Keys -/

/-- A character of a key without quotes. -/
def isBareKeyChar (c : CodePoint) : Bool :=
  isDigit c || (65 ≤ c.toNat && c.toNat ≤ 90) || (97 ≤ c.toNat && c.toNat ≤ 122)
    || c == '_' || c == '-'

/-- Reads one part of a key. -/
def keyPart : Reader Text
  | .char '"' :: rest => basicText rest
  | .char '\'' :: rest => literalText rest
  | s =>
    let bare := s.takeWhile isBareKeyChar
    if bare.isEmpty then .error .malformed else .ok (bare, s.dropWhile isBareKeyChar)

/-- Reads a key of parts with dots between them, and the white space behind it. The fuel bounds the
number of parts. -/
def key : Nat → Reader (List Text)
  | 0, _ => .error .malformed
  | fuel + 1, s => do
    let (part, rest) ← keyPart s
    match skipBlanks rest with
    | .char '.' :: rest =>
      let (parts, left) ← key fuel (skipBlanks rest)
      return (part :: parts, left)
    | left => return ([part], left)

/-! ## Values -/

mutual

/-- Reads a value. -/
def value : Nat → Reader Document
  | 0, _ => .error .malformed
  | fuel + 1, s =>
    match s with
    | .char '[' :: rest => (items fuel rest).map fun (parts, left) => (.list parts, left)
    | .char '\x7b' :: rest => inlineTable fuel rest
    | _ => (scalar s).map fun (v, left) => (.scalar v, left)

/-- Reads the items of an array up to its closing bracket. -/
def items : Nat → Reader (List Document)
  | 0, _ => .error .malformed
  | fuel + 1, s => do
    match ← skipLines s.length s with
    | .char ']' :: rest => return ([], rest)
    | s =>
      let (first, rest) ← value fuel s
      match ← skipLines rest.length rest with
      | .char ']' :: rest => return ([first], rest)
      | .char ',' :: rest =>
        let (others, left) ← items fuel rest
        return (first :: others, left)
      | _ => .error .malformed

/-- Reads a table in curly brackets, behind the opening one. -/
def inlineTable : Nat → Reader Document
  | 0, _ => .error .malformed
  | fuel + 1, s =>
    match skipBlanks s with
    | .char '\x7d' :: rest => .ok (.map [], rest)
    | s => inlineFields fuel [] s

/-- Reads the fields of a table in curly brackets up to the closing one, behind those in `parts`. -/
def inlineFields : Nat → Parts → Reader Document
  | 0, _, _ => .error .malformed
  | fuel + 1, parts, s => do
    let ((path, d), rest) ← field fuel s
    let parts ← require (parts.put 0 d path)
    match skipBlanks rest with
    | .char '\x7d' :: left => return (.map (Part.finishAll parts), left)
    | .char ',' :: rest => inlineFields fuel parts (skipBlanks rest)
    | _ => .error .malformed

/-- Reads a key, an equals sign and a value. -/
def field : Nat → Reader (List Text × Document)
  | 0, _ => .error .malformed
  | fuel + 1, s => do
    let (path, rest) ← key s.length s
    match rest with
    | .char '=' :: rest =>
      let (d, left) ← value fuel (skipBlanks rest)
      return ((path, d), left)
    | _ => .error .malformed

end

/-! ## Statements -/

/-- What has been read of a settings file. -/
structure Progress where
  /-- The tables. -/
  parts : Parts := []
  /-- The path of the table that fields are put into. -/
  table : List Text := []
  /-- The number of the section. -/
  sectionNumber : Nat := 0

/-- Reads a header of a table, behind its opening bracket. -/
def tableHeader (p : Progress) (s : Text) : Except Problem (Progress × Text) := do
  let (path, rest) ← key s.length (skipBlanks s)
  let now := p.sectionNumber + 1
  let parts ← require (p.parts.change (Parts.define now (path.getLast?.getD [])) path.dropLast)
  return (⟨parts, path, now⟩, ← require (behind? ']' rest))

/-- Reads a header of an array of tables, behind its opening brackets. -/
def arrayHeader (p : Progress) (s : Text) : Except Problem (Progress × Text) := do
  let (path, rest) ← key s.length (skipBlanks s)
  let parts ← require (p.parts.change (Parts.append (path.getLast?.getD [])) path.dropLast)
  let rest ← require (behind? ']' rest)
  return (⟨parts, path, p.sectionNumber + 1⟩, ← require (behind? ']' rest))

/-- Reads one statement. -/
def statement (p : Progress) : Text → Except Problem (Progress × Text)
  | .char '[' :: .char '[' :: rest => arrayHeader p rest
  | .char '[' :: rest => tableHeader p rest
  | s => do
    let ((path, d), left) ← field (4 * s.length + 4) s
    let parts ← require (p.parts.change (Parts.put p.sectionNumber d path) p.table)
    return ({ p with parts := parts }, left)

/-- Reads the rest of a settings file. The fuel bounds the number of lines. -/
def statements : Nat → Progress → Text → Except Problem Progress
  | 0, p, _ => .ok p
  | fuel + 1, p, s => do
    let (p, rest) ← match skipBlanks s with
      | [] => pure (p, [])
      | c :: rest => if c = '\n' ∨ c = '#' then pure (p, c :: rest) else statement p (c :: rest)
    match ← skipComment (skipBlanks rest) with
    | [] => return p
    | c :: left => if c = '\n' then statements fuel p left else .error .malformed

/-- The fields of a settings file. -/
def read (s : Text) : Except Problem Fields :=
  (statements (s.length + 1) {} s).map fun p => Part.finishAll p.parts

end Colourway.Toml
