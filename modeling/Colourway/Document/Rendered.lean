import Colourway.Document.Basic
import Colourway.Number.Written
import Colourway.Text.Quoted

/-!
# Written documents

The text that an assembled theme is written as: one field or item a line, two spaces a level, all
characters as they stand except quotes, backslashes and those below U+0020. A document with an
integer of too many digits cannot be written.
-/

namespace Colourway

namespace Rendered

/-- One character of a written text. -/
def char (c : CodePoint) : Text :=
  if c = '"' then ['\\', '"']
  else if c = '\\' then ['\\', '\\']
  else if c = '\n' then ['\\', 'n']
  else if c = '\r' then ['\\', 'r']
  else if c = '\t' then ['\\', 't']
  else if c.toNat = 8 then ['\\', 'b']
  else if c.toNat = 12 then ['\\', 'f']
  else if c.toNat < 32 then "\\u" ++ Text.hexDigits 4 c.toNat
  else [c]

/-- A written text in its quotes. -/
def text (s : Text) : Text := "\"" ++ s.flatMap char ++ "\""

/-- A written scalar. -/
def scalar? : Scalar → Option Text
  | .null => some "null"
  | .bool true => some "true"
  | .bool false => some "false"
  | .int n => Number.intText? n
  | .float x => some (Number.floatText .long x)
  | .text s => some (text s)

/-- The start of a line `level` levels deep. -/
def newline (level : Nat) : Text := '\n' :: List.replicate (2 * level) (.char ' ')

mutual

/-- A written document whose first line stands `level` levels deep. -/
def document? (level : Nat) : Document → Option Text
  | .scalar v => scalar? v
  | .list [] => some "[]"
  | .list items => do return "[" ++ (← lines? (level + 1) items) ++ newline level ++ "]"
  | .map [] => some "\x7b\x7d"
  | .map fields => do
    return "\x7b" ++ (← fieldLines? (level + 1) fields) ++ newline level ++ "\x7d"

/-- The items of a list, one a line. -/
def lines? (level : Nat) : List Document → Option Text
  | [] => some []
  | [d] => do return newline level ++ (← document? level d)
  | d :: rest => do return newline level ++ (← document? level d) ++ "," ++ (← lines? level rest)

/-- The fields of a map, one a line. -/
def fieldLines? (level : Nat) : Fields → Option Text
  | [] => some []
  | [(k, d)] => do return newline level ++ text k ++ ": " ++ (← document? level d)
  | (k, d) :: rest => do
    return newline level ++ text k ++ ": " ++ (← document? level d) ++ ","
      ++ (← fieldLines? level rest)

end

end Rendered

/-- The document as a theme file holds it, with a final line feed. -/
def Document.rendered? (d : Document) : Option Text := do
  return (← Rendered.document? 0 d) ++ "\n"

end Colourway
