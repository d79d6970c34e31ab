import Colourway.Document.Basic
import Colourway.Number.Written
import Colourway.Text.Quoted

/-!
# Documents inside texts

How a value reads when it is spliced into a text or named in a message. A text stands for itself;
inside a list or map, and where a message names it, it is quoted. A value with an integer of too
many digits cannot be told at all.
-/

namespace Colourway

/-- A scalar as part of a message: a text is quoted. -/
def Scalar.named? : Scalar → Option Text
  | .null => some "None"
  | .bool true => some "True"
  | .bool false => some "False"
  | .int n => Number.intText? n
  | .float x => some (Number.floatText .short x)
  | .text s => some (Text.quoted s)

/-- A scalar spliced into a text: a text stands for itself. -/
def Scalar.spliced? : Scalar → Option Text
  | .text s => some s
  | v => v.named?

namespace Document

mutual

/-- A document as part of a message. -/
def named? : Document → Option Text
  | .scalar v => v.named?
  | .list items => do return "[" ++ (← namedItems? items) ++ "]"
  | .map fields => do return "\x7b" ++ (← namedFields? fields) ++ "\x7d"

/-- The items of a list, with commas between them. -/
def namedItems? : List Document → Option Text
  | [] => some []
  | [d] => d.named?
  | d :: rest => do return (← d.named?) ++ ", " ++ (← namedItems? rest)

/-- The fields of a map, with commas between them. -/
def namedFields? : Fields → Option Text
  | [] => some []
  | [(k, d)] => do return Text.quoted k ++ ": " ++ (← d.named?)
  | (k, d) :: rest => do
    return Text.quoted k ++ ": " ++ (← d.named?) ++ ", " ++ (← namedFields? rest)

end

/-- A document spliced into a text. -/
def spliced? : Document → Option Text
  | .scalar v => v.spliced?
  | d => d.named?

/-- A text in quotes, as messages show it. -/
def quotedText (s : Text) : Text := Text.quoted s

end Document

end Colourway
