/-!
# Texts

A text is a row of code points. Besides the characters there are the surrogates, the code points
from U+D800 to U+DFFF: they are no characters and no file can hold them, but an escape in a document
can name one. Two escaped surrogates in a row stay two code points.

Characters and plain strings stand for code points and texts wherever these are expected.
-/

namespace Colourway

/-- A code point of the Unicode standard. -/
inductive CodePoint where
  /-- A character. -/
  | char (c : Char)
  /-- The surrogate that lies `offset` above U+D800. -/
  | surrogate (offset : Fin 2048)
  deriving DecidableEq, Inhabited

/-- A row of code points. -/
abbrev Text := List CodePoint

namespace CodePoint

instance : Coe Char CodePoint := ⟨char⟩

/-- The number of the code point. -/
def toNat : CodePoint → Nat
  | char c => c.toNat
  | surrogate offset => 0xd800 + offset

/-- The code point with a number; numbers above U+10FFFF have none. -/
def ofNat? (n : Nat) : Option CodePoint :=
  if n < 0xd800 then some (char (Char.ofNat n))
  else if h : n < 0xe000 then some (surrogate ⟨n - 0xd800, by omega⟩)
  else if n < 0x110000 then some (char (Char.ofNat n))
  else none

/-- The character, if the code point is one. -/
def char? : CodePoint → Option Char
  | char c => some c
  | surrogate _ => none

/-- The code point with a capital ASCII letter made small. -/
def toLower : CodePoint → CodePoint
  | char c => char c.toLower
  | surrogate offset => surrogate offset

end CodePoint

namespace Text

/-- The text of a plain string. -/
def ofString (s : String) : Text := s.toList.map CodePoint.char

instance : Coe String Text := ⟨ofString⟩

/-- The characters of a text; none if a code point is a surrogate. -/
def chars? (s : Text) : Option (List Char) := s.mapM CodePoint.char?

/-- The text in UTF-8; none if a code point is a surrogate. -/
def utf8? (s : Text) : Option ByteArray := s.chars?.map fun cs => (String.ofList cs).toUTF8

/-- The text that bytes in UTF-8 encode, if they encode any. -/
def ofUtf8? (bytes : ByteArray) : Option Text := (String.fromUTF8? bytes).map ofString

/-- The texts in order, with `separator` between neighbours. -/
def join (separator : Text) (parts : List Text) : Text := separator.intercalate parts

end Text

end Colourway
