import Colourway.Text.Basic
import Colourway.Text.Ranges

/-!
# White space

The white space of the Unicode standard together with the four separators U+001C to U+001F, and
trimming by it.
-/

namespace Colourway.Text

/-- The ranges of white space. -/
def blankRanges : List (Nat × Nat) := [
    (0x0009, 0x000d), (0x001c, 0x0020), (0x0085, 0x0085), (0x00a0, 0x00a0), (0x1680, 0x1680),
    (0x2000, 0x200a), (0x2028, 0x2029), (0x202f, 0x202f), (0x205f, 0x205f), (0x3000, 0x3000)]

/-- White space, the separators U+001C to U+001F included. -/
def isBlank (c : CodePoint) : Bool := inRanges blankRanges c.toNat

/-! ## Trimming -/

/-- The text without the leading characters that satisfy `p`. -/
def dropLead (p : CodePoint → Bool) (s : Text) : Text := s.dropWhile p

/-- The text without the final characters that satisfy `p`. -/
def dropTail (p : CodePoint → Bool) (s : Text) : Text := (s.reverse.dropWhile p).reverse

/-- The text without white space at either end. -/
def trim (s : Text) : Text := dropTail isBlank (dropLead isBlank s)

/-- A text that has no white space at either end. -/
def Trimmed (s : Text) : Prop := trim s = s

/-- A text of white space only. -/
def allBlank (s : Text) : Bool := s.all isBlank

end Colourway.Text
