import Colourway.Text.Lowercase
import Colourway.Text.Quoted

/-!
# Hex literals

A hex literal is a number sign and three, four, six or eight hexadecimal digits; a single line feed
may follow. The short forms are spelled out by doubling each digit.
-/

namespace Colourway.Syntax

/-- A hexadecimal digit of either case. -/
def isHexDigit (c : CodePoint) : Bool :=
  (48 ≤ c.toNat && c.toNat ≤ 57) || (65 ≤ c.toNat && c.toNat ≤ 70)
    || (97 ≤ c.toNat && c.toNat ≤ 102)

/-- The text without one final line feed. -/
def dropLineEnd (s : Text) : Text :=
  if s.getLast? = some (.char '\n') then s.dropLast else s

/-- The digits of a hex literal of any length, the line feed left out. -/
def hexBody? (s : Text) : Option Text :=
  match dropLineEnd s with
  | .char '#' :: digits => if digits.all isHexDigit then some digits else none
  | _ => none

/-- A literal of six or eight digits. -/
def isLongHex (s : Text) : Bool :=
  (hexBody? s).any fun ds => ds.length == 6 || ds.length == 8

/-- A literal of three or four digits. -/
def isShortHex (s : Text) : Bool :=
  (hexBody? s).any fun ds => ds.length == 3 || ds.length == 4

/-- A hex literal of either kind. -/
def isHex (s : Text) : Bool := isLongHex s || isShortHex s

/-- The text with every character written twice. -/
def doubled (s : Text) : Text := s.flatMap fun c => [c, c]

/-- The literal with six or eight digits: a long one as it stands, a short one with each character
after the number sign doubled, in lower case. -/
def normalHex? (s : Text) : Option Text :=
  if isLongHex s then some s
  else if isShortHex s then some ('#' :: Text.lower (doubled s.tail))
  else none

/-- What is said of a text that is no hex literal. -/
def hexComplaint (s : Text) : Text :=
  "Invalid hex format, expected #rgb[a] or #rrggbb[aa]: " ++ Text.quoted s

end Colourway.Syntax
