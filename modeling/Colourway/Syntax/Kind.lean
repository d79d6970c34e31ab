import Colourway.Syntax.Call
import Colourway.Syntax.Hex

/-!
# Kinds of value

A value is a hex literal, else it holds a reference, else it holds a call, else it is literal text.
-/

namespace Colourway.Syntax

/-- What a value is, by the first test that it meets. -/
inductive ValueKind where
  /-- A hex literal. -/
  | hex
  /-- A text with a reference. -/
  | reference
  /-- A text with a call and no reference. -/
  | call
  /-- Any other text. -/
  | literal
  deriving DecidableEq

/-- The name of a kind in answers. -/
def ValueKind.name : ValueKind → String
  | .hex => "hex"
  | .reference => "reference"
  | .call => "function"
  | .literal => "literal"

/-- The kind of a value. -/
def classify (s : Text) : ValueKind :=
  if isHex s then .hex
  else if occurs referenceAt s then .reference
  else if occurs callAt s then .call
  else .literal

/-- Whether a value still holds a reference or a call. -/
def hasUnresolved (s : Text) : Bool := occurs referenceAt s || occurs callAt s

end Colourway.Syntax
