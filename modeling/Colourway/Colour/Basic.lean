import Colourway.Failure
import Colourway.Number.Arithmetic
import Colourway.Syntax.Hex
import Colourway.Text.Blank

/-!
# Colours

A colour is red, green, blue and alpha as doubles, meant to lie between 0 and 1. As hex it has two
digits a channel; the alpha pair is written only where it says something.
-/

namespace Colourway

/-- The value brought into the range from `low` to `high`. What is not a number becomes `high`. -/
def clampTo (low high value : Float) : Float :=
  let upper := if value < high then value else high
  if low < upper then upper else low

/-- The value brought into the range from 0 to 1. -/
def clamp (value : Float) : Float := clampTo 0.0 1.0 value

/-- A colour by its channels. -/
structure Colour where
  /-- Red. -/
  r : Float
  /-- Green. -/
  g : Float
  /-- Blue. -/
  b : Float
  /-- Alpha, 1 for an opaque colour. -/
  a : Float := 1.0
  deriving DecidableEq

namespace Colour

open Number in
/-- The nearest integer to a double, which has to be finite. -/
def rounded (x : Float) : Except Fault Int :=
  match Reading.of x with
  | .finite p => .ok p.rounded
  | .infinite _ => .error .infinite
  | .nan => .error .notANumber

/-- The byte of a channel. -/
def channelByte (c : Float) : Except Fault Nat := (rounded (clamp c * 255.0)).map Int.toNat

/-- The two hex digits of a channel. -/
def channelHex (c : Float) : Except Fault Text := (channelByte c).map (Text.hexDigits 2)

/-- Whether alpha rounds to the full byte. -/
def opaque? (c : Colour) : Except Fault Bool := (rounded (c.a * 255.0)).map (255 ≤ ·)

/-- Whether the alpha pair is written. -/
inductive AlphaPair where
  /-- Only for colours that are not opaque. -/
  | whenNeeded
  /-- Always. -/
  | always
  /-- Never. -/
  | never
  deriving DecidableEq

/-- The colour as hex text. -/
def hex (alpha : AlphaPair) (c : Colour) : Except Fault Text := do
  let written ← match alpha with
    | .always => pure true
    | .never => pure false
    | .whenNeeded => (c.opaque?).map not
  let pairs ← ([c.r, c.g, c.b] ++ if written then [c.a] else []).mapM channelHex
  return "#" ++ pairs.flatten

/-- The value of a hexadecimal digit. -/
def digitValue (c : CodePoint) : Nat :=
  if c.toNat ≤ 57 then c.toNat - 48 else if c.toNat ≤ 70 then c.toNat - 55 else c.toNat - 87

/-- The channels that pairs of hexadecimal digits stand for. -/
def channels? : Text → Option (List Float)
  | [] => some []
  | hi :: lo :: rest =>
    if Syntax.isHexDigit hi && Syntax.isHexDigit lo then
      (channels? rest).map (Float.ofNat (16 * digitValue hi + digitValue lo) / 255.0 :: ·)
    else none
  | [_] => none

/-- The colour of a hex literal. A line feed behind the literal is no digit. -/
def ofHex (s : Text) : Except Fault Colour :=
  match Syntax.normalHex? s with
  | none => .error (.noHex s)
  | some h =>
    match channels? (Text.dropLead (· == '#') h) with
    | some [r, g, b] => .ok ⟨r, g, b, 1.0⟩
    | some [r, g, b, a] => .ok ⟨r, g, b, a⟩
    | _ => .error .strayLineEnd

end Colour

end Colourway
