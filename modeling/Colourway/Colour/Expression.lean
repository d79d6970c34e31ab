import Colourway.Assoc
import Colourway.Colour.Models
import Colourway.Colour.Named
import Colourway.Number.Read
import Colourway.Syntax.Call

/-!
# Colour expressions

A colour is written as a hex literal, by name, or as a call of `rgb`, `hsl` or `hsv` with three
components and an optional alpha. Components are separated by white space or commas, and what
follows a slash is one more component. Case does not matter.
-/

namespace Colourway

open Text

/-- Why a colour could not be computed. -/
inductive ColourError where
  /-- The expression is refused, for a reason in words. -/
  | refused (expression reason : Text)
  /-- The arithmetic is not defined on its operands. -/
  | fault (cause : Fault)
  deriving DecidableEq

/-- A fault as a colour error. -/
def ColourError.ofFault {α : Type} : Except Fault α → Except ColourError α
  | .ok a => .ok a
  | .error f => .error (.fault f)

namespace Colour

/-- The number that a text denotes; `expression` is named where there is none. -/
def number (text expression : Text) : Except ColourError Float :=
  match Number.readFloat? text with
  | some x => .ok x
  | none =>
    .error (.refused expression ("expected a number, got " ++ quoted text))

/-- The text without an ending, if it has it. -/
def withoutEnding? (ending s : Text) : Option Text :=
  if ending.isSuffixOf s then some (s.take (s.length - ending.length)) else none

/-- A channel as a fraction: percentages are divided by 100, other numbers by `scale`. -/
def channel (text expression : Text) (scale : Float) : Except ColourError Float :=
  match withoutEnding? "%" (trim text) with
  | some body => (number body expression).map fun x => clamp (x / 100.0)
  | none => (number (trim text) expression).map fun x => clamp (x / scale)

/-- A hue as a fraction of the turn, given in turns or in degrees. -/
def hue (text expression : Text) : Except ColourError Float :=
  let text := lower (trim text)
  let degrees (s : Text) := (number s expression).map fun x => Number.floorMod x 360 / 360.0
  match withoutEnding? "deg" text, withoutEnding? "turn" text with
  | some body, _ => degrees body
  | none, some body => (number body expression).map fun x => Number.floorMod x 1
  | none, none => degrees text

/-- The non-empty parts between the characters that satisfy `p`. -/
def partsBetween (p : CodePoint → Bool) : Text → List Text
  | [] => []
  | c :: cs =>
    if p c then partsBetween p cs
    else
      match cs with
      | [] => [[c]]
      | d :: _ =>
        if p d then [c] :: partsBetween p cs
        else
          match partsBetween p cs with
          | [] => [[c]]
          | part :: parts => (c :: part) :: parts

/-- The components of a call: those before the first slash, then what follows it as one. -/
def components (args : Text) : List Text :=
  let beforeSlash (c : CodePoint) : Bool := c != '/'
  let parts := partsBetween (fun c => isBlank c || c == ',') (args.takeWhile beforeSlash)
  let last := trim ((args.dropWhile beforeSlash).drop 1)
  if last.isEmpty then parts else parts ++ [last]

/-- A colour model that calls may name. -/
inductive Model where
  /-- Red, green, blue. -/
  | rgb
  /-- Hue, saturation, lightness. -/
  | hsl
  /-- Hue, saturation, value. -/
  | hsv
  deriving DecidableEq

/-- The model behind the name of a call; a final `a` may stand behind it. -/
def Model.ofName? (name : Text) : Option Model :=
  if name = "rgb" ∨ name = "rgba" then some .rgb
  else if name = "hsl" ∨ name = "hsla" then some .hsl
  else if name = "hsv" ∨ name = "hsva" then some .hsv
  else none

/-- A call of a colour model that makes up the whole text: the model, its name and the text of its
arguments. -/
def modelCall? (text : Text) : Option (Model × Text × Text) :=
  match Syntax.callAt text with
  | some ⟨_, (name, args), []⟩ =>
    (Model.ofName? name).map fun m => (m, name, args)
  | _ => none

/-- The colour with the given components. -/
def ofComponents (model : Model) (x y z : Text) (alpha : Float) (expression : Text) :
    Except ColourError Colour := do
  match model with
  | .rgb =>
    let r ← channel x expression 255.0
    let g ← channel y expression 255.0
    let b ← channel z expression 255.0
    return ⟨r, g, b, alpha⟩
  | .hsl =>
    let h ← hue x expression
    let s ← channel y expression 100.0
    let l ← channel z expression 100.0
    return ofHls ⟨h, l, s⟩ alpha
  | .hsv =>
    let h ← hue x expression
    let s ← channel y expression 100.0
    let v ← channel z expression 100.0
    ColourError.ofFault (ofHsv h s v alpha)

/-- The colour that an expression denotes. -/
def parse (expression : Text) : Except ColourError Colour :=
  let text := lower (trim expression)
  if text.isEmpty then .error (.refused expression "empty colour expression")
  else if Syntax.isHex text then ColourError.ofFault (ofHex text)
  else
    match hexOfName? text with
    | some h => ColourError.ofFault (ofHex h)
    | none =>
      match modelCall? text with
      | none => .error (.refused expression "unrecognised colour syntax")
      | some (model, name, args) =>
        match components args with
        | [x, y, z] => ofComponents model x y z 1.0 expression
        | [x, y, z, a] => do
          let alpha ← channel a expression 1.0
          ofComponents model x y z alpha expression
        | parts =>
          .error <| .refused expression <|
            name ++ "() takes 3 or 4 components, got " ++ Number.natText parts.length

end Colour

end Colourway
