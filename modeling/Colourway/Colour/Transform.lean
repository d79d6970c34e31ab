import Colourway.Colour.Expression

/-!
# Transforms

The calls that values may hold. Every name outside the catalogue hands the text of the whole call
to the reader of colour expressions. A resolver takes its colour arithmetic as a value of
`ColourMath`; `standardMath` is the one that works on doubles.
-/

namespace Colourway

open Text

/-- The catalogue of transforms. -/
inductive Transform where
  /-- Raises the lightness by a percentage. -/
  | lighten
  /-- Lowers the lightness by a percentage. -/
  | darken
  /-- Scales alpha down by a factor. -/
  | fade
  /-- Scales alpha up by a factor. -/
  | solidify
  /-- Sets alpha. -/
  | alpha
  /-- Mirrors the lightness. -/
  | invert
  /-- Mixes two colours. -/
  | mix
  /-- Mixes with black. -/
  | shade
  /-- Mixes with white. -/
  | tint
  /-- Reads its arguments as one colour expression. -/
  | css
  /-- Reads the call itself as a colour expression. -/
  | passthrough
  deriving DecidableEq

namespace Transform

/-- The name of a transform in calls and messages. -/
def name : Transform → String
  | lighten => "lighten"
  | darken => "darken"
  | fade => "fade"
  | solidify => "solidify"
  | alpha => "alpha"
  | invert => "invert"
  | mix => "mix"
  | shade => "shade"
  | tint => "tint"
  | css => "css"
  | passthrough => "passthrough"

/-- The transforms that can be called by name. -/
def catalogue : List Transform :=
  [lighten, darken, fade, solidify, alpha, invert, mix, shade, tint, css]

/-- The transform that a name calls, in whatever case it is written. -/
def ofName (s : Text) : Transform :=
  (catalogue.find? fun t => t.name == lower s).getD passthrough

end Transform

/-- A call that is ready to be evaluated. -/
structure TransformCall where
  /-- The transform. -/
  transform : Transform
  /-- The arguments. -/
  args : List Text
  /-- The text of the whole call. -/
  expression : Text

/-- The call of a name with arguments. -/
def TransformCall.ofName (name : Text) (args : List Text) (expression : Text) :
    TransformCall :=
  ⟨.ofName name, args, expression⟩

/-- Colour arithmetic: what a call evaluates to, as hex text. -/
structure ColourMath where
  /-- Evaluates a call. -/
  apply : TransformCall → Except ColourError Text

namespace TransformCall

/-- The argument at a position; an empty one counts as missing. -/
def arg? (call : TransformCall) (index : Nat) : Option Text :=
  (call.args[index]?).filter (· ≠ [])

/-- The argument at a position, which has to be there. -/
def arg (call : TransformCall) (index : Nat) : Except ColourError Text :=
  match call.arg? index with
  | some a => .ok a
  | none =>
    .error <| .refused call.expression <|
      call.transform.name ++ "() is missing argument " ++ Number.natText (index + 1)

/-- The number in an argument; percent signs behind it are left out. -/
def amountOf (call : TransformCall) (text : Text) : Except ColourError Float :=
  Colour.number (dropTail (· == '%') text) call.expression

/-- The number in the argument at a position. -/
def amount (call : TransformCall) (index : Nat) : Except ColourError Float := do
  call.amountOf (← call.arg index)

/-- The hex text of a colour. -/
def written (alpha : Colour.AlphaPair) (c : Colour) : Except ColourError Text :=
  ColourError.ofFault (c.hex alpha)

/-- The colour with its lightness changed. -/
def relight (c : Colour) (change : Float → Float) : Except ColourError Text := do
  let h ← ColourError.ofFault c.toHls
  written .whenNeeded (Colour.ofHls { h with lightness := change h.lightness } c.a)

/-- The colour with its alpha changed. -/
def withAlpha (c : Colour) (alpha : Float) : Except ColourError Text :=
  written .always { c with a := clamp alpha }

/-- What a transform of the first argument gives. -/
def onColour (call : TransformCall) (c : Colour) : Except ColourError Text := do
  match call.transform with
  | .lighten =>
    let amount ← call.amount 1
    relight c fun l => l * (1.0 + amount / 100.0)
  | .darken =>
    let amount ← call.amount 1
    relight c fun l => l * (1.0 + -amount / 100.0)
  | .fade =>
    let factor ← call.amount 1
    withAlpha c (c.a * (1.0 - factor))
  | .solidify =>
    let factor ← call.amount 1
    withAlpha c (c.a * (1.0 + factor))
  | .alpha =>
    let alpha ← call.amount 1
    withAlpha c alpha
  | .invert => relight c fun l => 1.0 - l
  | .mix =>
    let other ← Colour.parse (← call.arg 1)
    let percent ← call.amountOf ((call.arg? 2).getD "50")
    written .whenNeeded (c.mix other percent)
  | .shade =>
    let percent ← call.amount 1
    written .whenNeeded (c.mix ⟨0.0, 0.0, 0.0, c.a⟩ percent)
  | .tint =>
    let percent ← call.amount 1
    written .whenNeeded (c.mix ⟨1.0, 1.0, 1.0, c.a⟩ percent)
  | .css | .passthrough => written .whenNeeded c

/-- What a call evaluates to, before its errors are tied to the call. -/
def evaluate (call : TransformCall) : Except ColourError Text := do
  match call.transform with
  | .passthrough => written .whenNeeded (← Colour.parse call.expression)
  | .css => written .whenNeeded (← Colour.parse (join ", " call.args))
  | _ => call.onColour (← Colour.parse (← call.arg 0))

/-- An error as the caller sees it: one about another expression is reported for the whole call. -/
def blame (call : TransformCall) : ColourError → ColourError
  | .refused expression reason =>
    if expression = call.expression then .refused expression reason
    else .refused call.expression (colourComplaint expression reason none)
  | .fault f => .fault f

end TransformCall

/-- Colour arithmetic on doubles. -/
def standardMath : ColourMath where
  apply call := call.evaluate.mapError call.blame

/-- The hex text of a colour expression. -/
def Colour.hexOf (expression : Text) : Except ColourError Text := do
  TransformCall.written .whenNeeded (← Colour.parse expression)

end Colourway
