import Colourway.Colour.Basic

/-!
# Colour models

Conversion between red, green and blue on the one side and hue, lightness and saturation, or hue,
saturation and value, on the other. Every hue is a fraction of the full turn.
-/

namespace Colourway

/-- A colour by hue, lightness and saturation. -/
structure Hls where
  /-- The hue, as a fraction of the turn. -/
  hue : Float
  /-- The lightness. -/
  lightness : Float
  /-- The saturation. -/
  saturation : Float

namespace Colour

/-- The larger of two doubles, the first one unless the second exceeds it. -/
def larger (x y : Float) : Float := if x < y then y else x

/-- The smaller of two doubles, the first one unless the second lies below it. -/
def smaller (x y : Float) : Float := if y < x then y else x

/-- A quotient, refused when the divisor is zero. -/
def quotient (x y : Float) : Except Fault Float :=
  if y == 0.0 then .error .divisionByZero else .ok (x / y)

/-- Hue, lightness and saturation of a colour. -/
def toHls (c : Colour) : Except Fault Hls := do
  let most := larger (larger c.r c.g) c.b
  let least := smaller (smaller c.r c.g) c.b
  let sum := most + least
  let range := most - least
  let lightness := sum / 2.0
  if least == most then
    return ⟨0.0, lightness, 0.0⟩
  let saturation ← if lightness ≤ 0.5 then quotient range sum else quotient range (2.0 - sum)
  let rc ← quotient (most - c.r) range
  let gc ← quotient (most - c.g) range
  let bc ← quotient (most - c.b) range
  let sixths :=
    if c.r == most then bc - gc
    else if c.g == most then 2.0 + rc - bc
    else 4.0 + gc - rc
  return ⟨Number.floorMod (sixths / 6.0) 1, lightness, saturation⟩

/-- One channel from the two bounds and the hue shifted to that channel. -/
def channelAt (low high hue : Float) : Float :=
  let hue := Number.floorMod hue 1
  if hue < 1.0 / 6.0 then low + (high - low) * hue * 6.0
  else if hue < 0.5 then high
  else if hue < 2.0 / 3.0 then low + (high - low) * (2.0 / 3.0 - hue) * 6.0
  else low

/-- The colour with this hue, lightness and saturation, the latter two brought into range. -/
def ofHls (h : Hls) (alpha : Float) : Colour :=
  let l := clamp h.lightness
  let s := clamp h.saturation
  if s == 0.0 then ⟨l, l, l, alpha⟩
  else
    let high := if l ≤ 0.5 then l * (1.0 + s) else l + s - l * s
    let low := 2.0 * l - high
    ⟨channelAt low high (h.hue + 1.0 / 3.0), channelAt low high h.hue,
      channelAt low high (h.hue - 1.0 / 3.0), alpha⟩

open Number in
/-- The colour with this hue, saturation and value. -/
def ofHsv (hue saturation value alpha : Float) : Except Fault Colour :=
  if saturation == 0.0 then .ok ⟨value, value, value, alpha⟩
  else
    match Reading.of (hue * 6.0) with
    | .nan => .error .notANumber
    | .infinite _ => .error .infinite
    | .finite parts =>
      let sector := parts.truncated
      let f := hue * 6.0 - Float.ofInt sector
      let p := value * (1.0 - saturation)
      let q := value * (1.0 - saturation * f)
      let t := value * (1.0 - saturation * (1.0 - f))
      .ok <| match sector % 6 with
        | 0 => ⟨value, t, p, alpha⟩
        | 1 => ⟨q, value, p, alpha⟩
        | 2 => ⟨p, value, t, alpha⟩
        | 3 => ⟨p, q, value, alpha⟩
        | 4 => ⟨t, p, value, alpha⟩
        | _ => ⟨value, p, q, alpha⟩

/-- The colour that lies `percent` of the way from one colour to another. -/
def mix (first second : Colour) (percent : Float) : Colour :=
  let t := clamp (percent / 100.0)
  { r := first.r + (second.r - first.r) * t
    g := first.g + (second.g - first.g) * t
    b := first.b + (second.b - first.b) * t
    a := first.a + (second.a - first.a) * t }

end Colour

end Colourway
