import Colourway.Proofs.Colour.Parsed

/-!
# Where colour arithmetic is not defined

Colour arithmetic answers with a text or refuses an expression, with two exceptions. A call can read
an expression whose hue is lost. And the conversion to hue, lightness and saturation divides by the
sum of the brightest and the dimmest channel, or by what is missing from it to 2; that sum can round
to 2 for a colour that is no shade of grey.

* `toHls_fault_iff` — which colours have no saturation.
* `standardMath_fault_iff` — which calls are neither evaluated nor refused.
-/

namespace Colourway

open Number Text

namespace Colour

/-! ## Saturation -/

/-- The brightest channel. -/
def most (c : Colour) : Float := larger (larger c.r c.g) c.b

/-- The dimmest channel. -/
def least (c : Colour) : Float := smaller (smaller c.r c.g) c.b

/-- A colour that is no shade of grey, although its brightest and its dimmest channel add up to 0
or to 2. -/
def SaturationLost (c : Colour) : Prop :=
  (c.least == c.most) = false
    ∧ ((c.most + c.least == 0.0) = true ∨ (c.most + c.least == 2.0) = true)

theorem quotient_eq_error_iff {x y : Float} {f : Fault} :
    quotient x y = .error f ↔ f = .divisionByZero ∧ (y == 0.0) = true := by
  unfold quotient
  split_ifs with hy <;> simp [hy, eq_comm]

/-- Half of nothing lies in the lower half. -/
theorem half_le_of_beq_zero {x : Float} (h : (x == 0.0) = true) : x / 2.0 ≤ 0.5 := by
  obtain ⟨s, hs⟩ := beq_zero_iff.mp h
  have hdiv : x / 2.0 = .ofModel (.pack (.div .binary64 x.toModel.unpack
    (2.0 : Float).toModel.unpack)) := rfl
  rw [hdiv, hs]
  cases s <;> decide +kernel

theorem unpack_of_beq_two {x : Float} (h : (x == 2.0) = true) :
    x.toModel.unpack = (2.0 : Float).toModel.unpack := by
  have htwo : (2.0 : Float).toModel.unpack = .finite .positive (2 ^ 52) (-51) (by decide) := by
    with_unfolding_all rfl
  rw [beq_iff_compare, htwo] at h
  rw [htwo]
  cases hx : x.toModel.unpack with
  | notANumber => rw [hx] at h; cases h
  | infinity s => rw [hx] at h; cases s <;> cases h
  | zero s => rw [hx] at h; cases h
  | finite s m e hm =>
    rw [hx] at h
    cases s with
    | negative => cases h
    | positive =>
      have horder := Option.some.inj h
      rw [Ordering.then_eq_eq] at horder
      obtain ⟨he, hm⟩ := horder
      obtain rfl := Int.compare_eq_eq.mp he
      obtain rfl := Nat.compare_eq_eq.mp hm
      rfl

/-- Half of 2 does not lie in the lower half, and nothing is missing from 2. -/
theorem half_of_beq_two {x : Float} (h : (x == 2.0) = true) :
    ¬ x / 2.0 ≤ 0.5 ∧ (2.0 - x == 0.0) = true := by
  have hx := unpack_of_beq_two h
  have hdiv : x / 2.0 = .ofModel (.pack (.div .binary64 x.toModel.unpack
    (2.0 : Float).toModel.unpack)) := rfl
  have hsub : 2.0 - x = .ofModel (.pack (.sub .binary64 (2.0 : Float).toModel.unpack
    x.toModel.unpack)) := rfl
  rw [hdiv, hsub, hx]
  decide +kernel

/-- **A colour is converted to hue, lightness and saturation unless its saturation is lost.** -/
theorem toHls_fault_iff {c : Colour} {f : Fault} :
    c.toHls = .error f ↔ f = .divisionByZero ∧ c.SaturationLost := by
  unfold toHls SaturationLost most least
  simp only []
  generalize larger (larger c.r c.g) c.b = most
  generalize smaller (smaller c.r c.g) c.b = least
  cases hgrey : least == most with
  | true => simp [pure, Except.pure]
  | false =>
    have hrange : (most - least == 0.0) = false := by
      by_contra hzero
      rw [Bool.not_eq_false] at hzero
      exact Bool.false_ne_true (hgrey.symm.trans (beq_of_sub_eq_zero hzero))
    have hquotient (x : Float) : quotient x (most - least) = .ok (x / (most - least)) := by
      rw [quotient, hrange]
      rfl
    generalize most + least = sum
    rw [if_neg Bool.false_ne_true]
    by_cases hhalf : sum / 2.0 ≤ 0.5
    · rw [if_pos hhalf]
      have htwo : (sum == 2.0) = false := by
        by_contra htwo
        rw [Bool.not_eq_false] at htwo
        exact (half_of_beq_two htwo).1 hhalf
      simp [bind_eq_error_iff, quotient_eq_error_iff, hquotient, htwo, pure, Except.pure]
    · rw [if_neg hhalf]
      have hzero : (sum == 0.0) = false := by
        by_contra hzero
        rw [Bool.not_eq_false] at hzero
        exact hhalf (half_le_of_beq_zero hzero)
      have htwo : (2.0 - sum == 0.0) = true ↔ (sum == 2.0) = true :=
        ⟨beq_of_sub_eq_zero, fun h => (half_of_beq_two h).2⟩
      simp [bind_eq_error_iff, quotient_eq_error_iff, hquotient, hzero, htwo, pure, Except.pure]

end Colour

namespace TransformCall

/-! ## Calls -/

/-- The colour expression that a call reads first. -/
def firstColour? (call : TransformCall) : Option Text :=
  match call.transform with
  | .passthrough => some call.expression
  | .css => some (join ", " call.args)
  | _ => call.arg? 0

/-- A call that comes upon an expression whose hue is lost. -/
inductive LosesHue (call : TransformCall) : Prop
  /-- The first colour that it reads. -/
  | first {e : Text} (read : call.firstColour? = some e) (lost : Colour.HueLost e)
  /-- The colour that it mixes with the first one. -/
  | second {d e : Text} {c : Colour} (mixes : call.transform = .mix)
    (first : call.arg? 0 = some d) (readable : Colour.parse d = .ok c)
    (read : call.arg? 1 = some e) (lost : Colour.HueLost e)

/-- A call that changes the lightness of a colour whose saturation is lost. -/
inductive LosesSaturation (call : TransformCall) : Prop
  | intro {e : Text} {c : Colour} (first : call.arg? 0 = some e)
    (readable : Colour.parse e = .ok c) (lost : c.SaturationLost)
    (relights : call.transform = .invert ∨
      (call.transform = .lighten ∨ call.transform = .darken) ∧ ∃ x, call.amount 1 = .ok x)

theorem arg_eq_ok_iff {call : TransformCall} {i : Nat} {a : Text} :
    call.arg i = .ok a ↔ call.arg? i = some a := by
  unfold arg
  cases call.arg? i <;> simp

theorem arg_ne_fault (call : TransformCall) (i : Nat) (f : Fault) :
    call.arg i ≠ .error (.fault f) := by
  unfold arg
  split <;> simp

theorem amount_ne_fault (call : TransformCall) (i : Nat) (f : Fault) :
    call.amount i ≠ .error (.fault f) := by
  unfold amount amountOf
  simp [bind_eq_error_iff, arg_ne_fault, Colour.number_ne_fault]

theorem written_ne_fault (alpha : Colour.AlphaPair) {c : Colour} (h : Bounded 1000 c.a)
    (f : Fault) : written alpha c ≠ .error (.fault f) := by
  obtain ⟨t, ht⟩ := Colour.hex_ok alpha h
  rw [written, Ne, ColourError.ofFault_eq_fault_iff, ht]
  exact nofun

theorem withAlpha_ne_fault (c : Colour) (alpha : Float) (f : Fault) :
    withAlpha c alpha ≠ .error (.fault f) := by
  have hbounded : Bounded 1000 (clamp alpha) := (clamp_bounded alpha).mono (by decide)
  exact written_ne_fault .always (c := { c with a := clamp alpha }) hbounded f

theorem ofHls_alpha (h : Hls) (alpha : Float) : (Colour.ofHls h alpha).a = alpha := by
  unfold Colour.ofHls
  simp only []
  split <;> rfl

theorem relight_fault_iff {c : Colour} (hc : Bounded 5 c.a) (change : Float → Float) {f : Fault} :
    relight c change = .error (.fault f) ↔ f = .divisionByZero ∧ c.SaturationLost := by
  have hwritten (h : Hls) : written .whenNeeded (Colour.ofHls h c.a) ≠ .error (.fault f) :=
    written_ne_fault .whenNeeded (by rw [ofHls_alpha]; exact hc.mono (by decide)) f
  unfold relight
  simp [bind_eq_error_iff, hwritten, ColourError.ofFault_eq_fault_iff, Colour.toHls_fault_iff]

/-- A colour between two colours of bounded alpha has hex text. -/
theorem mix_ne_fault {c d : Colour} (hc : Bounded 5 c.a) (hd : Bounded 5 d.a) (percent : Float)
    (f : Fault) : written .whenNeeded (c.mix d percent) ≠ .error (.fault f) := by
  have hway : Bounded 7 (d.a - c.a) :=
    bounded_sub hd hc (by decide) (by decide) (by decide) (by decide)
  have hpart : Bounded 9 ((d.a - c.a) * clamp (percent / 100.0)) :=
    bounded_mul hway (clamp_bounded _) (by decide) (by decide) (by decide)
  have halpha : Bounded 11 (c.mix d percent).a :=
    bounded_add hc hpart (by decide) (by decide) (by decide) (by decide)
  exact written_ne_fault .whenNeeded (halpha.mono (by decide)) f

theorem onColour_fault_iff {call : TransformCall} {c : Colour} (hc : Bounded 5 c.a) {f : Fault} :
    call.onColour c = .error (.fault f) ↔
      (f = .notANumber ∧ call.transform = .mix ∧ ∃ e, call.arg? 1 = some e ∧ Colour.HueLost e) ∨
      (f = .divisionByZero ∧ c.SaturationLost ∧ (call.transform = .invert ∨
        (call.transform = .lighten ∨ call.transform = .darken) ∧ ∃ x, call.amount 1 = .ok x)) := by
  have hplain : written .whenNeeded c ≠ .error (.fault f) :=
    written_ne_fault .whenNeeded (hc.mono (by decide)) f
  unfold onColour
  cases call.transform with
  | lighten | darken =>
    simp only [bind_eq_error_iff, amount_ne_fault, relight_fault_iff hc, false_or, reduceCtorEq,
      false_and, and_false, or_true, true_or, true_and]
    constructor
    · rintro ⟨x, hx, hf, hlost⟩
      exact ⟨hf, hlost, x, hx⟩
    · rintro ⟨hf, hlost, x, hx⟩
      exact ⟨x, hx, hf, hlost⟩
  | fade | solidify | alpha => simp [bind_eq_error_iff, amount_ne_fault, withAlpha_ne_fault]
  | invert => simp [relight_fault_iff hc]
  | mix =>
    have hmixed {e : Text} {d : Colour} (hd : Colour.parse e = .ok d) :
        (call.amountOf ((call.arg? 2).getD "50") >>= fun percent =>
          written .whenNeeded (c.mix d percent)) ≠ .error (.fault f) := by
      simp [bind_eq_error_iff, amountOf, Colour.number_ne_fault,
        mix_ne_fault hc (Colour.parse_bounded hd)]
    simp only [bind_eq_error_iff, arg_ne_fault, arg_eq_ok_iff, Colour.parse_fault_iff, false_or]
    constructor
    · rintro ⟨e, he, ⟨hf, hlost⟩ | ⟨d, hd, h⟩⟩
      · exact .inl ⟨hf, trivial, e, he, hlost⟩
      · exact absurd (bind_eq_error_iff.mpr h) (hmixed hd)
    · rintro (⟨hf, -, e, he, hlost⟩ | ⟨-, -, h⟩)
      · exact ⟨e, he, .inl ⟨hf, hlost⟩⟩
      · simp at h
  | shade =>
    simp [bind_eq_error_iff, amount_ne_fault,
      fun percent => mix_ne_fault (d := ⟨0.0, 0.0, 0.0, c.a⟩) hc hc percent f]
  | tint =>
    simp [bind_eq_error_iff, amount_ne_fault,
      fun percent => mix_ne_fault (d := ⟨1.0, 1.0, 1.0, c.a⟩) hc hc percent f]
  | css | passthrough => simp [hplain]

/-- A call that reads one expression as a colour and writes that colour. -/
theorem parse_written_fault_iff {e : Text} {f : Fault} :
    (Colour.parse e >>= written .whenNeeded) = .error (.fault f)
      ↔ f = .notANumber ∧ Colour.HueLost e := by
  rw [bind_eq_error_iff, Colour.parse_fault_iff]
  constructor
  · rintro (h | ⟨c, hc, h⟩)
    · exact h
    · exact absurd h (written_ne_fault .whenNeeded ((Colour.parse_bounded hc).mono (by decide)) f)
  · exact .inl

/-- A transform of the first argument. -/
theorem arg_onColour_fault_iff {call : TransformCall} (hread : call.firstColour? = call.arg? 0)
    {f : Fault} : (call.arg 0 >>= fun e => Colour.parse e >>= call.onColour) = .error (.fault f)
      ↔ (f = .notANumber ∧ call.LosesHue) ∨ (f = .divisionByZero ∧ call.LosesSaturation) := by
  simp only [bind_eq_error_iff, arg_ne_fault, arg_eq_ok_iff, Colour.parse_fault_iff, false_or]
  constructor
  · rintro ⟨e, he, ⟨hf, hlost⟩ | ⟨c, hc, h⟩⟩
    · exact .inl ⟨hf, .first (hread.trans he) hlost⟩
    · rcases (onColour_fault_iff (Colour.parse_bounded hc)).mp h with
        ⟨hf, hmix, d, hd, hlost⟩ | ⟨hf, hlost, hrelights⟩
      · exact .inl ⟨hf, .second hmix he hc hd hlost⟩
      · exact .inr ⟨hf, he, hc, hlost, hrelights⟩
  · rintro (⟨hf, h⟩ | ⟨hf, h⟩)
    · cases h with
      | first read lost => exact ⟨_, hread.symm.trans read, .inl ⟨hf, lost⟩⟩
      | second mixes first readable read lost =>
        exact ⟨_, first, .inr ⟨_, readable, (onColour_fault_iff (Colour.parse_bounded readable)).mpr
          (.inl ⟨hf, mixes, _, read, lost⟩)⟩⟩
    · obtain ⟨first, readable, lost, relights⟩ := h
      exact ⟨_, first, .inr ⟨_, readable, (onColour_fault_iff (Colour.parse_bounded readable)).mpr
        (.inr ⟨hf, lost, relights⟩)⟩⟩

theorem evaluate_fault_iff {call : TransformCall} {f : Fault} :
    call.evaluate = .error (.fault f)
      ↔ (f = .notANumber ∧ call.LosesHue) ∨ (f = .divisionByZero ∧ call.LosesSaturation) := by
  -- the two transforms that read no argument lose no saturation, and mix nothing
  have hwhole {e : Text} (hread : call.firstColour? = some e) (hmix : call.transform ≠ .mix)
      (hrelight : ¬ call.LosesSaturation) : (f = .notANumber ∧ Colour.HueLost e)
        ↔ (f = .notANumber ∧ call.LosesHue) ∨ (f = .divisionByZero ∧ call.LosesSaturation) := by
    constructor
    · rintro ⟨hf, hlost⟩
      exact .inl ⟨hf, .first hread hlost⟩
    · rintro (⟨hf, h⟩ | ⟨-, h⟩)
      · cases h with
        | first read lost =>
          cases hread.symm.trans read
          exact ⟨hf, lost⟩
        | second mixes => exact absurd mixes hmix
      · exact absurd h hrelight
  unfold evaluate
  cases htransform : call.transform with
  | passthrough =>
    refine parse_written_fault_iff.trans (hwhole ?_ ?_ ?_)
    · rw [firstColour?, htransform]
    · rw [htransform]; exact nofun
    · rintro ⟨-, -, -, relights⟩
      simp [htransform] at relights
  | css =>
    refine parse_written_fault_iff.trans (hwhole ?_ ?_ ?_)
    · rw [firstColour?, htransform]
    · rw [htransform]; exact nofun
    · rintro ⟨-, -, -, relights⟩
      simp [htransform] at relights
  | _ => exact arg_onColour_fault_iff (by rw [firstColour?, htransform])

end TransformCall

/-- **Which calls are neither evaluated nor refused.** Colour arithmetic answers every call with a
text or with the reason why an expression is refused, but for two faults: no number where the call
comes upon an expression whose hue is lost, and a division by zero where it changes the lightness
of a colour whose saturation is lost. -/
theorem standardMath_fault_iff (call : TransformCall) (f : Fault) :
    standardMath.apply call = .error (.fault f)
      ↔ (f = .notANumber ∧ call.LosesHue) ∨ (f = .divisionByZero ∧ call.LosesSaturation) := by
  rw [← TransformCall.evaluate_fault_iff]
  change call.evaluate.mapError call.blame = _ ↔ _
  rw [mapError_eq_error_iff]
  constructor
  · rintro ⟨e, he, hblame⟩
    cases e with
    | refused expression reason =>
      simp only [TransformCall.blame] at hblame
      split_ifs at hblame
    | fault g =>
      cases hblame
      exact he
  · exact fun h => ⟨.fault f, h, rfl⟩

/-- A hue that is not a number is neither evaluated nor refused. -/
theorem hue_of_no_number_faults : ¬ ∀ (name : Text) (args : List Text) (expression : Text),
    (∃ t, standardMath.apply (.ofName name args expression) = .ok t)
      ∨ ∃ e reason, standardMath.apply (.ofName name args expression)
          = .error (.refused e reason) := by
  intro h
  have hfault : standardMath.apply (.ofName "hsv" ["nan", "50%", "50%"] "hsv(nan, 50%, 50%)")
      = .error (.fault .notANumber) := by decide +kernel
  rcases h "hsv" ["nan", "50%", "50%"] "hsv(nan, 50%, 50%)" with ⟨t, ht⟩ | ⟨e, reason, he⟩
  · cases hfault.symm.trans ht
  · cases hfault.symm.trans he

/-- The brightest channel is 1, and the dimmest lies so close below it that their sum rounds
to 2. -/
example : standardMath.apply (.ofName "lighten" ["rgb(255, 255, 254.99999999999997)", "10"]
    "lighten(rgb(255, 255, 254.99999999999997), 10)") = .error (.fault .divisionByZero) := by
  decide +kernel

end Colourway
