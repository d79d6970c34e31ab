import Colourway.Proofs.Colour.Written
import Colourway.Proofs.Except
import Colourway.Proofs.Syntax.Search

/-!
# Colour expressions are read or refused

A component of an expression is read, or the expression is refused. One conversion can meet a value
on which it is not defined: from hue, saturation and value, which needs the sector of the hue as an
integer. A hue that is infinite or not a number has none (`ofHsv_fault_iff`), every other hue has,
however large the number is that it is written with. `parse_fault_iff` says which expressions are
neither read nor refused, and `parse_bounded` that the alpha of every colour read is bounded.
-/

namespace Colourway

open Number Text

theorem ColourError.ofFault_eq_fault_iff {α : Type} {x : Except Fault α} {f : Fault} :
    ofFault x = .error (.fault f) ↔ x = .error f := by
  cases x <;> simp [ofFault]

theorem ColourError.ofFault_eq_ok_iff {α : Type} {x : Except Fault α} {a : α} :
    ofFault x = .ok a ↔ x = .ok a := by
  cases x <;> simp [ofFault]

namespace Colour

/-! ## Components -/

/-- A number is read, or the expression is refused. -/
theorem number_ne_fault (text expression : Text) (f : Fault) :
    number text expression ≠ .error (.fault f) := by
  unfold number
  split <;> simp

theorem number_eq_ok_iff {text expression : Text} {x : Float} :
    number text expression = .ok x ↔ readFloat? text = some x := by
  unfold number
  cases readFloat? text <;> simp

theorem channel_ne_fault (text expression : Text) (scale : Float) (f : Fault) :
    channel text expression scale ≠ .error (.fault f) := by
  unfold channel
  split <;> rw [Ne, map_eq_error_iff] <;> exact number_ne_fault _ _ _

theorem channel_bounded {text expression : Text} {scale c : Float}
    (h : channel text expression scale = .ok c) : Bounded 1 c := by
  unfold channel at h
  split at h <;> obtain ⟨x, -, rfl⟩ := map_eq_ok_iff.mp h <;> exact clamp_bounded _

/-! ## Hues -/

/-- The text of the number in a hue, its unit left out. -/
def hueBody (text : Text) : Text :=
  let text := lower (trim text)
  match withoutEnding? "deg" text, withoutEnding? "turn" text with
  | some body, _ => body
  | none, some body => body
  | none, none => text

/-- The number that is written in a hue, before it is wrapped around the turn. -/
def hueNumber? (text : Text) : Option Float := readFloat? (hueBody text)

/-- A number of degrees or turns as a fraction of the turn. -/
inductive Wraps (x : Float) : Float → Prop
  /-- From degrees. -/
  | degrees : Wraps x (floorMod x 360 / 360.0)
  /-- From turns. -/
  | turns : Wraps x (floorMod x 1)

/-- A hue is the number written in it, wrapped. -/
theorem hue_eq (text expression : Text) : ∃ wrap : Float → Float, (∀ x, Wraps x (wrap x)) ∧
    hue text expression = (number (hueBody text) expression).map wrap := by
  unfold hue hueBody
  simp only []
  cases withoutEnding? "deg" (lower (trim text)) with
  | some body => exact ⟨_, fun x => .degrees, rfl⟩
  | none =>
    cases withoutEnding? "turn" (lower (trim text)) with
    | some body => exact ⟨_, fun x => .turns, rfl⟩
    | none => exact ⟨_, fun x => .degrees, rfl⟩

theorem hue_ne_fault (text expression : Text) (f : Fault) :
    hue text expression ≠ .error (.fault f) := by
  obtain ⟨wrap, -, heq⟩ := hue_eq text expression
  rw [heq, Ne, map_eq_error_iff]
  exact number_ne_fault _ _ _

/-- A finite number wraps to a hue that lies in one of the sectors of the turn, any other to one
that is not a number. -/
theorem Wraps.reading {x h : Float} (w : Wraps x h) :
    (x.isFinite = true → ∃ p, Reading.of (h * 6.0) = .finite p)
      ∧ (x.isFinite = false → Reading.of (h * 6.0) = .nan) := by
  have hsix : Bounded 3 6.0 := by decide +kernel
  cases w with
  | degrees =>
    constructor
    · intro hx
      have hdivisor : ∃ s n e hn, (360.0 : Float).toModel.unpack = .finite s n e hn
          ∧ 9 ≤ Float.Model.totalExponent n e :=
        ⟨.positive, 360 * 2 ^ 44, -44, by decide, by with_unfolding_all rfl, by decide⟩
      have hturn : Bounded 52 (floorMod x 360 / 360.0) :=
        bounded_div (bounded_floorMod hx (by decide) (by decide)) hdivisor (by decide) (by decide)
          (by decide)
      have hsixths : Bounded 56 (floorMod x 360 / 360.0 * 6.0) :=
        bounded_mul hturn hsix (by decide) (by decide) (by decide)
      exact hsixths.reading
    · intro hx
      rw [floorMod_of_not_finite 360 hx]
      with_unfolding_all rfl
  | turns =>
    constructor
    · intro hx
      have hsixths : Bounded 63 (floorMod x 1 * 6.0) :=
        bounded_mul (bounded_floorMod hx (by decide) (by decide)) hsix (by decide) (by decide)
          (by decide)
      exact hsixths.reading
    · intro hx
      rw [floorMod_of_not_finite 1 hx]
      with_unfolding_all rfl

/-! ## Colours by hue, saturation and value -/

/-- The sector of the turn is asked for unless the saturation is zero. -/
theorem ofHsv_fault_iff {x h s v a : Float} (w : Wraps x h) {f : Fault} :
    ofHsv h s v a = .error f ↔ f = .notANumber ∧ x.isFinite = false ∧ (s == 0.0) = false := by
  obtain ⟨hfinite, hnan⟩ := w.reading
  unfold ofHsv
  cases hs : s == 0.0 with
  | true => simp
  | false =>
    cases hx : x.isFinite with
    | true =>
      obtain ⟨p, hp⟩ := hfinite hx
      simp [hp]
    | false =>
      simp [hnan hx, eq_comm]

theorem ofHsv_alpha {h s v a : Float} {c : Colour} (hc : ofHsv h s v a = .ok c) : c.a = a := by
  unfold ofHsv at hc
  split at hc
  · cases hc
    rfl
  · split at hc
    · cases hc
    · cases hc
    · cases hc
      split <;> rfl

/-- A hue that is given as an infinity or as no number. -/
def WildHue (text : Text) : Prop := ∃ x, hueNumber? text = some x ∧ x.isFinite = false

theorem ofComponents_fault_iff {model : Model} {x y z expression : Text} {alpha : Float}
    {f : Fault} : ofComponents model x y z alpha expression = .error (.fault f) ↔
      f = .notANumber ∧ model = .hsv ∧ WildHue x
        ∧ (∃ s, channel y expression 100.0 = .ok s ∧ (s == 0.0) = false)
        ∧ ∃ v, channel z expression 100.0 = .ok v := by
  unfold ofComponents
  cases model with
  | rgb => simp [bind_eq_error_iff, channel_ne_fault, pure, Except.pure]
  | hsl => simp [bind_eq_error_iff, channel_ne_fault, hue_ne_fault, pure, Except.pure]
  | hsv =>
    obtain ⟨wrap, hwrap, heq⟩ := hue_eq x expression
    simp only [heq, bind_eq_error_iff, map_eq_error_iff, map_eq_ok_iff, channel_ne_fault,
      number_ne_fault, number_eq_ok_iff, ColourError.ofFault_eq_fault_iff, false_or, true_and]
    constructor
    · rintro ⟨h, ⟨n, hn, rfl⟩, s, hs, v, hv, hfault⟩
      obtain ⟨rfl, hwild, hvivid⟩ := (ofHsv_fault_iff (hwrap n)).mp hfault
      exact ⟨rfl, ⟨n, hn, hwild⟩, ⟨s, hs, hvivid⟩, v, hv⟩
    · rintro ⟨rfl, ⟨n, hn, hwild⟩, ⟨s, hs, hvivid⟩, v, hv⟩
      exact ⟨wrap n, ⟨n, hn, rfl⟩, s, hs, v, hv,
        (ofHsv_fault_iff (hwrap n)).mpr ⟨rfl, hwild, hvivid⟩⟩

theorem ofComponents_alpha {model : Model} {x y z expression : Text} {alpha : Float} {c : Colour}
    (h : ofComponents model x y z alpha expression = .ok c) : c.a = alpha := by
  unfold ofComponents at h
  cases model with
  | rgb =>
    obtain ⟨r, -, h⟩ := bind_eq_ok_iff.mp h
    obtain ⟨g, -, h⟩ := bind_eq_ok_iff.mp h
    obtain ⟨b, -, h⟩ := bind_eq_ok_iff.mp h
    cases h
    rfl
  | hsl =>
    obtain ⟨hue, -, h⟩ := bind_eq_ok_iff.mp h
    obtain ⟨s, -, h⟩ := bind_eq_ok_iff.mp h
    obtain ⟨l, -, h⟩ := bind_eq_ok_iff.mp h
    cases h
    unfold ofHls
    simp only []
    split <;> rfl
  | hsv =>
    obtain ⟨hue, -, h⟩ := bind_eq_ok_iff.mp h
    obtain ⟨s, -, h⟩ := bind_eq_ok_iff.mp h
    obtain ⟨v, -, h⟩ := bind_eq_ok_iff.mp h
    exact ofHsv_alpha (ColourError.ofFault_eq_ok_iff.mp h)

/-! ## Expressions -/

/-- An expression in hue, saturation and value that is well formed, with a hue that is given as an
infinity or as no number and a saturation other than zero. -/
inductive HueLost (expression : Text) : Prop
  | intro {name args hue saturation value : Text} {alpha : List Text}
    (call : modelCall? (lower (trim expression)) = some (.hsv, name, args))
    (parts : components args = hue :: saturation :: value :: alpha)
    (short : alpha.length ≤ 1)
    (opacity : ∀ a ∈ alpha, ∃ c, channel a expression 1.0 = .ok c)
    (wild : WildHue hue)
    (vivid : ∃ s, channel saturation expression 100.0 = .ok s ∧ (s == 0.0) = false)
    (lit : ∃ v, channel value expression 100.0 = .ok v)

theorem paren_mem_of_modelCall? {s : Text} {r : Model × Text × Text} (h : modelCall? s = some r) :
    .char '(' ∈ s := by
  unfold modelCall? at h
  split at h
  · next hit =>
    obtain ⟨name, args, rest, -, -, -, rfl, -⟩ := Syntax.callAt_eq_some_iff.mp hit
    simp
  · cases h

/-- A call is no hex literal. -/
theorem modelCall?_of_isHex {s : Text} (h : Syntax.isHex s = true) : modelCall? s = none := by
  rw [Syntax.isHex, Bool.or_eq_true] at h
  have hbody : ∃ digits, Syntax.hexBody? s = some digits := by
    rcases h with h | h
    · obtain ⟨digits, hdigits, -⟩ := Syntax.isLongHex_iff.mp h
      exact ⟨digits, hdigits⟩
    · obtain ⟨digits, hdigits, -⟩ := Syntax.isShortHex_iff.mp h
      exact ⟨digits, hdigits⟩
  obtain ⟨digits, hdigits⟩ := hbody
  obtain ⟨hhex, hs⟩ := Syntax.hexBody?_eq_some_iff.mp hdigits
  have hparen : CodePoint.char '(' ∉ digits := fun hmem => absurd (hhex _ hmem) (by decide)
  cases hcall : modelCall? s with
  | none => rfl
  | some r =>
    have hmem := paren_mem_of_modelCall? hcall
    rcases hs with rfl | rfl <;> simp [hparen] at hmem

/-- A call is no colour name. -/
theorem modelCall?_of_named {s h : Text} (hs : hexOfName? s = some h) : modelCall? s = none := by
  have hall : ∀ entry ∈ named, CodePoint.char '(' ∉ ofString entry.1 := by decide +kernel
  obtain ⟨entry, hentry, rfl⟩ := Option.map_eq_some_iff.mp hs
  have hname : ofString entry.1 = s := by simpa using List.find?_some hentry
  cases hcall : modelCall? s with
  | none => rfl
  | some r =>
    have hmem := paren_mem_of_modelCall? hcall
    rw [← hname] at hmem
    exact absurd hmem (hall entry (List.mem_of_find?_eq_some hentry))

theorem hueLost_iff {expression name args x y z : Text} {model : Model} {alpha : List Text}
    (hcall : modelCall? (lower (trim expression)) = some (model, name, args))
    (hparts : components args = x :: y :: z :: alpha) :
    HueLost expression ↔ model = .hsv ∧ alpha.length ≤ 1
      ∧ (∀ a ∈ alpha, ∃ c, channel a expression 1.0 = .ok c) ∧ WildHue x
      ∧ (∃ s, channel y expression 100.0 = .ok s ∧ (s == 0.0) = false)
      ∧ ∃ v, channel z expression 100.0 = .ok v := by
  constructor
  · rintro ⟨hcall', hparts', short, opacity, wild, vivid, lit⟩
    cases hcall.symm.trans hcall'
    cases hparts.symm.trans hparts'
    exact ⟨rfl, short, opacity, wild, vivid, lit⟩
  · rintro ⟨rfl, short, opacity, wild, vivid, lit⟩
    exact ⟨hcall, hparts, short, opacity, wild, vivid, lit⟩

theorem HueLost.call_ne_none {expression : Text} (h : HueLost expression) :
    modelCall? (lower (trim expression)) ≠ none := by
  obtain ⟨call, -⟩ := h
  rw [call]
  exact nofun

/-- **An expression is read or refused unless its hue is lost.** -/
theorem parse_fault_iff {expression : Text} {f : Fault} :
    parse expression = .error (.fault f) ↔ f = .notANumber ∧ HueLost expression := by
  unfold parse
  simp only []
  have hclosed := lower_trim_closed expression
  split_ifs with hempty hhex
  · have hnone : modelCall? (lower (trim expression)) = none := by
      rw [List.isEmpty_iff.mp hempty]
      rfl
    exact ⟨nofun, fun h => absurd hnone h.2.call_ne_none⟩
  · obtain ⟨c, hc, -⟩ := ofHex_ok hclosed hhex
    rw [ColourError.ofFault_eq_fault_iff, hc]
    exact ⟨nofun, fun h => absurd (modelCall?_of_isHex hhex) h.2.call_ne_none⟩
  · split
    · next h hname =>
      obtain ⟨hlast, hex⟩ := isHex_of_named hname
      obtain ⟨c, hc, -⟩ := ofHex_ok hlast hex
      rw [ColourError.ofFault_eq_fault_iff, hc]
      exact ⟨nofun, fun h => absurd (modelCall?_of_named hname) h.2.call_ne_none⟩
    · split
      · next hnone => exact ⟨nofun, fun h => absurd hnone h.2.call_ne_none⟩
      · next model name args hcall =>
        split
        · next x y z hparts =>
          rw [ofComponents_fault_iff, hueLost_iff hcall hparts]
          simp
        · next x y z a hparts =>
          simp only [bind_eq_error_iff, channel_ne_fault, false_or, ofComponents_fault_iff,
            hueLost_iff hcall hparts, List.length_singleton, le_refl, List.forall_mem_singleton]
          constructor
          · rintro ⟨alpha, halpha, rfl, rfl, rest⟩
            exact ⟨rfl, rfl, trivial, ⟨alpha, halpha⟩, rest⟩
          · rintro ⟨rfl, rfl, -, ⟨alpha, halpha⟩, rest⟩
            exact ⟨alpha, halpha, rfl, rfl, rest⟩
        · next parts hthree hfour =>
          constructor
          · rintro ⟨⟩
          · rintro ⟨-, h⟩
            cases h with
            | @intro _ _ _ _ _ alpha call parts short =>
              cases hcall.symm.trans call
              cases alpha with
              | nil => exact absurd parts (hthree _ _ _)
              | cons a rest =>
                obtain rfl : rest = [] := by simpa using short
                exact absurd parts (hfour _ _ _ _)

/-- The alpha of a colour that was read is bounded. -/
theorem parse_bounded {expression : Text} {c : Colour} (h : parse expression = .ok c) :
    Bounded 5 c.a := by
  have hone : Bounded 5 1.0 := bounded_one.mono (by decide)
  unfold parse at h
  simp only [] at h
  have hclosed := lower_trim_closed expression
  split_ifs at h with hempty hhex
  · obtain ⟨d, hd, hbounded⟩ := ofHex_ok hclosed hhex
    cases hd.symm.trans (ColourError.ofFault_eq_ok_iff.mp h)
    exact hbounded
  · split at h
    · next hex hname =>
      obtain ⟨hlast, hhex⟩ := isHex_of_named hname
      obtain ⟨d, hd, hbounded⟩ := ofHex_ok hlast hhex
      cases hd.symm.trans (ColourError.ofFault_eq_ok_iff.mp h)
      exact hbounded
    · split at h
      · cases h
      · split at h
        · rw [ofComponents_alpha h]
          exact hone
        · obtain ⟨alpha, halpha, h⟩ := bind_eq_ok_iff.mp h
          rw [ofComponents_alpha h]
          exact (channel_bounded halpha).mono (by decide)
        · cases h

end Colour

end Colourway
