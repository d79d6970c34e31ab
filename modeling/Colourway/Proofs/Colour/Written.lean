import Colourway.Colour.Transform
import Colourway.Proofs.Number.Fraction
import Colourway.Proofs.Syntax.Hex

/-!
# Colours and their hex text

Every colour of bounded alpha has hex text, whatever its other channels are: a channel is brought
into range before it is rounded, and what is not a number becomes the upper end. Conversely, every
hex literal and every colour name is a colour.

* `hex_ok` — a colour has hex text.
* `ofHex_ok` — a hex literal without a line feed is a colour, and its alpha is bounded.
* `lower_trim_closed` — a text that has been trimmed and made lower case ends in no line feed.
-/

namespace Colourway

open Number Text
open Float.Model (totalExponent)

/-! ## Channels in range -/

/-- A double between 0 and 1 is bounded by 2. -/
theorem bounded_of_between {x : Float} (hlow : 0.0 < x) (hhigh : x < 1.0) : Bounded 1 x := by
  obtain ⟨m, e, hm, hx, hlt, he⟩ := unpack_between hlow hhigh
  have hlog := log2_le_of_lt (k := 52) hlt
  unfold Bounded
  rw [hx]
  change totalExponent m e ≤ 1
  rw [totalExponent_eq]
  omega

theorem bounded_one : Bounded 1 1.0 := by decide +kernel

theorem clamp_bounded (x : Float) : Bounded 1 (clamp x) := by
  have hzero : Bounded 1 0.0 := by decide +kernel
  unfold clamp clampTo
  simp only []
  split_ifs with hhigh hlow hlow
  · exact bounded_of_between hlow hhigh
  · exact hzero
  · exact bounded_one
  · exact hzero

namespace Colour

theorem rounded_ok {x : Float} {top : Int} (h : Bounded top x) : ∃ n, rounded x = .ok n := by
  obtain ⟨p, hp⟩ := h.reading
  exact ⟨p.rounded, by rw [rounded, hp]⟩

/-- Scaling to a byte leaves a bounded double bounded. -/
theorem bounded_byte {x : Float} {top : Int} (h : Bounded top x) (hleast : -1000 ≤ top)
    (hmost : top ≤ 1000) : Bounded (top + 9) (x * 255.0) :=
  bounded_mul h (by decide +kernel : Bounded 8 255.0) (by omega) (by omega) (by omega)

theorem channelHex_ok (c : Float) : ∃ t, channelHex c = .ok t := by
  obtain ⟨n, hn⟩ := rounded_ok (bounded_byte (clamp_bounded c) (by decide) (by decide))
  exact ⟨hexDigits 2 n.toNat, by rw [channelHex, channelByte, hn]; rfl⟩

theorem mapM_channelHex_ok (cs : List Float) : ∃ ts, cs.mapM channelHex = .ok ts := by
  induction cs with
  | nil => exact ⟨[], rfl⟩
  | cons c cs ih =>
    obtain ⟨t, ht⟩ := channelHex_ok c
    obtain ⟨ts, hts⟩ := ih
    exact ⟨t :: ts, by rw [List.mapM_cons, ht, hts]; rfl⟩

/-- **A colour has hex text** as soon as its alpha is bounded. -/
theorem hex_ok (alpha : AlphaPair) {c : Colour} (h : Bounded 1000 c.a) :
    ∃ t, c.hex alpha = .ok t := by
  have hpairs (w : Bool) : ∃ t, (([c.r, c.g, c.b] ++ if w then [c.a] else []).mapM channelHex >>=
      fun pairs => pure ("#" ++ pairs.flatten : Text)) = .ok t := by
    obtain ⟨ts, hts⟩ := mapM_channelHex_ok ([c.r, c.g, c.b] ++ if w then [c.a] else [])
    exact ⟨"#" ++ ts.flatten, by rw [hts]; rfl⟩
  cases alpha with
  | always => exact hpairs true
  | never => exact hpairs false
  | whenNeeded =>
    obtain ⟨n, hn⟩ := rounded_ok (bounded_byte h (by decide) (by decide))
    have hfull : c.opaque? = .ok (decide (255 ≤ n)) := by rw [opaque?, hn]; rfl
    unfold hex
    simp only [hfull]
    exact hpairs (!decide (255 ≤ n))

/-! ## Hex literals -/

theorem digitValue_lt {c : CodePoint} (h : Syntax.isHexDigit c = true) : digitValue c < 16 := by
  simp only [Syntax.isHexDigit, Bool.or_eq_true, Bool.and_eq_true, decide_eq_true_eq] at h
  unfold digitValue
  split_ifs <;> omega

/-- A pair of digits is a bounded channel. -/
theorem bounded_pair {hi lo : CodePoint} (hhi : Syntax.isHexDigit hi = true)
    (hlo : Syntax.isHexDigit lo = true) :
    Bounded 5 (Float.ofNat (16 * digitValue hi + digitValue lo) / 255.0) := by
  have hlt : 16 * digitValue hi + digitValue lo < 2 ^ 8 := by
    have := digitValue_lt hhi
    have := digitValue_lt hlo
    omega
  have hdivisor : ∃ s n e hn, (255.0 : Float).toModel.unpack = .finite s n e hn
      ∧ 8 ≤ totalExponent n e :=
    ⟨.positive, 255 * 2 ^ 45, -45, by decide, unpack_full, by decide⟩
  exact bounded_div (bounded_ofNat hlt (by decide)) hdivisor (by decide) (by decide) (by decide)

/-- An even number of digits gives half as many bounded channels. -/
theorem channels?_of_digits {s : Text} (hs : ∀ c ∈ s, Syntax.isHexDigit c = true) {n : Nat}
    (hn : s.length = 2 * n) :
    ∃ cs, channels? s = some cs ∧ cs.length = n ∧ ∀ c ∈ cs, Bounded 5 c := by
  induction s using channels?.induct generalizing n with
  | case1 => exact ⟨[], rfl, by rw [List.length_nil] at hn ⊢; omega, by simp⟩
  | case2 hi lo rest hdigits ih =>
    rw [Bool.and_eq_true] at hdigits
    obtain ⟨cs, hcs, hlength, hbounded⟩ := ih (n := n - 1)
      (fun c hc => hs c (List.mem_cons_of_mem _ (List.mem_cons_of_mem _ hc)))
      (by simp only [List.length_cons] at hn; omega)
    refine ⟨Float.ofNat (16 * digitValue hi + digitValue lo) / 255.0 :: cs, ?_, ?_, ?_⟩
    · rw [channels?, if_pos (by rw [hdigits.1, hdigits.2]; rfl), hcs]
      rfl
    · simp only [List.length_cons] at hn ⊢
      omega
    · intro c hc
      rcases List.mem_cons.mp hc with rfl | hc
      · exact bounded_pair hdigits.1 hdigits.2
      · exact hbounded c hc
  | case3 hi lo rest hdigits =>
    have hhi := hs hi List.mem_cons_self
    have hlo := hs lo (List.mem_cons_of_mem _ List.mem_cons_self)
    rw [hhi, hlo] at hdigits
    exact absurd rfl hdigits
  | case4 c =>
    simp only [List.length_singleton] at hn
    omega

/-- The number sign of a literal is taken off its digits. -/
theorem dropLead_sign {digits : Text} (h : ∀ d ∈ digits, Syntax.isHexDigit d = true) :
    dropLead (· == .char '#') (.char '#' :: digits) = digits := by
  cases digits with
  | nil => rfl
  | cons d ds =>
    have hd : (d == .char '#') = false := by
      refine beq_false_of_ne fun heq => ?_
      have := h d List.mem_cons_self
      rw [heq] at this
      exact absurd this (by decide)
    simp [dropLead, List.dropWhile, hd]

/-- **A hex literal without a line feed is a colour**, and its alpha is bounded. -/
theorem ofHex_ok {s : Text} (hlast : s.getLast? ≠ some (.char '\n'))
    (hs : Syntax.isHex s = true) : ∃ c, ofHex s = .ok c ∧ Bounded 5 c.a := by
  obtain ⟨digits, hnormal, hdigits, hlength⟩ := Syntax.normalHex?_of_closed hlast hs
  have hone : Bounded 5 1.0 := bounded_one.mono (by decide)
  unfold ofHex
  rw [hnormal]
  simp only []
  rw [dropLead_sign hdigits]
  rcases hlength with hsix | height
  · obtain ⟨cs, hcs, hcount, -⟩ := channels?_of_digits (n := 3) hdigits hsix
    obtain ⟨r, g, b, rfl⟩ := List.length_eq_three.mp hcount
    exact ⟨⟨r, g, b, 1.0⟩, by rw [hcs], hone⟩
  · obtain ⟨cs, hcs, hcount, hbounded⟩ := channels?_of_digits (n := 4) hdigits height
    obtain ⟨r, g, b, a, rfl⟩ := List.length_eq_four.mp hcount
    exact ⟨⟨r, g, b, a⟩, by rw [hcs], hbounded a (by simp)⟩

/-- The hex literals of the named colours are literals. -/
theorem isHex_of_named {name h : Text} (hn : hexOfName? name = some h) :
    h.getLast? ≠ some (.char '\n') ∧ Syntax.isHex h = true := by
  have hall : ∀ entry ∈ named, (ofString entry.2).getLast? ≠ some (.char '\n')
      ∧ Syntax.isHex (ofString entry.2) = true := by decide +kernel
  obtain ⟨entry, hentry, rfl⟩ := Option.map_eq_some_iff.mp hn
  exact hall entry (List.mem_of_find?_eq_some hentry)

end Colour

/-! ## Line feeds -/

namespace Text

/-- A trimmed text in lower case ends in no line feed. -/
theorem lower_trim_closed (s : Text) : (lower (trim s)).getLast? ≠ some (.char '\n') := by
  refine getLast?_lowerAfter fun h => ?_
  have := isBlank_getLast?_trim h
  exact absurd this (by decide)

end Text

end Colourway
