import Colourway.Text.Lowercase
import Mathlib.Data.List.Basic
import Mathlib.Tactic.SplitIfs

/-!
# Small letters

Lower case is made of characters that stay as they are in lower case (`small_lower`), so that taking
it twice is taking it once (`lower_lower`).  The table of capitals is consulted once, row by row: no
small letter of a row is a capital of any row (`misses_caseRuns`).

* `lower_of_ascii` — ASCII text is taken character by character.
* `getLast?_lowerAfter` — no line feed comes to stand at the end.
-/

namespace Colourway.Text

/-! ## Rows of capitals -/

namespace CaseRun

/-- The first small letter of a row. -/
def smallFirst (r : CaseRun) : Nat := (r.first + r.shift).toNat

/-- Whether the small letters of the row `r` are no capitals of the row `q`: they lie in front of it,
behind it, or between its capitals. -/
def misses (r q : CaseRun) : Bool :=
  Nat.blt (r.smallFirst + (r.last - r.first)) q.first || Nat.blt q.last r.smallFirst
    || ((r.step == 2 || r.first == r.last) && q.step == 2 && (r.smallFirst + q.first) % 2 == 1)

/-- The one character with two small letters, as a row. -/
def dotted : CaseRun := ⟨0x0130, 0x0130, 2, 0⟩

theorem misses_caseRuns : ∀ r ∈ caseRuns, ∀ q ∈ dotted :: caseRuns, r.misses q = true := by
  have hall : (caseRuns.all fun r => (dotted :: caseRuns).all fun q => r.misses q) = true := by
    decide +kernel
  intro r hr q hq
  exact List.all_eq_true.mp (List.all_eq_true.mp hall r hr) q hq

/-- The small letter of a capital lies as far from the first small letter of the row as the capital
lies from the first capital. -/
theorem small_eq {r : CaseRun} (hr : r ∈ caseRuns) {n : Nat} (h : r.first ≤ n) :
    (n + r.shift).toNat = r.smallFirst + (n - r.first) := by
  have hall : ∀ r ∈ caseRuns, 0 ≤ r.first + r.shift := by decide +kernel
  have := hall r hr
  unfold smallFirst
  omega

/-- The small letter of a capital is no capital of any row. -/
theorem not_covers_small {r q : CaseRun} (hr : r ∈ caseRuns) (hq : q ∈ dotted :: caseRuns)
    {n : Nat} (h : r.covers n = true) : q.covers (n + r.shift).toNat = false := by
  have hmisses := misses_caseRuns r hr q hq
  simp only [covers, Bool.and_eq_true, decide_eq_true_eq, beq_iff_eq] at h
  rw [small_eq hr h.1.1]
  simp only [misses, Nat.blt_eq, Bool.or_eq_true, Bool.and_eq_true, beq_iff_eq] at hmisses
  simp only [covers, Bool.and_eq_false_iff, decide_eq_false_iff_not, beq_eq_false_iff_ne]
  obtain ⟨⟨hfirst, hlast⟩, hstep⟩ := h
  rcases hmisses with (hbefore | hbehind) | ⟨⟨hrow, hq⟩, hodd⟩
  · omega
  · omega
  · rw [hq]
    rcases hrow with hrow | hrow
    · rw [hrow] at hstep
      omega
    · omega

end CaseRun

/-! ## ASCII text -/

/-- An ASCII character is the one with its number. -/
theorem eq_char_of_toNat_lt {c : CodePoint} (h : c.toNat < 128) :
    c = .char (Char.ofNat c.toNat) := by
  cases c with
  | char c => simp [CodePoint.toNat]
  | surrogate offset =>
    simp only [CodePoint.toNat] at h
    omega

theorem lowerChar_of_ascii {c : CodePoint} (h : c.toNat < 128) : lowerChar c = [c.toLower] := by
  have hall : ∀ n < 128,
      lowerChar (.char (Char.ofNat n)) = [CodePoint.toLower (.char (Char.ofNat n))] := by
    decide +kernel
  rw [eq_char_of_toNat_lt h]
  exact hall _ h

/-- The lower case of ASCII text is taken character by character. -/
theorem lower_of_ascii {s : Text} (h : ∀ c ∈ s, c.toNat < 128) :
    lower s = s.map CodePoint.toLower := by
  have hafter : ∀ before, lowerAfter before s = s.map CodePoint.toLower := by
    induction s with
    | nil => intro before; rfl
    | cons c s ih =>
      intro before
      have hc : c.toNat < 128 := h c List.mem_cons_self
      have hsigma : c.toNat ≠ 0x03a3 := by omega
      simp [lowerAfter, hsigma, lowerChar_of_ascii hc,
        ih (fun d hd => h d (List.mem_cons_of_mem _ hd)) (c :: before)]
  exact hafter []

/-! ## Small characters -/

/-- A character that stays as it is in lower case, whatever stands around it. -/
def IsSmall (c : CodePoint) : Prop := c.toNat ≠ 0x03a3 ∧ lowerChar c = [c]

instance (c : CodePoint) : Decidable (IsSmall c) := inferInstanceAs (Decidable (_ ∧ _))

/-- The characters whose lower case is not looked up in the table are in it all the same. -/
theorem exists_covers {n : Nat} (h : 65 ≤ n ∧ n ≤ 90 ∨ n = 0x0130 ∨ n = 0x03a3) :
    ∃ q ∈ CaseRun.dotted :: caseRuns, q.covers n = true := by
  have hcapital : ∀ n < 91, 65 ≤ n → ∃ q ∈ CaseRun.dotted :: caseRuns, q.covers n = true := by
    decide +kernel
  rcases h with ⟨hfirst, hlast⟩ | rfl | rfl
  · exact hcapital n (by omega) hfirst
  · decide +kernel
  · decide +kernel

/-- A character that no row covers is small. -/
theorem small_of_not_covered {c : CodePoint}
    (h : ∀ q ∈ CaseRun.dotted :: caseRuns, q.covers c.toNat = false) : IsSmall c := by
  have hnot : ¬(65 ≤ c.toNat ∧ c.toNat ≤ 90 ∨ c.toNat = 0x0130 ∨ c.toNat = 0x03a3) := by
    intro hspecial
    obtain ⟨q, hq, hcovers⟩ := exists_covers hspecial
    rw [h q hq] at hcovers
    cases hcovers
  have hfind : caseRuns.find? (·.covers c.toNat) = none :=
    List.find?_eq_none.mpr fun q hq => by simp [h q (List.mem_cons_of_mem _ hq)]
  refine ⟨by omega, ?_⟩
  unfold lowerChar
  rw [hfind]
  split_ifs with hascii hcapital hdotted
  · simp only [Bool.and_eq_true, decide_eq_true_eq] at hcapital
    omega
  · rfl
  · omega
  · rfl

/-- The small letter of a capital is small. -/
theorem small_of_covers {r : CaseRun} (hr : r ∈ caseRuns) {n : Nat} (h : r.covers n = true) :
    IsSmall (.char (Char.ofNat (n + r.shift).toNat)) := by
  refine small_of_not_covered fun q hq => ?_
  have hfirst : ∀ q ∈ CaseRun.dotted :: caseRuns, 0 < q.first := by decide +kernel
  unfold CodePoint.toNat Char.ofNat
  by_cases hvalid : (n + r.shift).toNat.isValidChar
  · rw [dif_pos hvalid]
    exact CaseRun.not_covers_small hr hq h
  · rw [dif_neg hvalid]
    have := hfirst q hq
    simp [CaseRun.covers, Char.toNat]
    omega

/-- **The small letters of a character are small**, the capital sigma apart, which has two. -/
theorem small_lowerChar {c : CodePoint} (hc : c.toNat ≠ 0x03a3) : ∀ d ∈ lowerChar c, IsSmall d := by
  have hself : lowerChar c = [c] → ∀ d ∈ lowerChar c, IsSmall d := by
    intro h d hd
    rw [h] at hd
    rw [List.mem_singleton.mp hd]
    exact ⟨hc, h⟩
  by_cases hascii : c.toNat < 128
  · by_cases hcapital : (65 ≤ c.toNat && c.toNat ≤ 90) = true
    · have hall : ∀ n < 91, 65 ≤ n → IsSmall (.char (Char.ofNat (n + 32))) := by decide
      intro d hd
      rw [lowerChar, if_pos hascii, if_pos hcapital] at hd
      simp only [Bool.and_eq_true, decide_eq_true_eq] at hcapital
      rw [List.mem_singleton.mp hd]
      exact hall _ (by omega) hcapital.1
    · exact hself (by rw [lowerChar, if_pos hascii, if_neg hcapital])
  by_cases hdotted : c.toNat = 0x0130
  · rw [lowerChar, if_neg hascii, if_pos hdotted]
    decide
  cases hr : caseRuns.find? (·.covers c.toNat) with
  | none => exact hself (by rw [lowerChar, if_neg hascii, if_neg hdotted, hr])
  | some r =>
    have hcovers := List.find?_some hr
    intro d hd
    rw [lowerChar, if_neg hascii, if_neg hdotted, hr] at hd
    rw [List.mem_singleton.mp hd]
    exact small_of_covers (List.mem_of_find?_eq_some hr) hcovers

/-! ## Lower case -/

/-- **Lower case is made of small characters.** -/
theorem small_lower (s : Text) : ∀ c ∈ lower s, IsSmall c := by
  have hafter : ∀ before, ∀ c ∈ lowerAfter before s, IsSmall c := by
    induction s with
    | nil => exact fun _ _ hc => absurd hc List.not_mem_nil
    | cons d s ih =>
      intro before c hc
      rcases List.mem_append.mp hc with hc | hc
      · split_ifs at hc with hsigma hfinal
        · rw [List.mem_singleton.mp hc]
          decide
        · rw [List.mem_singleton.mp hc]
          decide
        · exact small_lowerChar hsigma c hc
      · exact ih _ c hc
  exact hafter []

/-- Small characters stay as they are. -/
theorem lower_of_small {s : Text} (h : ∀ c ∈ s, IsSmall c) : lower s = s := by
  have hafter : ∀ before, lowerAfter before s = s := by
    induction s with
    | nil => exact fun _ => rfl
    | cons c s ih =>
      intro before
      obtain ⟨hsigma, hself⟩ := h c List.mem_cons_self
      rw [lowerAfter, if_neg hsigma, hself, ih fun d hd => h d (List.mem_cons_of_mem _ hd)]
      rfl
  exact hafter []

/-- **Lower case is taken once.** -/
@[simp] theorem lower_lower (s : Text) : lower (lower s) = lower s := lower_of_small (small_lower s)

/-! ## Line feeds -/

/-- No other character becomes a line feed in lower case. -/
theorem getLast?_lowerChar {c : CodePoint} (hc : c ≠ .char '\n') :
    (lowerChar c).getLast? ≠ some (.char '\n') := by
  have hrange {n : Nat} (hn : n ≠ 10) : CodePoint.char (Char.ofNat n) ≠ .char '\n' := by
    intro h
    have hchar := CodePoint.char.inj h
    unfold Char.ofNat at hchar
    by_cases hvalid : n.isValidChar
    · rw [dif_pos hvalid] at hchar
      exact hn (congrArg Char.toNat hchar)
    · rw [dif_neg hvalid] at hchar
      exact absurd hchar (by decide)
  unfold lowerChar
  split_ifs with hascii hcapital hdotted
  · simpa using hrange (by simp only [Bool.and_eq_true, decide_eq_true_eq] at hcapital; omega)
  · simpa using hc
  · simp
  · have hruns : ∀ r ∈ caseRuns, (10 : Int) < r.first + r.shift := by decide +kernel
    split
    · next r hr =>
      have hcovers := List.find?_some hr
      have hshift := hruns r (List.mem_of_find?_eq_some hr)
      simp only [CaseRun.covers, Bool.and_eq_true, decide_eq_true_eq] at hcovers
      simpa using hrange (by omega)
    · simpa using hc

theorem lowerChar_ne_nil (c : CodePoint) : lowerChar c ≠ [] := by
  unfold lowerChar
  split_ifs
  · simp
  · simp
  · simp
  · split <;> simp

theorem lowerAfter_ne_nil {before s : Text} (hs : s ≠ []) : lowerAfter before s ≠ [] := by
  cases s with
  | nil => exact absurd rfl hs
  | cons c rest =>
    unfold lowerAfter
    split_ifs <;> simp [lowerChar_ne_nil]

/-- The lower case of a text ends in a line feed only if the text does. -/
theorem getLast?_lowerAfter {before s : Text} (hs : s.getLast? ≠ some (.char '\n')) :
    (lowerAfter before s).getLast? ≠ some (.char '\n') := by
  induction s generalizing before with
  | nil => simp [lowerAfter]
  | cons c rest ih =>
    unfold lowerAfter
    simp only []
    by_cases hrest : rest = []
    · subst hrest
      have hc : c ≠ .char '\n' := by simpa using hs
      rw [lowerAfter, List.append_nil]
      split_ifs
      · decide
      · decide
      · exact getLast?_lowerChar hc
    · rw [List.getLast?_append_of_ne_nil _ (lowerAfter_ne_nil hrest)]
      refine ih ?_
      rwa [List.getLast?_cons_of_ne_nil hrest] at hs

end Colourway.Text
