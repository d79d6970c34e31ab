import Colourway.Proofs.Syntax.Reading
import Colourway.Proofs.Text.Lowercase

/-!
# Spelling out hex literals

A hex literal is spelled out at most once: the long form stands for itself, and so does whatever
the short form is spelled out to.

* `hexBody?_eq_some_iff` — what a hex literal looks like.
* `normalHex?_cases` — what a literal is spelled out to: itself, a long literal, or a text that is
  no literal any more, since the line feed behind a short literal is doubled with its digits.
* `spelledOut_spelledOut` — spelling out twice is spelling out once.
* `spelledOut_eq_self_iff` — only short literals are changed.
-/

namespace Colourway.Syntax

open Text

/-- The text with six or eight digits, if it is a hex literal; any other text as it stands. -/
def spelledOut (s : Text) : Text := (normalHex? s).getD s

/-! ## Digits -/

theorem toNat_lt_of_isHexDigit {c : CodePoint} (h : isHexDigit c = true) : c.toNat < 128 := by
  simp only [isHexDigit, Bool.or_eq_true, Bool.and_eq_true, decide_eq_true_eq] at h
  omega

theorem isHexDigit_toLower {c : CodePoint} (h : isHexDigit c = true) :
    isHexDigit c.toLower = true := by
  have hall : ∀ n < 128, isHexDigit (.char (Char.ofNat n)) = true →
      isHexDigit (CodePoint.toLower (.char (Char.ofNat n))) = true := by decide +kernel
  have hlt := toNat_lt_of_isHexDigit h
  rw [eq_char_of_toNat_lt hlt] at h ⊢
  exact hall _ hlt h

/-! ## The shape of literals -/

/-- **What a hex literal looks like**: a number sign and digits, with at most a line feed behind. -/
theorem hexBody?_eq_some_iff {s digits : Text} :
    hexBody? s = some digits ↔ (∀ d ∈ digits, isHexDigit d = true) ∧
      (s = .char '#' :: digits ∨ s = .char '#' :: (digits ++ [.char '\n'])) := by
  constructor
  · intro h
    unfold hexBody? at h
    split at h
    · next ds hline =>
      split at h
      · next hall =>
        cases h
        refine ⟨fun d hd => List.all_eq_true.1 hall d hd, ?_⟩
        unfold dropLineEnd at hline
        split at hline
        · next hlast =>
          right
          rw [← List.dropLast_append_getLast? _ hlast, hline]
          rfl
        · exact Or.inl hline
      · cases h
    · cases h
  · rintro ⟨hdigits, rfl | rfl⟩
    · have hline : dropLineEnd (.char '#' :: digits) = .char '#' :: digits := by
        rw [dropLineEnd, if_neg]
        intro hlast
        rcases List.mem_cons.1 (List.mem_of_getLast? hlast) with hfeed | hfeed
        · exact absurd hfeed (by decide)
        · exact absurd (hdigits _ hfeed) (by decide)
      rw [hexBody?, hline]
      simpa using hdigits
    · have hline : dropLineEnd (.char '#' :: (digits ++ [.char '\n'])) = .char '#' :: digits := by
        rw [dropLineEnd, ← List.cons_append, List.getLast?_concat, if_pos rfl,
          List.dropLast_concat]
      rw [hexBody?, hline]
      simpa using hdigits

theorem isLongHex_iff {s : Text} : isLongHex s = true ↔
    ∃ digits, hexBody? s = some digits ∧ (digits.length = 6 ∨ digits.length = 8) := by
  simp [isLongHex, Option.any_eq_true]

theorem isShortHex_iff {s : Text} : isShortHex s = true ↔
    ∃ digits, hexBody? s = some digits ∧ (digits.length = 3 ∨ digits.length = 4) := by
  simp [isShortHex, Option.any_eq_true]

/-- A literal with one more line feed than allowed is none. -/
theorem hexBody?_two_feeds (digits : Text) :
    hexBody? (.char '#' :: (digits ++ [.char '\n', .char '\n'])) = none := by
  cases h : hexBody? (.char '#' :: (digits ++ [.char '\n', .char '\n'])) with
  | none => rfl
  | some ds =>
    exfalso
    obtain ⟨hds, heq | heq⟩ := hexBody?_eq_some_iff.1 h
    · have hfeed : CodePoint.char '\n' ∈ ds := by
        rw [← (List.cons.inj heq).2]
        simp
      exact absurd (hds _ hfeed) (by decide)
    · have hsplit : (digits ++ [.char '\n']) ++ [.char '\n'] = ds ++ [.char '\n'] := by
        simpa using heq
      have hfeed : CodePoint.char '\n' ∈ ds := by
        rw [← (List.append_inj_left' hsplit rfl)]
        simp
      exact absurd (hds _ hfeed) (by decide)

/-! ## Spelling out -/

theorem normalHex?_of_long {s : Text} (h : isLongHex s = true) : normalHex? s = some s := by
  rw [normalHex?, if_pos h]

theorem normalHex?_of_not_hex {s : Text} (h : isHex s = false) : normalHex? s = none := by
  rw [isHex, Bool.or_eq_false_iff] at h
  simp [normalHex?, h.1, h.2]

/-- The short form, spelled out. -/
def doubledDigits (digits : Text) : Text := (doubled digits).map CodePoint.toLower

theorem lower_doubled {t : Text} (ht : ∀ c ∈ t, c.toNat < 128) :
    lower (doubled t) = doubledDigits t := by
  refine lower_of_ascii fun c hc => ?_
  obtain ⟨x, hx, hcx⟩ := List.mem_flatMap.1 hc
  have hcx : c = x := by simpa using hcx
  exact hcx ▸ ht x hx

theorem isHexDigit_doubledDigits {digits : Text} (h : ∀ d ∈ digits, isHexDigit d = true) :
    ∀ d ∈ doubledDigits digits, isHexDigit d = true := by
  intro d hd
  simp only [doubledDigits, doubled, List.mem_map, List.mem_flatMap, List.mem_cons,
    List.not_mem_nil, or_false, or_self] at hd
  obtain ⟨c, ⟨x, hx, rfl⟩, rfl⟩ := hd
  exact isHexDigit_toLower (h _ hx)

theorem length_doubledDigits (digits : Text) :
    (doubledDigits digits).length = 2 * digits.length := by
  rw [doubledDigits, List.length_map]
  induction digits with
  | nil => rfl
  | cons d digits ih =>
    simp only [doubled, List.flatMap_cons, List.length_append, List.length_cons,
      List.length_nil] at ih ⊢
    omega

/-- **What a literal is spelled out to**: a long one to itself, a short one to the digits doubled,
with two line feeds behind where there was one. -/
theorem normalHex?_cases {s h : Text} (hs : normalHex? s = some h) :
    (isLongHex s = true ∧ h = s) ∨
    ∃ digits, isShortHex s = true ∧ (∀ d ∈ digits, isHexDigit d = true) ∧
      (digits.length = 6 ∨ digits.length = 8) ∧
      (h = .char '#' :: digits ∨ h = .char '#' :: (digits ++ [.char '\n', .char '\n'])) := by
  by_cases hlong : isLongHex s = true
  · rw [normalHex?_of_long hlong] at hs
    exact Or.inl ⟨hlong, (Option.some.inj hs).symm⟩
  · right
    by_cases hshort : isShortHex s = true
    · rw [normalHex?, if_neg hlong, if_pos hshort] at hs
      obtain ⟨digits, hbody, hlength⟩ := isShortHex_iff.1 hshort
      obtain ⟨hdigits, hshape⟩ := hexBody?_eq_some_iff.1 hbody
      have hascii : ∀ c ∈ digits, c.toNat < 128 := fun c hc =>
        toNat_lt_of_isHexDigit (hdigits c hc)
      refine ⟨doubledDigits digits, hshort, isHexDigit_doubledDigits hdigits, ?_, ?_⟩
      · rw [length_doubledDigits]
        omega
      · cases hs
        rcases hshape with rfl | rfl
        · left
          rw [List.tail_cons, lower_doubled hascii]
        · right
          rw [List.tail_cons, lower_doubled]
          · simp [doubledDigits, doubled]
            decide
          · intro c hc
            rcases List.mem_append.1 hc with hc | hc
            · exact hascii c hc
            · rw [List.mem_singleton.1 hc]
              decide
    · rw [normalHex?, if_neg hlong, if_neg hshort] at hs
      cases hs

/-- Without a line feed behind it, a literal is spelled out to six or eight digits. -/
theorem normalHex?_of_closed {s : Text} (hlast : s.getLast? ≠ some (.char '\n'))
    (hs : isHex s = true) : ∃ digits, normalHex? s = some (.char '#' :: digits) ∧
      (∀ d ∈ digits, isHexDigit d = true) ∧ (digits.length = 6 ∨ digits.length = 8) := by
  have hshape {digits : Text} (hbody : hexBody? s = some digits) :
      s = .char '#' :: digits ∧ ∀ d ∈ digits, isHexDigit d = true := by
    obtain ⟨hdigits, rfl | rfl⟩ := hexBody?_eq_some_iff.1 hbody
    · exact ⟨rfl, hdigits⟩
    · rw [← List.cons_append, List.getLast?_concat] at hlast
      exact absurd rfl hlast
  by_cases hlong : isLongHex s = true
  · obtain ⟨digits, hbody, hlength⟩ := isLongHex_iff.1 hlong
    obtain ⟨rfl, hdigits⟩ := hshape hbody
    exact ⟨digits, normalHex?_of_long hlong, hdigits, hlength⟩
  · have hshort : isShortHex s = true := by simpa [isHex, hlong] using hs
    obtain ⟨digits, hbody, hlength⟩ := isShortHex_iff.1 hshort
    obtain ⟨rfl, hdigits⟩ := hshape hbody
    refine ⟨doubledDigits digits, ?_, isHexDigit_doubledDigits hdigits, ?_⟩
    · rw [normalHex?, if_neg hlong, if_pos hshort, List.tail_cons,
        lower_doubled fun c hc => toNat_lt_of_isHexDigit (hdigits c hc)]
    · rw [length_doubledDigits]
      omega

/-- Nothing is left to spell out in what a literal is spelled out to. -/
theorem normalHex?_normal {s h : Text} (hs : normalHex? s = some h) :
    normalHex? h = some h ∨ normalHex? h = none := by
  rcases normalHex?_cases hs with ⟨hlong, rfl⟩ | ⟨digits, -, hdigits, hlength, rfl | rfl⟩
  · exact Or.inl hs
  · left
    refine normalHex?_of_long (isLongHex_iff.2 ⟨digits, ?_, hlength⟩)
    exact hexBody?_eq_some_iff.2 ⟨hdigits, Or.inl rfl⟩
  · right
    refine normalHex?_of_not_hex ?_
    simp [isHex, isLongHex, isShortHex, hexBody?_two_feeds]

theorem spelledOut_of_none {s : Text} (h : normalHex? s = none) : spelledOut s = s := by
  rw [spelledOut, h, Option.getD_none]

theorem spelledOut_of_some {s h : Text} (hs : normalHex? s = some h) : spelledOut s = h := by
  rw [spelledOut, hs, Option.getD_some]

/-- **Spelling out twice is spelling out once.** -/
@[simp] theorem spelledOut_spelledOut (s : Text) : spelledOut (spelledOut s) = spelledOut s := by
  cases hs : normalHex? s with
  | none => simp only [spelledOut_of_none hs]
  | some h =>
    rw [spelledOut_of_some hs]
    rcases normalHex?_normal hs with hh | hh
    · exact spelledOut_of_some hh
    · exact spelledOut_of_none hh

/-- **Only short literals are changed.** -/
theorem spelledOut_eq_self_iff {s : Text} : spelledOut s = s ↔ isShortHex s = false := by
  cases hs : normalHex? s with
  | none =>
    have hshort : isShortHex s = false := by
      by_cases hlong : isLongHex s = true
      · rw [normalHex?_of_long hlong] at hs
        cases hs
      · simpa [normalHex?, hlong] using hs
    simp [spelledOut_of_none hs, hshort]
  | some h =>
    rw [spelledOut_of_some hs]
    rcases normalHex?_cases hs with ⟨hlong, rfl⟩ | ⟨digits, hshort, -, hlength, hshape⟩
    · obtain ⟨digits, hbody, hlength⟩ := isLongHex_iff.1 hlong
      simp only [isShortHex, hbody, Option.any_some, true_iff]
      rcases hlength with hlength | hlength <;> rw [hlength] <;> rfl
    · -- A short literal has at most six characters.
      obtain ⟨short, hbody, hshortLength⟩ := isShortHex_iff.1 hshort
      have hle : s.length ≤ short.length + 2 := by
        rcases (hexBody?_eq_some_iff.1 hbody).2 with rfl | rfl <;> simp
      have hlt : s.length < h.length := by
        rcases hshape with rfl | rfl <;> simp <;> omega
      simp only [hshort, Bool.true_eq_false, iff_false]
      rintro rfl
      omega

/-! ## Literals hold nothing to resolve -/

/-- What a literal is spelled out to holds no mark of a reference or a call. -/
theorem isMark_of_normalHex? {s h : Text} (hs : normalHex? s = some h) :
    ∀ c ∈ h, isMark c = false := by
  have hline : isMark (.char '\n') = false := by decide
  have hsign : isMark (.char '#') = false := by decide
  obtain ⟨digits, hdigits, hshape⟩ : ∃ digits : Text, (∀ d ∈ digits, isHexDigit d = true) ∧
      ∀ c ∈ h, c = .char '#' ∨ c ∈ digits ∨ c = .char '\n' := by
    rcases normalHex?_cases hs with ⟨hlong, rfl⟩ | ⟨digits, -, hdigits, -, hshape⟩
    · obtain ⟨digits, hbody, -⟩ := isLongHex_iff.1 hlong
      obtain ⟨hdigits, hshape⟩ := hexBody?_eq_some_iff.1 hbody
      refine ⟨digits, hdigits, fun c hc => ?_⟩
      rcases hshape with rfl | rfl <;> simp at hc <;> tauto
    · refine ⟨digits, hdigits, fun c hc => ?_⟩
      rcases hshape with rfl | rfl <;> simp at hc <;> tauto
  intro c hc
  rcases hshape c hc with rfl | hc | rfl
  · exact hsign
  · exact isMark_of_isHexDigit (hdigits c hc)
  · exact hline

/-- A text without marks holds nothing to resolve. -/
theorem hasUnresolved_of_unmarked {s : Text} (h : ∀ c ∈ s, isMark c = false) :
    hasUnresolved s = false := by
  have hopen : CodePoint.char '(' ∉ s := fun hmem => absurd (h _ hmem) (by decide)
  have hdollar : ∀ c ∈ s, c ≠ .char '$' := fun c hc => Expr.ne_dollar (h c hc)
  simp [hasUnresolved, occurs, search_call_none hopen, search_reference_none hdollar]

/-- Spelling out leaves nothing to resolve where there was nothing. -/
theorem hasUnresolved_spelledOut {s : Text} (h : hasUnresolved s = false) :
    hasUnresolved (spelledOut s) = false := by
  cases hs : normalHex? s with
  | none => rwa [spelledOut_of_none hs]
  | some out =>
    rw [spelledOut_of_some hs]
    exact hasUnresolved_of_unmarked (isMark_of_normalHex? hs)

/-- Where there is nothing to resolve, a value is a hex literal or literal text. -/
theorem classify_of_resolved {s : Text} (h : hasUnresolved s = false) :
    classify s = if isHex s then .hex else .literal := by
  rw [hasUnresolved, Bool.or_eq_false_iff] at h
  simp [classify, h.1, h.2]

/-! ## Aliases hold references -/

/-- Behind its first dollar sign, an alias is a reference. -/
theorem referenceAt_isSome_of_aliasAt {c : CodePoint} {s : Text}
    (h : (aliasAt (c :: s)).isSome = true) : (referenceAt s).isSome = true := by
  unfold aliasAt at h
  split at h
  · next t heq =>
    obtain ⟨-, rfl⟩ := List.cons.inj heq
    simp only [Option.isSome_map, Option.isSome_or, Bool.or_eq_true] at h
    simp only [referenceAt, Option.isSome_map, Option.isSome_or, Bool.or_eq_true]
    tauto
  · cases h

/-- Expanding aliases changes nothing where there is nothing to resolve. -/
theorem expandAliases_of_resolved (palette : Text) {s : Text} (h : hasUnresolved s = false) :
    expandAliases palette s = s := by
  have hsearch : search referenceAt s = none := by
    rw [hasUnresolved, Bool.or_eq_false_iff] at h
    simpa [occurs] using h.1
  clear h
  induction s with
  | nil => rw [expandAliases]; rfl
  | cons c s ih =>
    have hhere : referenceAt (c :: s) = none := by
      cases hr : referenceAt (c :: s) with
      | none => rfl
      | some hit => rw [search_cons_of_some hr] at hsearch; cases hsearch
    have hrest : search referenceAt s = none := by
      rw [search_cons_of_none hhere] at hsearch
      simpa using hsearch
    have halias : aliasAt (c :: s) = none := by
      rw [← Option.not_isSome_iff_eq_none]
      intro hsome
      have href := referenceAt_isSome_of_aliasAt hsome
      cases s with
      | nil => simp [referenceAt] at href
      | cons d s =>
        obtain ⟨hit, hhit⟩ := Option.isSome_iff_exists.1 href
        rw [search_cons_of_some hhit] at hrest
        cases hrest
    rw [Expr.expandAliases_cons halias, ih hrest]

end Colourway.Syntax
