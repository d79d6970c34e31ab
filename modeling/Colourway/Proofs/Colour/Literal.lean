import Colourway.Colour.Basic
import Colourway.Proofs.Syntax.Hex

/-!
# What hex literals stand for

A hex literal stands for three or four bytes: in a long literal each pair of digits is a byte, in a
short one each digit is a pair of its own.  A literal is spelled out to a long one that stands for
the same bytes and is not spelled out any further, unless a line feed stands behind a short literal:
then two stand behind the long one, which is no literal any more (**`normalHex?_of_isHex`**).

* `literal_cases` — the digits of a literal and what may stand behind them.
* `hexBytes?` — the bytes that a literal stands for, and that its channels are read as
  (`channels?_of_literal`).
-/

namespace Colourway.Syntax

open Text Colour

/-! ## The bytes of a literal -/

/-- The bytes that pairs of digits stand for. -/
def pairBytes : Text → List Nat
  | hi :: lo :: rest => (16 * digitValue hi + digitValue lo) :: pairBytes rest
  | _ => []

/-- The bytes that the digits of a literal stand for; a short literal means each digit twice. -/
def digitBytes (digits : Text) : List Nat :=
  if digits.length ≤ 4 then digits.map fun d => 17 * digitValue d else pairBytes digits

/-- The bytes that a hex literal stands for. -/
def hexBytes? (s : Text) : Option (List Nat) := (hexBody? s).map digitBytes

theorem digitValue_toLower {c : CodePoint} (h : isHexDigit c = true) :
    digitValue c.toLower = digitValue c := by
  have hall : ∀ n < 128, isHexDigit (.char (Char.ofNat n)) = true →
      digitValue (CodePoint.toLower (.char (Char.ofNat n)))
        = digitValue (.char (Char.ofNat n)) := by decide +kernel
  have hlt := toNat_lt_of_isHexDigit h
  rw [eq_char_of_toNat_lt hlt] at h ⊢
  exact hall _ hlt h

/-- A digit that is doubled is the byte that it stands for in a short literal. -/
theorem pairBytes_doubledDigits {digits : Text} (h : ∀ d ∈ digits, isHexDigit d = true) :
    pairBytes (doubledDigits digits) = digits.map fun d => 17 * digitValue d := by
  induction digits with
  | nil => rfl
  | cons d digits ih =>
    have hd : digitValue d.toLower = digitValue d := digitValue_toLower (h d List.mem_cons_self)
    have hrest := ih fun c hc => h c (List.mem_cons_of_mem _ hc)
    have hcons : doubledDigits (d :: digits) = d.toLower :: d.toLower :: doubledDigits digits := rfl
    rw [hcons, pairBytes, hrest, hd, List.map_cons]
    congr 1
    omega

/-- Pairs of digits are read as the bytes that they stand for. -/
theorem channels?_eq_pairBytes {digits : Text} (h : ∀ d ∈ digits, isHexDigit d = true)
    (heven : digits.length % 2 = 0) :
    channels? digits = some ((pairBytes digits).map fun byte => Float.ofNat byte / 255.0) := by
  induction digits using channels?.induct with
  | case1 => rfl
  | case2 hi lo rest hdigits ih =>
    have hrest := ih (fun d hd => h d (List.mem_cons_of_mem _ (List.mem_cons_of_mem _ hd)))
      (by simp only [List.length_cons] at heven; omega)
    rw [channels?, if_pos hdigits, hrest]
    rfl
  | case3 hi lo rest hdigits =>
    simp [h hi, h lo] at hdigits
  | case4 d => simp at heven

/-- **The channels that are read from six or eight digits are the bytes of the literal.** -/
theorem channels?_of_literal {h : Text} (exact : IsHexLiteral h) :
    channels? h.tail = (hexBytes? h).map (List.map fun byte => Float.ofNat byte / 255.0) := by
  obtain ⟨digits, rfl, hdigits, hlength⟩ := exact
  have hbody : hexBody? (.char '#' :: digits) = some digits :=
    hexBody?_eq_some_iff.mpr ⟨hdigits, .inl rfl⟩
  rw [hexBytes?, hbody, Option.map_some, Option.map_some, digitBytes, if_neg (by omega),
    List.tail_cons, channels?_eq_pairBytes hdigits (by omega)]

/-! ## The shape of a literal -/

/-- **A literal is a number sign, digits, and perhaps a line feed.** -/
theorem literal_cases {s : Text} (h : isHex s = true) : ∃ digits feed,
    s = .char '#' :: (digits ++ feed) ∧ (∀ d ∈ digits, isHexDigit d = true) ∧
      (feed = [] ∨ feed = [.char '\n']) ∧ hexBody? s = some digits ∧
      (isLongHex s = true ∧ (digits.length = 6 ∨ digits.length = 8) ∨
        isLongHex s = false ∧ (digits.length = 3 ∨ digits.length = 4)) := by
  obtain ⟨digits, hbody⟩ : ∃ digits, hexBody? s = some digits := by
    rcases Bool.or_eq_true _ _ ▸ h with hlong | hshort
    · exact ⟨_, (isLongHex_iff.mp hlong).choose_spec.1⟩
    · exact ⟨_, (isShortHex_iff.mp hshort).choose_spec.1⟩
  obtain ⟨hdigits, hshape⟩ := hexBody?_eq_some_iff.mp hbody
  have hlength : isLongHex s = true ∧ (digits.length = 6 ∨ digits.length = 8) ∨
      isLongHex s = false ∧ (digits.length = 3 ∨ digits.length = 4) := by
    simp only [isHex, isLongHex, isShortHex, hbody, Option.any_some, Bool.or_eq_true,
      Bool.or_eq_false_iff, beq_iff_eq, beq_eq_false_iff_ne] at h ⊢
    omega
  rcases hshape with rfl | rfl
  · exact ⟨digits, [], by simp, hdigits, .inl rfl, hbody, hlength⟩
  · exact ⟨digits, [.char '\n'], rfl, hdigits, .inr rfl, hbody, hlength⟩

/-- A line feed is the last character exactly if it stands behind the digits. -/
theorem getLast?_literal {digits feed : Text} (hdigits : ∀ d ∈ digits, isHexDigit d = true)
    (hfeed : feed = [] ∨ feed = [.char '\n']) :
    (.char '#' :: (digits ++ feed)).getLast? = some (.char '\n') ↔ feed ≠ [] := by
  rcases hfeed with rfl | rfl
  · have hlast : (.char '#' :: digits).getLast? ≠ some (.char '\n') := by
      intro h
      rcases List.mem_cons.mp (List.mem_of_getLast? h) with hsign | hdigit
      · exact absurd hsign (by decide)
      · exact absurd (hdigits _ hdigit) (by decide)
    simp [hlast]
  · simp [List.getLast?_cons, List.getLast?_append]

/-- What stands behind six or eight digits keeps the text from being nothing but a literal. -/
theorem isHexLiteral_iff {digits feed : Text} (hdigits : ∀ d ∈ digits, isHexDigit d = true)
    (hlength : digits.length = 6 ∨ digits.length = 8) (hfeed : ∀ c ∈ feed, c = .char '\n') :
    IsHexLiteral (.char '#' :: (digits ++ feed)) ↔ feed = [] := by
  constructor
  · rintro ⟨digits', heq, hdigits', -⟩
    have hsame : digits ++ feed = digits' := (List.cons.inj heq).2
    refine List.eq_nil_iff_forall_not_mem.mpr fun c hc => ?_
    have hdigit : isHexDigit c = true := hdigits' c (hsame ▸ List.mem_append_right _ hc)
    rw [hfeed c hc] at hdigit
    exact absurd hdigit (by decide)
  · rintro rfl
    exact ⟨digits, by rw [List.append_nil], hdigits, hlength⟩

/-! ## What a literal is spelled out to -/

/-- A short literal is spelled out by doubling all that stands behind the number sign. -/
theorem normalHex?_of_short {s : Text} (literal : isHex s = true) (hshort : isLongHex s = false) :
    normalHex? s = some (.char '#' :: doubledDigits s.tail) := by
  obtain ⟨digits, feed, rfl, hdigits, hfeed, -, -⟩ := literal_cases literal
  have hascii : ∀ c ∈ digits ++ feed, c.toNat < 128 := by
    intro c hc
    rcases List.mem_append.mp hc with hc | hc
    · exact toNat_lt_of_isHexDigit (hdigits c hc)
    · rcases hfeed with rfl | rfl
      · cases hc
      · rw [List.mem_singleton.mp hc]
        decide
  have hshort' : isShortHex (.char '#' :: (digits ++ feed)) = true := by
    simpa [isHex, hshort] using literal
  rw [normalHex?, if_neg (by rw [hshort]; decide), if_pos hshort', List.tail_cons,
    lower_doubled hascii]

theorem doubledDigits_append (a b : Text) :
    doubledDigits (a ++ b) = doubledDigits a ++ doubledDigits b := by
  simp [doubledDigits, doubled]

/-- The doubled digits of a short literal are those of a long one, with the same bytes. -/
theorem doubledDigits_long {s digits : Text} (hdigits : ∀ d ∈ digits, isHexDigit d = true)
    (hbody : hexBody? s = some digits) (hlength : digits.length = 3 ∨ digits.length = 4) :
    isLongHex (.char '#' :: doubledDigits digits) = true ∧
      hexBytes? (.char '#' :: doubledDigits digits) = hexBytes? s := by
  have hdouble := length_doubledDigits digits
  have hbody' : hexBody? (.char '#' :: doubledDigits digits) = some (doubledDigits digits) :=
    hexBody?_eq_some_iff.mpr ⟨isHexDigit_doubledDigits hdigits, .inl rfl⟩
  refine ⟨isLongHex_iff.mpr ⟨_, hbody', by omega⟩, ?_⟩
  rw [hexBytes?, hexBytes?, hbody', hbody, Option.map_some, Option.map_some, digitBytes,
    digitBytes, if_neg (by omega), if_pos (by omega), pairBytes_doubledDigits hdigits]

/-- With two line feeds behind its digits, a text is no literal. -/
theorem not_isHex_two_feeds (digits : Text) :
    isHex (.char '#' :: (digits ++ [.char '\n', .char '\n'])) = false := by
  simp [isHex, isLongHex, isShortHex, hexBody?_two_feeds]

/-- **Every hex literal is spelled out**: a long one to itself, a short one with each character
behind the number sign doubled, in lower case.  The outcome is a number sign with six or eight
digits unless a line feed stands behind the literal, and these are read as the bytes of the literal.
It is a literal again, stands for the same bytes and is spelled out to itself, unless a line feed
stands behind a short literal: then it is none. -/
theorem normalHex?_of_isHex {s : Text} (literal : isHex s = true) :
    ∃ h, normalHex? s = some h ∧
      (isLongHex s = true → h = s) ∧
      (isLongHex s = false → h = .char '#' :: doubledDigits s.tail) ∧
      (IsHexLiteral h ↔ s.getLast? ≠ some (.char '\n')) ∧
      (IsHexLiteral h → channels? h.tail =
        (hexBytes? s).map (List.map fun byte => Float.ofNat byte / 255.0)) ∧
      (isLongHex s = true ∨ s.getLast? ≠ some (.char '\n') →
        isHex h = true ∧ hexBytes? h = hexBytes? s ∧ normalHex? h = some h) ∧
      (isLongHex s = false ∧ s.getLast? = some (.char '\n') →
        isHex h = false ∧ normalHex? h = none) := by
  obtain ⟨digits, feed, hs, hdigits, hfeed, hbody, ⟨hlong, hlength⟩ | ⟨hshort, hlength⟩⟩ :=
    literal_cases literal
  · have hself : normalHex? s = some s := normalHex?_of_long hlong
    have hclosed : IsHexLiteral s ↔ s.getLast? ≠ some (.char '\n') := by
      have hlast := getLast?_literal hdigits hfeed
      have hfeeds : ∀ c ∈ feed, c = .char '\n' := by rcases hfeed with rfl | rfl <;> simp
      have hexact := isHexLiteral_iff hdigits hlength hfeeds
      rw [← hs] at hlast hexact
      rw [hexact, Ne, hlast, not_not]
    refine ⟨s, hself, fun _ => rfl, ?_, hclosed, channels?_of_literal,
      fun _ => ⟨literal, rfl, hself⟩, ?_⟩
    · simp [hlong]
    · simp [hlong]
  · have hdoubled := isHexDigit_doubledDigits hdigits
    have hdouble := length_doubledDigits digits
    have hlast := getLast?_literal hdigits hfeed
    rw [← hs] at hlast
    have hout := normalHex?_of_short literal hshort
    have htail : doubledDigits s.tail = doubledDigits digits ++ doubledDigits feed := by
      rw [hs, List.tail_cons, doubledDigits_append]
    have hexact : IsHexLiteral (.char '#' :: doubledDigits s.tail) ↔
        s.getLast? ≠ some (.char '\n') := by
      rw [htail, isHexLiteral_iff hdoubled (by omega) (by rcases hfeed with rfl | rfl <;> decide),
        Ne, hlast, not_not]
      rcases hfeed with rfl | rfl <;> simp [doubledDigits, doubled]
    have hagain : s.getLast? ≠ some (.char '\n') →
        isLongHex (.char '#' :: doubledDigits s.tail) = true ∧
          hexBytes? (.char '#' :: doubledDigits s.tail) = hexBytes? s := by
      intro hclosed
      obtain rfl : feed = [] := not_not.mp (mt hlast.mpr hclosed)
      rw [htail, show doubledDigits [] = [] from rfl, List.append_nil]
      exact doubledDigits_long hdigits hbody hlength
    refine ⟨_, hout, by simp [hshort], fun _ => rfl, hexact, ?_, ?_, ?_⟩
    · intro h
      rw [channels?_of_literal h, (hagain (hexact.mp h)).2]
    · rintro (hlong | hclosed)
      · rw [hshort] at hlong
        cases hlong
      · obtain ⟨hlong, hbytes⟩ := hagain hclosed
        exact ⟨by simp [isHex, hlong], hbytes, normalHex?_of_long hlong⟩
    · rintro ⟨-, hfed⟩
      obtain rfl : feed = [.char '\n'] := hfeed.resolve_left (hlast.mp hfed)
      have hnot := not_isHex_two_feeds (doubledDigits digits)
      rw [htail, show doubledDigits [.char '\n'] = [.char '\n', .char '\n'] by decide]
      exact ⟨hnot, normalHex?_of_not_hex hnot⟩

/-- Four digits of either case become eight small ones. -/
theorem mixed_case_spelled_out : isHex "#Fa3c" = true ∧
    ∃ h, normalHex? "#Fa3c" = some h ∧ h = "#ffaa33cc" ∧ IsHexLiteral h ∧
      isHex h = true ∧ hexBytes? h = some [0xff, 0xaa, 0x33, 0xcc] ∧ normalHex? h = some h := by
  have literal : isHex "#Fa3c" = true := by decide
  have closed : (("#Fa3c" : Text)).getLast? ≠ some (.char '\n') := by decide
  obtain ⟨h, hout, -, hshort, hexact, -, hagain, -⟩ := normalHex?_of_isHex literal
  obtain ⟨hhex, hbytes, hself⟩ := hagain (.inr closed)
  exact ⟨literal, h, hout, (hshort (by decide)).trans (by decide), hexact.mpr closed, hhex,
    hbytes.trans (by decide), hself⟩

/-- A line feed behind a short literal is doubled with its digits. -/
theorem line_feed_doubled : isHex "#abc\n" = true ∧
    ∃ h, normalHex? "#abc\n" = some h ∧ isHex h = false ∧ ¬ IsHexLiteral h ∧
      normalHex? h = none := by
  have hout : normalHex? "#abc\n" = some "#aabbcc\n\n" := by decide
  have hnot : isHex "#aabbcc\n\n" = false := by decide
  refine ⟨by decide, _, hout, hnot, fun hexact => ?_, normalHex?_of_not_hex hnot⟩
  obtain ⟨digits, heq, hdigits, -⟩ := hexact
  obtain rfl := (List.cons.inj heq).2
  exact absurd (hdigits (.char '\n') (by decide)) (by decide)

end Colourway.Syntax
