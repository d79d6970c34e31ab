import Colourway.Proofs.Colour.Literal
import Colourway.Proofs.Colour.Parsed

/-!
# Canonical hex

A colour is written as a number sign and two small hexadecimal digits for each channel.  Whatever
double a channel is, it is brought into range before it is scaled, so it is written as a byte
(`channelHex_eq`).  Alpha is written as needed, that is unless it is rounded to the full byte; and
the alpha of a colour that was read from an expression lies in range (`parse_alpha`), so the byte
that is written is never the full one.  Reading the text of a byte gives the double from which the byte is
written again (`byteOf_fraction`).  So the text of a colour expression is written back as it stands
(**`hex_canonical`**).

* `byteText` — the two digits of a byte; `hexText` — the text of several bytes.
* `Canonical` — a number sign with six or eight small digits.
* `Shown` — the bytes that are written for a colour expression.
-/

namespace Colourway

open Number Text

/-! ## Bytes -/

/-- The hexadecimal digits of a number in lower case, at least two of them. -/
def byteText (b : Nat) : Text :=
  zeroDigits (2 - (Nat.toDigits 16 b).length) ++ (Nat.toDigits 16 b).map .char

/-- A number sign with the digits of some bytes. -/
def hexText (bytes : List Nat) : Text := .char '#' :: (bytes.map byteText).flatten

/-- A decimal digit or a letter from `a` to `f`. -/
def isSmallDigit (c : CodePoint) : Bool :=
  (48 ≤ c.toNat && c.toNat ≤ 57) || (97 ≤ c.toNat && c.toNat ≤ 102)

/-- A number sign with six or eight small hexadecimal digits. -/
def Canonical (t : Text) : Prop :=
  ∃ digits, t = .char '#' :: digits ∧ (∀ d ∈ digits, isSmallDigit d = true) ∧
    (digits.length = 6 ∨ digits.length = 8)

theorem hexDigit_small : ∀ d < 16, isSmallDigit (hexDigit d) = true ∧
    Colour.digitValue (hexDigit d) = d ∧ hexDigit d = .char (Nat.digitChar d) := by decide

theorem byteText_eq {b : Nat} (hb : b < 256) :
    byteText b = [hexDigit (b / 16), hexDigit (b % 16)] := by
  obtain ⟨-, -, hhigh⟩ := hexDigit_small (b / 16) (by omega)
  obtain ⟨-, -, hlow⟩ := hexDigit_small (b % 16) (by omega)
  rw [byteText, hhigh, hlow]
  by_cases hone : b < 16
  · rw [Nat.toDigits_of_lt_base hone, Nat.div_eq_of_lt hone, Nat.mod_eq_of_lt hone]
    rfl
  · rw [Nat.toDigits_of_base_le (by decide) (by omega), Nat.toDigits_of_lt_base (by omega)]
    rfl

/-- A byte has two digits, which are read as the byte. -/
theorem byteText_pair {b : Nat} (hb : b < 256) : ∃ hi lo, byteText b = [hi, lo] ∧
    isSmallDigit hi = true ∧ isSmallDigit lo = true ∧
    16 * Colour.digitValue hi + Colour.digitValue lo = b ∧ hexDigits 2 b = byteText b := by
  obtain ⟨hhi, hhigh, -⟩ := hexDigit_small (b / 16) (by omega)
  obtain ⟨hlo, hlow, -⟩ := hexDigit_small (b % 16) (by omega)
  refine ⟨_, _, byteText_eq hb, hhi, hlo, by omega, ?_⟩
  rw [byteText_eq hb, ← Nat.mod_eq_of_lt (by omega : b / 16 < 16)]
  rfl

/-- Only the full byte is written `ff`. -/
theorem byteText_ne_ff {b : Nat} (hb : b < 255) : byteText b ≠ "ff" := by
  obtain ⟨hi, lo, hpair, -, -, hvalue, -⟩ := byteText_pair (by omega : b < 256)
  intro hff
  have hboth : ([hi, lo] : Text) = [.char 'f', .char 'f'] :=
    hpair.symm.trans (hff.trans (by decide))
  cases hboth
  have hfull : 16 * Colour.digitValue (.char 'f') + Colour.digitValue (.char 'f') = 255 := by decide
  omega

theorem isHexDigit_of_small {c : CodePoint} (h : isSmallDigit c = true) :
    Syntax.isHexDigit c = true := by
  simp only [isSmallDigit, Syntax.isHexDigit, Bool.or_eq_true, Bool.and_eq_true,
    decide_eq_true_eq] at h ⊢
  omega

theorem toLower_of_small {c : CodePoint} (h : isSmallDigit c = true) : c.toLower = c := by
  have hall : ∀ n < 128, isSmallDigit (.char (Char.ofNat n)) = true →
      CodePoint.toLower (.char (Char.ofNat n)) = .char (Char.ofNat n) := by decide +kernel
  have hlt := Syntax.toNat_lt_of_isHexDigit (isHexDigit_of_small h)
  rw [eq_char_of_toNat_lt hlt] at h ⊢
  exact hall _ hlt h

section Bytes

variable {bytes : List Nat}

theorem isSmallDigit_bytes (h : ∀ b ∈ bytes, b < 256) :
    ∀ d ∈ (bytes.map byteText).flatten, isSmallDigit d = true := by
  intro d hd
  obtain ⟨digits, hdigits, hd⟩ := List.mem_flatten.mp hd
  obtain ⟨b, hb, rfl⟩ := List.mem_map.mp hdigits
  obtain ⟨hi, lo, hpair, hhi, hlo, -⟩ := byteText_pair (h b hb)
  rw [hpair, List.mem_pair] at hd
  rcases hd with rfl | rfl
  · exact hhi
  · exact hlo

theorem length_bytes (h : ∀ b ∈ bytes, b < 256) :
    (bytes.map byteText).flatten.length = 2 * bytes.length := by
  induction bytes with
  | nil => rfl
  | cons b bytes ih =>
    obtain ⟨hb, hbytes⟩ := List.forall_mem_cons.mp h
    obtain ⟨hi, lo, hpair, -⟩ := byteText_pair hb
    rw [List.map_cons, List.flatten_cons, List.length_append, ih hbytes, hpair]
    simp only [List.length_cons, List.length_nil]
    omega

/-- The digits of bytes are read as the bytes. -/
theorem pairBytes_bytes (h : ∀ b ∈ bytes, b < 256) :
    Syntax.pairBytes (bytes.map byteText).flatten = bytes := by
  induction bytes with
  | nil => rfl
  | cons b bytes ih =>
    obtain ⟨hb, hbytes⟩ := List.forall_mem_cons.mp h
    obtain ⟨hi, lo, hpair, -, -, hvalue, -⟩ := byteText_pair hb
    rw [List.map_cons, List.flatten_cons, hpair]
    change (16 * Colour.digitValue hi + Colour.digitValue lo) ::
      Syntax.pairBytes (bytes.map byteText).flatten = _
    rw [hvalue, ih hbytes]

theorem canonical_hexText (h : ∀ b ∈ bytes, b < 256)
    (hlength : bytes.length = 3 ∨ bytes.length = 4) : Canonical (hexText bytes) := by
  have hdigits := length_bytes h
  exact ⟨_, rfl, isSmallDigit_bytes h, by omega⟩

end Bytes

theorem Canonical.isHexLiteral {t : Text} (h : Canonical t) : IsHexLiteral t := by
  obtain ⟨digits, rfl, hsmall, hlength⟩ := h
  exact ⟨digits, rfl, fun d hd => isHexDigit_of_small (hsmall d hd), hlength⟩

/-- Canonical hex is read as it stands. -/
theorem Canonical.lower_trim {t : Text} (h : Canonical t) : lower (trim t) = t := by
  have htrimmed : trim t = t := h.isHexLiteral.isWord.trimmed
  obtain ⟨digits, rfl, hsmall, -⟩ := h
  have hascii : ∀ c ∈ CodePoint.char '#' :: digits, c.toNat < 128 :=
    List.forall_mem_cons.mpr ⟨by decide, fun d hd =>
      Syntax.toNat_lt_of_isHexDigit (isHexDigit_of_small (hsmall d hd))⟩
  rw [htrimmed, lower_of_ascii hascii, List.map_cons]
  exact congrArg₂ List.cons rfl
    ((List.map_congr_left fun d hd => toLower_of_small (hsmall d hd)).trans (List.map_id digits))

namespace Colour

/-! ## Channels are written as bytes -/

/-- The byte that a channel is rounded to. -/
def byteOf (x : Float) : Nat := (channelByte x).toOption.getD 0

/-- The least and the largest channel are in range, and they are rounded to the ends of a byte. -/
theorem channel_ends : clamp 0.0 = 0.0 ∧ clamp 1.0 = 1.0 ∧
    rounded (0.0 * 255.0) = .ok 0 ∧ rounded (1.0 * 255.0) = .ok 255 := by decide +kernel

/-- **Every channel is rounded to a byte**, whatever double it is. -/
theorem rounded_channel (x : Float) :
    byteOf x ≤ 255 ∧ rounded (clamp x * 255.0) = .ok (Int.ofNat (byteOf x)) := by
  have hbyte : ∃ k ≤ 255, rounded (clamp x * 255.0) = .ok (Int.ofNat k) := by
    obtain ⟨-, -, hzero, hone⟩ := channel_ends
    unfold clamp clampTo
    simp only []
    split_ifs with hhigh hlow hlow
    · obtain ⟨p, hp, k, hk, -, hle⟩ :=
        ((within_between hlow hhigh).mul unpack_full (by decide)).reading
      exact ⟨k, by omega, by rw [rounded, hp, ← hk]⟩
    · exact ⟨0, by decide, hzero⟩
    · exact ⟨255, le_refl _, hone⟩
    · exact ⟨0, by decide, hzero⟩
  obtain ⟨k, hk, hround⟩ := hbyte
  have hk' : byteOf x = k := by
    rw [byteOf, channelByte, hround]
    rfl
  exact ⟨hk' ▸ hk, by rw [hround, hk']⟩

/-- A channel is written as the digits of its byte. -/
theorem channelHex_eq (x : Float) : channelHex x = .ok (byteText (byteOf x)) := by
  obtain ⟨hle, hround⟩ := rounded_channel x
  obtain ⟨-, -, -, -, -, -, htext⟩ := byteText_pair (by omega : byteOf x < 256)
  rw [channelHex, channelByte, hround, ← htext]
  rfl

theorem mapM_channelHex (row : List Float) :
    row.mapM channelHex = .ok ((row.map byteOf).map byteText) := by
  induction row with
  | nil => rfl
  | cons x row ih =>
    rw [List.mapM_cons, channelHex_eq, ih]
    rfl

/-- Alpha that is always written. -/
theorem hex_always (c : Colour) :
    c.hex .always = .ok (hexText [byteOf c.r, byteOf c.g, byteOf c.b, byteOf c.a]) := by
  change ([c.r, c.g, c.b] ++ [c.a]).mapM channelHex >>= _ = _
  rw [mapM_channelHex]
  rfl

/-- Alpha that is written unless it is rounded to the full byte. -/
theorem hex_whenNeeded (c : Colour) :
    c.hex .whenNeeded = (rounded (c.a * 255.0)).map fun n =>
      hexText ([byteOf c.r, byteOf c.g, byteOf c.b] ++ if 255 ≤ n then [] else [byteOf c.a]) := by
  unfold hex opaque?
  cases rounded (c.a * 255.0) with
  | error f => rfl
  | ok n =>
    change ([c.r, c.g, c.b] ++ if (!decide (255 ≤ n)) = true then [c.a] else []).mapM channelHex
      >>= _ = _
    rw [mapM_channelHex]
    by_cases hfull : 255 ≤ n
    · simp [hfull, hexText, ofString, Except.map, bind, Except.bind, pure, Except.pure]
    · simp [hfull, hexText, ofString, Except.map, bind, Except.bind, pure, Except.pure]

/-- **A colour is written in canonical hex.** -/
theorem canonical_hex {alpha : AlphaPair} {c : Colour} {t : Text} (h : c.hex alpha = .ok t) :
    Canonical t := by
  have hbytes : ∀ row : List Float, ∀ b ∈ row.map byteOf, b < 256 := by
    intro row b hb
    obtain ⟨x, -, rfl⟩ := List.mem_map.mp hb
    exact Nat.lt_succ_of_le (rounded_channel x).1
  have hthree := canonical_hexText (hbytes [c.r, c.g, c.b]) (.inl rfl)
  have hfour := canonical_hexText (hbytes [c.r, c.g, c.b, c.a]) (.inr rfl)
  cases alpha with
  | always =>
    cases (hex_always c).symm.trans h
    exact hfour
  | never =>
    have hnever : c.hex .never = .ok (hexText [byteOf c.r, byteOf c.g, byteOf c.b]) := by
      change ([c.r, c.g, c.b] ++ []).mapM channelHex >>= _ = _
      rw [mapM_channelHex]
      rfl
    cases hnever.symm.trans h
    exact hthree
  | whenNeeded =>
    rw [hex_whenNeeded] at h
    obtain ⟨n, -, rfl⟩ := map_eq_ok_iff.mp h
    split_ifs
    · exact hthree
    · exact hfour

/-! ## Alpha lies in range -/

/-- A double that is brought into range is in range. -/
theorem clamp_clamp (x : Float) : clamp (clamp x) = clamp x := by
  obtain ⟨hzero, hone, -, -⟩ := channel_ends
  have hcases : clamp x = 0.0 ∨ clamp x = 1.0 ∨ clamp x = x := by
    unfold clamp clampTo
    simp only []
    split_ifs <;> simp
  rcases hcases with h | h | h
  · rw [h, hzero]
  · rw [h, hone]
  · rw [h, h]

/-- The double that a byte is read as lies in range, and the byte is written for it again. -/
theorem fraction_of_byte {b : Nat} (hb : b < 256) :
    clamp (Float.ofNat b / 255.0) = Float.ofNat b / 255.0 ∧
      rounded (Float.ofNat b / 255.0 * 255.0) = .ok (Int.ofNat b) := by
  have hleast : clamp (Float.ofNat 0 / 255.0) = Float.ofNat 0 / 255.0 ∧
      rounded (Float.ofNat 0 / 255.0 * 255.0) = .ok (Int.ofNat 0) := by decide +kernel
  have hmost : clamp (Float.ofNat 255 / 255.0) = Float.ofNat 255 / 255.0 ∧
      rounded (Float.ofNat 255 / 255.0 * 255.0) = .ok (Int.ofNat 255) := by decide +kernel
  rcases Nat.eq_zero_or_pos b with rfl | hpos
  · exact hleast
  rcases Nat.lt_succ_iff_lt_or_eq.mp hb with hlt | rfl
  · obtain ⟨⟨hlow, hhigh⟩, p, hp, hround⟩ := rounded_fraction hpos hlt
    refine ⟨?_, by rw [rounded, hp, ← hround]⟩
    unfold clamp clampTo
    simp only [hlow, hhigh, if_true]
  · exact hmost

theorem byteOf_of_rounded {x : Float} {n : Int} (hx : clamp x = x)
    (h : rounded (x * 255.0) = .ok n) : Int.ofNat (byteOf x) = n := by
  have hbyte := (rounded_channel x).2
  rw [hx, h] at hbyte
  exact (Except.ok.inj hbyte).symm

theorem byteOf_fraction {b : Nat} (hb : b < 256) : byteOf (Float.ofNat b / 255.0) = b := by
  obtain ⟨hclamp, hround⟩ := fraction_of_byte hb
  exact Int.ofNat.inj (byteOf_of_rounded hclamp hround)

/-- The channels that digits are read as lie in range. -/
theorem clamp_channels? {s : Text} {cs : List Float} (h : channels? s = some cs) :
    ∀ x ∈ cs, clamp x = x := by
  induction s using channels?.induct generalizing cs with
  | case1 =>
    cases h
    simp
  | case2 hi lo rest hdigits ih =>
    rw [channels?, if_pos hdigits] at h
    obtain ⟨others, hothers, rfl⟩ := Option.map_eq_some_iff.mp h
    rw [Bool.and_eq_true] at hdigits
    have hhi := digitValue_lt hdigits.1
    have hlo := digitValue_lt hdigits.2
    exact List.forall_mem_cons.mpr ⟨(fraction_of_byte (by omega)).1, ih hothers⟩
  | case3 hi lo rest hdigits =>
    rw [channels?, if_neg hdigits] at h
    cases h
  | case4 c => cases h

theorem ofHex_alpha {s : Text} {c : Colour} (h : ofHex s = .ok c) : clamp c.a = c.a := by
  unfold ofHex at h
  split at h
  · cases h
  · split at h
    · cases h
      exact channel_ends.2.1
    · next hchannels =>
      cases h
      exact clamp_channels? hchannels _ (by simp)
    · cases h

theorem channel_alpha {text expression : Text} {scale x : Float}
    (h : channel text expression scale = .ok x) : clamp x = x := by
  unfold channel at h
  split at h <;> obtain ⟨n, -, rfl⟩ := map_eq_ok_iff.mp h <;> exact clamp_clamp _

/-- **The alpha of a colour that was read lies in range.** -/
theorem parse_alpha {expression : Text} {c : Colour} (h : parse expression = .ok c) :
    clamp c.a = c.a := by
  unfold parse at h
  simp only [] at h
  split_ifs at h with hempty hhex
  · exact ofHex_alpha (ColourError.ofFault_eq_ok_iff.mp h)
  · split at h
    · exact ofHex_alpha (ColourError.ofFault_eq_ok_iff.mp h)
    · split at h
      · cases h
      · split at h
        · rw [ofComponents_alpha h, channel_ends.2.1]
        · obtain ⟨alpha, halpha, h⟩ := bind_eq_ok_iff.mp h
          rw [ofComponents_alpha h, channel_alpha halpha]
        · cases h

/-! ## Reading what was written -/

/-- The bytes that are written for a colour expression: alpha only unless it is the full byte. -/
inductive Shown : List Nat → Prop
  /-- A colour that is opaque. -/
  | whole {r g b : Nat} (hr : r < 256) (hg : g < 256) (hb : b < 256) : Shown [r, g, b]
  /-- A colour that is not. -/
  | translucent {r g b a : Nat} (hr : r < 256) (hg : g < 256) (hb : b < 256) (ha : a < 255) :
      Shown [r, g, b, a]

namespace Shown

variable {bytes : List Nat}

theorem lt (h : Shown bytes) : ∀ b ∈ bytes, b < 256 := by
  cases h with
  | whole hr hg hb => simp [hr, hg, hb]
  | translucent hr hg hb ha => simp [hr, hg, hb, Nat.lt_succ_of_lt ha]

theorem length (h : Shown bytes) : bytes.length = 3 ∨ bytes.length = 4 := by
  cases h with
  | whole => exact .inl rfl
  | translucent => exact .inr rfl

theorem canonical (h : Shown bytes) : Canonical (hexText bytes) := canonical_hexText h.lt h.length

/-- An alpha pair that is written is not the full one. -/
theorem alpha_ne_ff (h : Shown bytes) (hpair : (hexText bytes).length = 9) :
    (hexText bytes).drop 7 ≠ "ff" := by
  have hcount := length_bytes h.lt
  cases h with
  | whole =>
    rw [hexText, List.length_cons, hcount] at hpair
    cases hpair
  | @translucent r g b a hr hg hb ha =>
    have hsix := length_bytes (whole hr hg hb).lt
    have hsplit : hexText [r, g, b, a] = hexText [r, g, b] ++ byteText a := by
      simp [hexText]
    have hdrop : (hexText [r, g, b, a]).drop 7 = byteText a := by
      rw [hsplit, List.drop_left']
      rw [hexText, List.length_cons, hsix]
      rfl
    rw [hdrop]
    exact byteText_ne_ff ha

end Shown

/-- What is written for a colour expression. -/
theorem hexOf_shown {expression h : Text} (hw : hexOf expression = .ok h) :
    ∃ bytes, Shown bytes ∧ h = hexText bytes := by
  obtain ⟨c, hc, hwritten⟩ := bind_eq_ok_iff.mp hw
  have hbyte (x : Float) : byteOf x < 256 := Nat.lt_succ_of_le (rounded_channel x).1
  have hhex : c.hex .whenNeeded = .ok h := ColourError.ofFault_eq_ok_iff.mp hwritten
  rw [hex_whenNeeded] at hhex
  obtain ⟨n, hn, rfl⟩ := map_eq_ok_iff.mp hhex
  split_ifs with hfull
  · exact ⟨_, .whole (hbyte _) (hbyte _) (hbyte _), rfl⟩
  · have halpha := byteOf_of_rounded (parse_alpha hc) hn
    rw [Int.ofNat_eq_natCast] at halpha
    exact ⟨_, .translucent (hbyte _) (hbyte _) (hbyte _) (by omega), rfl⟩

/-- Canonical hex is read through its digits. -/
theorem parse_canonical {bytes : List Nat} (hbytes : ∀ b ∈ bytes, b < 256)
    (hlength : bytes.length = 3 ∨ bytes.length = 4) :
    parse (hexText bytes) = ColourError.ofFault (ofHex (hexText bytes)) ∧
      Syntax.normalHex? (hexText bytes) = some (hexText bytes) ∧
      channels? (dropLead (· == .char '#') (hexText bytes)) =
        some (bytes.map fun b => Float.ofNat b / 255.0) := by
  have hcanonical := canonical_hexText hbytes hlength
  have hdigits : ∀ d ∈ (bytes.map byteText).flatten, Syntax.isHexDigit d = true := fun d hd =>
    isHexDigit_of_small (isSmallDigit_bytes hbytes d hd)
  have hcount := length_bytes hbytes
  have hlong : Syntax.isLongHex (hexText bytes) = true :=
    Syntax.isLongHex_iff.mpr
      ⟨_, Syntax.hexBody?_eq_some_iff.mpr ⟨hdigits, .inl rfl⟩, by omega⟩
  refine ⟨?_, Syntax.normalHex?_of_long hlong, ?_⟩
  · have hempty : (hexText bytes).isEmpty = false := rfl
    unfold parse
    simp only [hcanonical.lower_trim, hempty, Syntax.isHex, hlong]
    rfl
  · rw [hexText, dropLead_sign hdigits, Syntax.channels?_eq_pairBytes hdigits (by omega),
      pairBytes_bytes hbytes]

/-- What is written for a colour that was read from bytes. -/
theorem hexOf_of_ofHex {t u : Text} {c : Colour}
    (hparse : parse t = ColourError.ofFault (ofHex t)) (hcolour : ofHex t = .ok c)
    (hwritten : c.hex .whenNeeded = .ok u) : hexOf t = .ok u := by
  refine bind_eq_ok_iff.mpr ⟨c, ?_, ColourError.ofFault_eq_ok_iff.mpr hwritten⟩
  rw [hparse]
  exact ColourError.ofFault_eq_ok_iff.mpr hcolour

/-- **What is written for a colour expression is written back as it stands.** -/
theorem hexOf_hexText {bytes : List Nat} (h : Shown bytes) :
    hexOf (hexText bytes) = .ok (hexText bytes) := by
  obtain ⟨hparse, hnormal, hchannels⟩ := parse_canonical h.lt h.length
  cases h with
  | @whole r g b hr hg hb =>
    have hcolour : ofHex (hexText [r, g, b]) =
        .ok ⟨Float.ofNat r / 255.0, Float.ofNat g / 255.0, Float.ofNat b / 255.0, 1.0⟩ := by
      unfold ofHex
      simp only [hnormal, hchannels, List.map_cons, List.map_nil]
    refine hexOf_of_ofHex hparse hcolour ?_
    rw [hex_whenNeeded, channel_ends.2.2.2]
    simp [Except.map, byteOf_fraction, hr, hg, hb]
  | @translucent r g b a hr hg hb ha =>
    have ha' : a < 256 := Nat.lt_succ_of_lt ha
    have hcolour : ofHex (hexText [r, g, b, a]) =
        .ok ⟨Float.ofNat r / 255.0, Float.ofNat g / 255.0, Float.ofNat b / 255.0,
          Float.ofNat a / 255.0⟩ := by
      unfold ofHex
      simp only [hnormal, hchannels, List.map_cons, List.map_nil]
    have hpart : ¬ (255 : Int) ≤ Int.ofNat a := by
      rw [Int.ofNat_eq_natCast]
      omega
    refine hexOf_of_ofHex hparse hcolour ?_
    rw [hex_whenNeeded, (fraction_of_byte ha').2]
    simp only [Except.map, if_neg hpart, byteOf_fraction, hr, hg, hb, ha', List.cons_append,
      List.nil_append]

end Colour

/-! ## Calls -/

namespace TransformCall

theorem canonical_written {alpha : Colour.AlphaPair} {c : Colour} {t : Text}
    (h : written alpha c = .ok t) : Canonical t :=
  Colour.canonical_hex (ColourError.ofFault_eq_ok_iff.mp h)

theorem canonical_relight {c : Colour} {change : Float → Float} {t : Text}
    (h : relight c change = .ok t) : Canonical t := by
  obtain ⟨hls, -, h⟩ := bind_eq_ok_iff.mp h
  exact canonical_written h

/-- Every transform ends by writing a colour. -/
theorem canonical_onColour {call : TransformCall} {c : Colour} {t : Text}
    (h : call.onColour c = .ok t) : Canonical t := by
  unfold onColour at h
  cases htransform : call.transform with
  | lighten | darken =>
    rw [htransform] at h
    obtain ⟨amount, -, h⟩ := bind_eq_ok_iff.mp h
    exact canonical_relight h
  | fade | solidify | alpha | shade | tint =>
    rw [htransform] at h
    obtain ⟨amount, -, h⟩ := bind_eq_ok_iff.mp h
    exact canonical_written h
  | invert =>
    rw [htransform] at h
    exact canonical_relight h
  | mix =>
    rw [htransform] at h
    obtain ⟨e, -, h⟩ := bind_eq_ok_iff.mp h
    obtain ⟨other, -, h⟩ := bind_eq_ok_iff.mp h
    obtain ⟨percent, -, h⟩ := bind_eq_ok_iff.mp h
    exact canonical_written h
  | css | passthrough =>
    rw [htransform] at h
    exact canonical_written h

theorem canonical_evaluate {call : TransformCall} {t : Text} (h : call.evaluate = .ok t) :
    Canonical t := by
  unfold evaluate at h
  split at h
  · obtain ⟨c, -, h⟩ := bind_eq_ok_iff.mp h
    exact canonical_written h
  · obtain ⟨c, -, h⟩ := bind_eq_ok_iff.mp h
    exact canonical_written h
  · obtain ⟨e, -, h⟩ := bind_eq_ok_iff.mp h
    obtain ⟨c, -, h⟩ := bind_eq_ok_iff.mp h
    exact canonical_onColour h

end TransformCall

/-- **Colours are written in canonical hex.**  Whatever double a channel is, the integer that it is
rounded to is a byte, and it is written as the two digits of that byte.  A call that is evaluated
gives a number sign with six or eight small digits.  What is written for a colour expression is of
that form too, its alpha is not the full byte, and it is written back as it stands. -/
theorem hex_canonical :
    (∀ channel : Float, ∃ b : Nat, b ≤ 255 ∧
      Colour.rounded (clamp channel * 255.0) = .ok (Int.ofNat b) ∧
      Colour.channelHex channel = .ok (byteText b)) ∧
    (∀ (call : TransformCall) (t : Text), standardMath.apply call = .ok t → Canonical t) ∧
    ∀ e h : Text, Colour.hexOf e = .ok h →
      Canonical h ∧ (h.length = 9 → h.drop 7 ≠ "ff") ∧ Colour.hexOf h = .ok h := by
  refine ⟨?channels, ?calls, ?expressions⟩
  case channels =>
    intro channel
    obtain ⟨hle, hround⟩ := Colour.rounded_channel channel
    exact ⟨_, hle, hround, Colour.channelHex_eq channel⟩
  case calls =>
    intro call t h
    exact TransformCall.canonical_evaluate (mapError_eq_ok_iff.mp h)
  case expressions =>
    intro e h hw
    obtain ⟨bytes, hshown, rfl⟩ := Colour.hexOf_shown hw
    exact ⟨hshown.canonical, hshown.alpha_ne_ff, Colour.hexOf_hexText hshown⟩

/-- An alpha that is no number is written as the full byte by a call; the alpha just below the full
byte stays in a colour expression. -/
theorem edges_of_alpha_canonical :
    (∃ t, standardMath.apply (.ofName "fade" ["#AbC", "nan"] "fade(#AbC, nan)") = .ok t ∧
      t = "#aabbccff" ∧ Canonical t) ∧
    ∃ h, Colour.hexOf " #FF0000Fe" = .ok h ∧ h = "#ff0000fe" ∧ Canonical h ∧
      h.drop 7 ≠ "ff" ∧ Colour.hexOf h = .ok h := by
  have hcall : standardMath.apply (.ofName "fade" ["#AbC", "nan"] "fade(#AbC, nan)")
      = .ok "#aabbccff" := by decide +kernel
  have hhex : Colour.hexOf " #FF0000Fe" = .ok "#ff0000fe" := by decide +kernel
  obtain ⟨-, hcalls, hexpressions⟩ := hex_canonical
  obtain ⟨hcanonical, halpha, hagain⟩ := hexpressions _ _ hhex
  exact ⟨⟨_, hcall, rfl, hcalls _ _ hcall⟩, _, hhex, rfl, hcanonical, halpha rfl, hagain⟩

end Colourway
