import Colourway.Proofs.Number.Remainder

/-!
# Fractions of a small integer

Arithmetic on doubles is followed here in units of `2 ^ -20`: a number between two multiples of the
unit stays between them when it is rounded, because they are doubles themselves.  Each operation so
widens the bounds by a unit at most, and there are enough units to an integer that a chain of
operations still tells the integer that is nearest to its result (`Within.reading`).  In particular
a byte is found again after it was divided by 255 and multiplied by 255 (**`rounded_fraction`**).

* `Within` — a number between two multiples of the unit.
* `within_roundWithAccuracy` — rounding keeps it.
* `within_ofNat`, `Within.mul`, `Within.div` — its bounds through arithmetic.
-/

namespace Colourway.Number

open Float.Model (Format totalExponent UnpackedFloat)
open Float.Model.UnpackedFloat

/-- A number from `lo` to `hi`, both in units of `2 ^ -20`, whose last digit is no larger than a
unit. -/
def Within (lo hi : Nat) : UnpackedFloat → Prop
  | .zero _ => lo = 0
  | .finite s m e _ => s = .positive ∧ e ≤ -20 ∧
      lo * 2 ^ (-20 - e).toNat ≤ m ∧ m ≤ hi * 2 ^ (-20 - e).toNat
  | _ => False

/-- A number between bounds is zero or positive. -/
theorem Within.zero_or_finite {lo hi : Nat} {u : UnpackedFloat} (h : Within lo hi u) :
    (lo = 0 ∧ ∃ s, u = .zero s) ∨ ∃ m e hm, u = .finite .positive m e hm ∧ e ≤ -20 ∧
      lo * 2 ^ (-20 - e).toNat ≤ m ∧ m ≤ hi * 2 ^ (-20 - e).toNat := by
  cases u with
  | infinity s => exact h.elim
  | notANumber => exact h.elim
  | zero s => exact .inl ⟨h, s, rfl⟩
  | finite s m e hm =>
    obtain ⟨rfl, hbounds⟩ := h
    exact .inr ⟨m, e, hm, rfl, hbounds⟩

/-! ### Rounding -/

/-- A number below a byte needs no more exponent than the byte. -/
theorem totalExponent_le_byte {m hi : Nat} {e : Int} (he : e ≤ -20) (hhi : hi < 2 ^ 28)
    (hm : m ≤ hi * 2 ^ (-20 - e).toNat) : totalExponent m e ≤ 8 := by
  have hlt : m < 2 ^ (27 + (-20 - e).toNat + 1) := calc
    m ≤ hi * 2 ^ (-20 - e).toNat := hm
    _ < 2 ^ 28 * 2 ^ (-20 - e).toNat := Nat.mul_lt_mul_of_pos_right hhi (Nat.two_pow_pos _)
    _ = 2 ^ (27 + (-20 - e).toNat + 1) := by rw [← Nat.pow_add]; congr 1; omega
  have hlog := log2_le_of_lt hlt
  rw [totalExponent_eq]
  omega

theorem Within.below {lo hi : Nat} {u : UnpackedFloat} (h : Within lo hi u) (hhi : hi < 2 ^ 28) :
    Below 8 u := by
  obtain ⟨-, s, rfl⟩ | ⟨m, e, hm, rfl, he, -, hhigh⟩ := h.zero_or_finite
  · trivial
  · exact totalExponent_le_byte he hhi hhigh

/-- **Rounding does not carry a number past a multiple of the unit.** -/
theorem within_roundWithAccuracy {m lo hi : Nat} {e : Int} (a : Accuracy) (he : e ≤ -20)
    (hhi : hi < 2 ^ 28) (hlow : lo * 2 ^ (-20 - e).toNat ≤ m)
    (hm : m < hi * 2 ^ (-20 - e).toNat) (hlong : e ≤ max (totalExponent m e - 53) (-1074)) :
    Within lo hi (roundWithAccuracy Format.binary64 .positive m e a) := by
  obtain ⟨t, ht⟩ : ∃ t, t = max (totalExponent m e - 53) (-1074) := ⟨_, rfl⟩
  have htotal := totalExponent_le_byte he hhi hm.le
  have hcut := (roundedAway_cut a ht (ht ▸ hlong)).le
  obtain ⟨hfloor, hceil⟩ := roundedAway_bounds a ht
  have hunits : (-20 - t).toNat + (t - e).toNat = (-20 - e).toNat := by omega
  rw [← hunits, Nat.pow_add, ← Nat.mul_assoc] at hlow hm
  have hleast : lo * 2 ^ (-20 - t).toNat ≤ roundedAway m e a :=
    le_trans ((Nat.le_div_iff_mul_le (Nat.two_pow_pos _)).mpr hlow) hfloor
  -- what is cut off leaves less than the bound, so that one more is at most the bound
  have hmost : roundedAway m e a ≤ hi * 2 ^ (-20 - t).toNat :=
    le_trans hceil ((Nat.div_lt_iff_lt_mul (Nat.two_pow_pos _)).mpr hm)
  rw [roundWithAccuracy_eq .positive a ht (ht ▸ hlong)]
  generalize roundedAway m e a = left at hcut hleast hmost
  split_ifs with hzero hfits
  · rw [hzero, Nat.le_zero, Nat.mul_eq_zero] at hleast
    exact hleast.resolve_right (Nat.two_pow_pos _).ne'
  · exact ⟨rfl, by omega, hleast, hmost⟩
  · obtain rfl : left = 2 ^ 53 := le_antisymm hcut (not_lt.mp hfits)
    have hhalf (n : Nat) : n * 2 ^ (-20 - t).toNat = n * 2 ^ (-20 - (t + 1)).toNat * 2 := by
      rw [Nat.mul_assoc, ← Nat.pow_succ]
      congr 2
      omega
    rw [hhalf] at hleast hmost
    exact ⟨rfl, by omega, by omega, by omega⟩

/-! ### Readings -/

theorem toNat_unpackSign (b : BitVec 64) :
    (@unpackSign Format.binary64 b).toNat = b.toNat / 2 ^ 63 := by
  have hlt := b.isLt
  change (b.extractLsb' 63 1).toNat = _
  rw [BitVec.extractLsb'_toNat, Nat.shiftRight_eq_div_pow]
  omega

/-- What is read from a double that is neither infinite nor missing, by its unpacked form. -/
theorem reading_unpack (x : Float) :
    (∀ s, x.toModel.unpack = .zero s →
      ∃ negative, Reading.of x = .finite ⟨negative, 0, -1074, false⟩) ∧
    ∀ m e hm, x.toModel.unpack = .finite .positive m e hm →
      ∃ narrow, Reading.of x = .finite ⟨false, m, e, narrow⟩ := by
  have hexp := toNat_unpackExponent x.toModel.toBits.toBitVec
  have hmant := toNat_unpackMantissa x.toModel.toBits.toBitVec
  have hsign := toNat_unpackSign x.toModel.toBits.toBitVec
  have hunpack : x.toModel.unpack = unpack Format.binary64 x.toModel.toBits.toBitVec := rfl
  have hread : Reading.of x
      = if x.toModel.toBits.toBitVec.toNat / 2 ^ 52 % 2 ^ 11 = 2047 then
          if x.toModel.toBits.toBitVec.toNat % 2 ^ 52 = 0 then
            .infinite (x.toModel.toBits.toBitVec.toNat / 2 ^ 63 == 1)
          else .nan
        else if x.toModel.toBits.toBitVec.toNat / 2 ^ 52 % 2 ^ 11 = 0 then
          .finite ⟨x.toModel.toBits.toBitVec.toNat / 2 ^ 63 == 1,
            x.toModel.toBits.toBitVec.toNat % 2 ^ 52, -1074, false⟩
        else .finite ⟨x.toModel.toBits.toBitVec.toNat / 2 ^ 63 == 1,
            2 ^ 52 + x.toModel.toBits.toBitVec.toNat % 2 ^ 52,
            Int.ofNat (x.toModel.toBits.toBitVec.toNat / 2 ^ 52 % 2 ^ 11) - 1075, _⟩ := rfl
  rw [hunpack, hread, ← hexp, ← hmant, ← hsign, unpack]
  generalize x.toModel.toBits.toBitVec = b
  have hpositive : Sign.ofBitVec (@unpackSign Format.binary64 b) = .positive →
      ((@unpackSign Format.binary64 b).toNat == 1) = false := by
    intro h
    unfold Sign.ofBitVec at h
    split at h
    · next hzero =>
      rw [hzero]
      rfl
    · cases h
  simp only []
  by_cases hmost : @unpackExponent Format.binary64 b = -1#11
  · rw [if_pos hmost]
    split_ifs <;> exact ⟨nofun, nofun⟩
  · have hmost' : (@unpackExponent Format.binary64 b).toNat ≠ 2047 := fun h =>
      hmost (BitVec.eq_of_toNat_eq h)
    rw [if_neg hmost, if_neg hmost']
    by_cases hleast : @unpackExponent Format.binary64 b = 0#11
    · have hleast' : (@unpackExponent Format.binary64 b).toNat = 0 := by rw [hleast]; rfl
      rw [if_pos hleast, if_pos hleast']
      split_ifs with hzero
      · have hzero' : (@unpackMantissa Format.binary64 b).toNat = 0 := by rw [hzero]; rfl
        rw [hzero']
        exact ⟨fun _ _ => ⟨_, rfl⟩, nofun⟩
      · refine ⟨nofun, ?_⟩
        intro m e hm h
        rw [UnpackedFloat.finite.injEq] at h
        obtain ⟨hs, rfl, rfl⟩ := h
        rw [hpositive hs, hleast]
        exact ⟨_, rfl⟩
    · have hleast' : (@unpackExponent Format.binary64 b).toNat ≠ 0 := fun h =>
        hleast (BitVec.eq_of_toNat_eq h)
      rw [if_neg hleast, if_neg hleast']
      refine ⟨nofun, ?_⟩
      intro m e hm h
      rw [UnpackedFloat.finite.injEq] at h
      obtain ⟨hs, rfl, rfl⟩ := h
      rw [hpositive hs, toNat_leading_append]
      exact ⟨_, rfl⟩

/-- The nearest integer is off by half a unit at most. -/
theorem rounded_bounds (m : Nat) {e : Int} (narrow : Bool) (he : e < 0) :
    ∃ k : Nat, Parts.rounded ⟨false, m, e, narrow⟩ = Int.ofNat k ∧
      2 * m ≤ (2 * k + 1) * 2 ^ (-e).toNat ∧ 2 * k * 2 ^ (-e).toNat ≤ 2 * m + 2 ^ (-e).toNat := by
  unfold Parts.rounded
  simp only [show ∀ k, Nat.pow 2 k = 2 ^ k from fun _ => rfl, Bool.false_eq_true, if_false,
    not_le.mpr he]
  refine ⟨_, rfl, ?_⟩
  have hsplit := Nat.div_add_mod m (2 ^ (-e).toNat)
  have hpart := Nat.mod_lt m (Nat.two_pow_pos (-e).toNat)
  generalize 2 ^ (-e).toNat = unit at *
  generalize hwhole : m / unit = whole at *
  generalize m % unit = part at *
  split_ifs with hdown
  · have hle : 2 * part ≤ unit := by
      simp only [Bool.or_eq_true, Bool.and_eq_true, decide_eq_true_eq, beq_iff_eq] at hdown
      omega
    constructor <;> linarith
  · have hge : unit ≤ 2 * part := by
      simp only [Bool.or_eq_true, Bool.and_eq_true, decide_eq_true_eq, beq_iff_eq] at hdown
      omega
    constructor <;> linarith

theorem rounded_zero (negative narrow : Bool) (e : Int) :
    Parts.rounded ⟨negative, 0, e, narrow⟩ = 0 := by
  unfold Parts.rounded
  simp only [show ∀ k, Nat.pow 2 k = 2 ^ k from fun _ => rfl]
  simp

/-- **The integer nearest to a number between two bounds.** -/
theorem Within.reading {x : Float} {lo hi : Nat} (h : Within lo hi x.toModel.unpack) :
    ∃ p, Reading.of x = .finite p ∧ ∃ k : Nat, p.rounded = Int.ofNat k ∧
      lo ≤ k * 2 ^ 20 + 2 ^ 19 ∧ k * 2 ^ 20 ≤ hi + 2 ^ 19 := by
  obtain ⟨hzero, hpositive⟩ := reading_unpack x
  obtain ⟨rfl, s, hx⟩ | ⟨m, e, hm, hx, he, hlow, hhigh⟩ := h.zero_or_finite
  · obtain ⟨negative, hread⟩ := hzero s hx
    exact ⟨_, hread, 0, rounded_zero negative false (-1074), by omega, by omega⟩
  · obtain ⟨narrow, hread⟩ := hpositive m e hm hx
    obtain ⟨k, hk, hover, hunder⟩ := rounded_bounds m narrow (by omega : e < 0)
    have hunit : 2 ^ (-e).toNat = 2 ^ 20 * 2 ^ (-20 - e).toNat := by
      rw [← Nat.pow_add]
      congr 1
      omega
    rw [hunit] at hover hunder
    have hpos := Nat.two_pow_pos (-20 - e).toNat
    generalize 2 ^ (-20 - e).toNat = unit at hlow hhigh hover hunder hpos
    have hlo : 2 * lo ≤ (2 * k + 1) * 2 ^ 20 :=
      Nat.le_of_mul_le_mul_right (c := unit) (by linarith) hpos
    have hhi : 2 * k * 2 ^ 20 ≤ 2 * hi + 2 ^ 20 :=
      Nat.le_of_mul_le_mul_right (c := unit) (by linarith) hpos
    exact ⟨_, hread, k, hk, by linarith, by linarith⟩

/-! ### Arithmetic -/

/-- Packing keeps the bounds. -/
theorem within_pack {lo hi : Nat} {u : UnpackedFloat} (hs : Stored u) (h : Within lo hi u)
    (hhi : hi < 2 ^ 28) : Within lo hi (Float.Model.pack u).unpack := by
  rw [unpack_pack hs ((h.below hhi).mono (by decide))]
  exact h

/-- Multiplying by an integer multiplies the bounds. -/
theorem Within.mul {x y : Float} {lo hi n k : Nat} {hn : 0 < n * 2 ^ k}
    (h : Within lo hi x.toModel.unpack)
    (hy : y.toModel.unpack = .finite .positive (n * 2 ^ k) (-k) hn) (hhi : hi * n + 1 < 2 ^ 28) :
    Within (lo * n) (hi * n + 1) (x * y).toModel.unpack := by
  have hx := stored_double x
  have hy' := stored_double y
  refine within_pack (stored_mul hx hy') ?_ hhi
  rw [hy] at hy' ⊢
  obtain ⟨rfl, s, hu⟩ | ⟨m, e, hm, hu, he, hlow, hhigh⟩ := h.zero_or_finite
  · rw [hu]
    exact Nat.zero_mul n
  · rw [hu] at hx ⊢
    have hunits : (-20 - (e + -k)).toNat = (-20 - e).toNat + k := by omega
    refine within_roundWithAccuracy .exact (by omega) hhi ?_ ?_ (product_exponent hx hy')
    · rw [hunits, Nat.pow_add]
      calc lo * n * (2 ^ (-20 - e).toNat * 2 ^ k)
        _ = lo * 2 ^ (-20 - e).toNat * (n * 2 ^ k) := by ring
        _ ≤ m * (n * 2 ^ k) := Nat.mul_le_mul_right _ hlow
    · rw [hunits, Nat.pow_add]
      calc m * (n * 2 ^ k)
        _ ≤ hi * 2 ^ (-20 - e).toNat * (n * 2 ^ k) := Nat.mul_le_mul_right _ hhigh
        _ = hi * n * (2 ^ (-20 - e).toNat * 2 ^ k) := by ring
        _ < (hi * n + 1) * (2 ^ (-20 - e).toNat * 2 ^ k) :=
          Nat.mul_lt_mul_of_pos_right (Nat.lt_succ_self _) (by positivity)

theorem unpack_full : (255.0 : Float).toModel.unpack =
    .finite .positive (255 * 2 ^ 45) (-45) (by decide) := by with_unfolding_all rfl

/-- Dividing by 255 divides the bounds. -/
theorem Within.div {x : Float} {lo hi : Nat} (h : Within lo hi x.toModel.unpack)
    (hhi : hi < 2 ^ 28) : Within (lo / 255) (hi / 255 + 1) (x / 255.0).toModel.unpack := by
  have hhi' : hi / 255 + 1 < 2 ^ 28 := by omega
  refine within_pack stored_div ?_ hhi'
  rw [unpack_full]
  obtain ⟨rfl, s, hu⟩ | ⟨m, e, hm, hu, he, hlow, hhigh⟩ := h.zero_or_finite
  · rw [hu]
    rfl
  · rw [hu]
    have htotal := totalExponent_le_byte he hhi hhigh
    have hlong := (divCore_bounds e (-45) hm (by decide : 0 < 255 * 2 ^ 45)).1
    have hbyte : totalExponent (255 * 2 ^ 45) (-45) = 8 := by decide
    obtain ⟨low, hlow'⟩ : ∃ low, low = min (e - -45)
      (max (totalExponent m e - totalExponent (255 * 2 ^ 45) (-45) - 53) (-1074)) := ⟨_, rfl⟩
    have hcore : divCore Format.binary64 m e (255 * 2 ^ 45) (-45)
        = (m <<< (e - -45 - low).toNat / (255 * 2 ^ 45), low,
          accuracyOfFraction (m <<< (e - -45 - low).toNat % (255 * 2 ^ 45)) (255 * 2 ^ 45)) := by
      rw [hlow']
      rfl
    change Within _ _ (roundWithAccuracy Format.binary64 .positive
      (divCore Format.binary64 m e (255 * 2 ^ 45) (-45)).1
      (divCore Format.binary64 m e (255 * 2 ^ 45) (-45)).2.1
      (divCore Format.binary64 m e (255 * 2 ^ 45) (-45)).2.2)
    rw [hcore] at hlong ⊢
    have hunits : 2 ^ (-20 - low).toNat * 2 ^ 45
        = 2 ^ (-20 - e).toNat * 2 ^ (e - -45 - low).toNat := by
      rw [← Nat.pow_add, ← Nat.pow_add]
      congr 1
      omega
    refine within_roundWithAccuracy _ (by dsimp only; omega) hhi' ?_ ?_ hlong
    · dsimp only
      rw [Nat.le_div_iff_mul_le (by decide), Nat.shiftLeft_eq]
      calc lo / 255 * 2 ^ (-20 - low).toNat * (255 * 2 ^ 45)
        _ = lo / 255 * 255 * (2 ^ (-20 - low).toNat * 2 ^ 45) := by ring
        _ ≤ lo * (2 ^ (-20 - low).toNat * 2 ^ 45) :=
          Nat.mul_le_mul_right _ (Nat.div_mul_le_self lo 255)
        _ = lo * 2 ^ (-20 - e).toNat * 2 ^ (e - -45 - low).toNat := by rw [hunits, Nat.mul_assoc]
        _ ≤ m * 2 ^ (e - -45 - low).toNat := Nat.mul_le_mul_right _ hlow
    · dsimp only
      rw [Nat.div_lt_iff_lt_mul (by decide), Nat.shiftLeft_eq]
      calc m * 2 ^ (e - -45 - low).toNat
        _ ≤ hi * 2 ^ (-20 - e).toNat * 2 ^ (e - -45 - low).toNat :=
          Nat.mul_le_mul_right _ hhigh
        _ = hi * (2 ^ (-20 - low).toNat * 2 ^ 45) := by rw [hunits, Nat.mul_assoc]
        _ < (hi / 255 + 1) * 255 * (2 ^ (-20 - low).toNat * 2 ^ 45) :=
          Nat.mul_lt_mul_of_pos_right (by omega) (by positivity)
        _ = (hi / 255 + 1) * 2 ^ (-20 - low).toNat * (255 * 2 ^ 45) := by ring

/-- An integer is a double with little room for error. -/
theorem within_ofNat {b : Nat} (hpos : 0 < b) (hb : b < 2 ^ 8) :
    Within (b * 2 ^ 20) (b * 2 ^ 20 + 2) (Float.ofNat b).toModel.unpack := by
  have hval : b.toUInt64.toNat = b := Nat.mod_eq_of_lt (lt_trans hb (by decide))
  have hpositive : ofUInt64 Format.binary64 b.toUInt64 =
      round Format.binary64 .positive b 0 := by
    change normalize Format.binary64 (b.toUInt64.toNat : Int) 0 .positive = _
    unfold UnpackedFloat.normalize
    rw [hval, Int.compare_eq_gt.mpr (by omega)]
    rfl
  have hnat : Within (b * 2 ^ 20) (b * 2 ^ 20 + 1) b.toUInt64.toFloat.toModel.unpack := by
    refine within_pack (stored_normalize _ _ _) ?_ (by omega)
    rw [hpositive]
    obtain ⟨k, hk, htotal, hle, -⟩ := round_eq .positive 0 hpos.ne'
    have hlog := log2_le_of_lt (k := 7) hb
    rw [totalExponent_eq b] at htotal hle
    rw [hk]
    have hunits : 2 ^ k = 2 ^ 20 * 2 ^ (-20 - (0 - (k : Int))).toNat := by
      rw [← Nat.pow_add]
      congr 1
      omega
    have hshift : b <<< k = b * 2 ^ 20 * 2 ^ (-20 - (0 - (k : Int))).toNat := by
      rw [Nat.shiftLeft_eq, hunits, Nat.mul_assoc]
    refine within_roundWithAccuracy .exact (by omega) (by omega) hshift.ge ?_ (by omega)
    rw [hshift]
    exact Nat.mul_lt_mul_of_pos_right (Nat.lt_succ_self _) (Nat.two_pow_pos _)
  have hone : Float.exactlyRepresentablePowersOfTen[0].toModel.unpack =
      .finite .positive (1 * 2 ^ 52) (-(52 : Nat)) (by decide) := by with_unfolding_all rfl
  rw [ofNat_eq_mul (lt_trans hb (by decide))]
  simpa only [Nat.mul_one] using hnat.mul hone (by omega)

/-! ### Fractions -/

theorem unpack_one : (1.0 : Float).toModel.unpack =
    .finite .positive (2 ^ 52) (-52) (by decide) := by with_unfolding_all rfl

/-- A double between 0 and 1 is a positive fraction. -/
theorem unpack_between {x : Float} (hlow : 0.0 < x) (hhigh : x < 1.0) :
    ∃ m e hm, x.toModel.unpack = .finite .positive m e hm ∧ m < 2 ^ 53 ∧ e ≤ -53 := by
  have hzero := lt_iff_compare.mp hlow
  have hone := lt_iff_compare.mp hhigh
  have hstored := stored_double x
  rw [unpack_zero] at hzero
  rw [unpack_one] at hone
  cases hx : x.toModel.unpack with
  | notANumber => rw [hx] at hone; cases hone
  | infinity s =>
    rw [hx] at hzero hone
    cases s
    · cases hzero
    · cases hone
  | zero s => rw [hx] at hzero; cases hzero
  | finite s m e hm =>
    rw [hx] at hzero hone hstored
    cases s
    · cases hzero
    · refine ⟨m, e, hm, rfl, hstored.1, ?_⟩
      have horder := Option.some.inj hone
      rw [Ordering.then_eq_lt, Int.compare_eq_lt, Int.compare_eq_eq, Nat.compare_eq_lt] at horder
      obtain ⟨-, -, hfull⟩ := hstored
      omega

theorem within_between {x : Float} (hlow : 0.0 < x) (hhigh : x < 1.0) :
    Within 0 (2 ^ 20) x.toModel.unpack := by
  obtain ⟨m, e, hm, hx, hlt, he⟩ := unpack_between hlow hhigh
  rw [hx]
  refine ⟨rfl, by omega, by omega, ?_⟩
  rw [← Nat.pow_add]
  exact le_trans hlt.le (Nat.pow_le_pow_right (by decide) (by omega))

/-- A double within bounds between 0 and 1 lies between 0 and 1. -/
theorem Within.between {x : Float} {lo hi : Nat} (h : Within lo hi x.toModel.unpack)
    (hlow : 0 < lo) (hhigh : hi < 2 ^ 20) : 0.0 < x ∧ x < 1.0 := by
  have hstored := stored_double x
  rw [lt_iff_compare, lt_iff_compare, unpack_zero, unpack_one]
  obtain ⟨hzero, -⟩ | ⟨m, e, hm, hx, -, -, hm'⟩ := h.zero_or_finite
  · exact absurd hzero hlow.ne'
  · rw [hx] at hstored ⊢
    obtain ⟨-, -, hfull⟩ := hstored
    have hlt : e < -52 := by
      by_contra hnot
      have hpow : 2 ^ (-20 - e).toNat ≤ 2 ^ 32 := Nat.pow_le_pow_right (by decide) (by omega)
      have hsmall : hi * 2 ^ (-20 - e).toNat < 2 ^ 20 * 2 ^ 32 := calc
        hi * 2 ^ (-20 - e).toNat ≤ hi * 2 ^ 32 := Nat.mul_le_mul_left hi hpow
        _ < 2 ^ 20 * 2 ^ 32 := Nat.mul_lt_mul_of_pos_right hhigh (by decide)
      omega
    refine ⟨rfl, ?_⟩
    change some ((compare e (-52)).then (compare m (2 ^ 52))) = some .lt
    rw [Int.compare_eq_lt.mpr hlt]
    rfl

/-- **A byte is found again** after it was divided by 255 and multiplied by 255. -/
theorem rounded_fraction {b : Nat} (hpos : 0 < b) (hb : b < 255) :
    (0.0 < Float.ofNat b / 255.0 ∧ Float.ofNat b / 255.0 < 1.0) ∧
      ∃ p, Reading.of (Float.ofNat b / 255.0 * 255.0) = .finite p ∧ p.rounded = Int.ofNat b := by
  have hquotient := (within_ofNat hpos (by omega)).div (by omega)
  obtain ⟨p, hp, k, hk, hlow, hhigh⟩ := (hquotient.mul unpack_full (by omega)).reading
  obtain rfl : k = b := by omega
  exact ⟨hquotient.between (by omega) (by omega), p, hp, hk⟩

end Colourway.Number
