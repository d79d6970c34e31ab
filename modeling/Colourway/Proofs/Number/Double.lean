import Mathlib

/-!
# How doubles are rounded and stored

Arithmetic on doubles takes them apart into sign, mantissa and exponent, works on these exactly,
rounds, and packs the result into 64 bits. A finite double is stored with 53 bits of mantissa, or
fewer at the least exponent. Two things are followed through rounding and packing here: a bound
`2 ^ top` on the size of a result, and that a difference which is not zero does not become zero.
-/

namespace Colourway.Number

open Float.Model (Format totalExponent UnpackedFloat)
open Float.Model.UnpackedFloat

/-- The form in which a double is stored: at most 53 bits, and all of them unless the exponent is
the least one. -/
def Stored : UnpackedFloat → Prop
  | .finite _ m e _ => m < 2 ^ 53 ∧ -1074 ≤ e ∧ (2 ^ 52 ≤ m ∨ e = -1074)
  | _ => True

/-- A number whose size lies below `2 ^ top`. -/
def Below (top : Int) : UnpackedFloat → Prop
  | .zero _ => True
  | .finite _ m e _ => totalExponent m e ≤ top
  | _ => False

instance (top : Int) : DecidablePred (Below top) := fun u =>
  match u with
  | .zero _ => isTrue trivial
  | .finite _ m e _ => inferInstanceAs (Decidable (totalExponent m e ≤ top))
  | .infinity _ => isFalse id
  | .notANumber => isFalse id

theorem Below.mono {low top : Int} {u : UnpackedFloat} (h : Below low u) (hle : low ≤ top) :
    Below top u := by
  cases u with
  | finite s m e hm => exact le_trans h hle
  | zero s => trivial
  | infinity s => exact h
  | notANumber => exact h

/-! ### Sizes -/

theorem log2_le_of_lt {m k : Nat} (h : m < 2 ^ (k + 1)) : m.log2 ≤ k := by
  by_cases hm : m = 0
  · simp [hm]
  · exact Nat.lt_succ_iff.mp ((Nat.log2_lt hm).mpr h)

theorem totalExponent_eq (m : Nat) (e : Int) : totalExponent m e = m.log2 + 1 + e := rfl

theorem totalExponent_le {m : Nat} {e top : Int} (hm : m ≠ 0) (h : m < 2 ^ (top - e).toNat) :
    totalExponent m e ≤ top := by
  have hlog := (Nat.log2_lt hm).mpr h
  unfold totalExponent
  omega

theorem lt_of_totalExponent {m : Nat} {e top : Int} (h : totalExponent m e ≤ top) :
    m < 2 ^ (top - e).toNat := by
  unfold totalExponent at h
  exact lt_of_lt_of_le Nat.lt_log2_self (Nat.pow_le_pow_right (by decide) (by omega))

/-- Moving the exponent of a number down to `low` keeps its size. -/
theorem shifted_lt {m : Nat} {e top : Int} (low : Int) (h : totalExponent m e ≤ top)
    (hlow : low ≤ e) : m <<< (e - low).toNat < 2 ^ (top - low).toNat := by
  have hm := lt_of_totalExponent h
  have hle : e ≤ top := by unfold totalExponent at h; omega
  have hsum : (top - low).toNat = (top - e).toNat + (e - low).toNat := by omega
  rw [Nat.shiftLeft_eq, hsum, Nat.pow_add]
  exact Nat.mul_lt_mul_of_pos_right hm (Nat.two_pow_pos _)

theorem log2_shiftLeft {m : Nat} (hm : m ≠ 0) (k : Nat) : (m <<< k).log2 = m.log2 + k := by
  rw [Nat.shiftLeft_eq, Nat.log2_eq_iff (Nat.mul_ne_zero hm (Nat.two_pow_pos k).ne')]
  constructor
  · rw [Nat.pow_add]
    exact Nat.mul_le_mul_right _ (Nat.log2_self_le hm)
  · rw [show m.log2 + k + 1 = m.log2 + 1 + k by omega, Nat.pow_add]
    exact Nat.mul_lt_mul_of_pos_right Nat.lt_log2_self (Nat.two_pow_pos k)

/-! ### Rounding -/

theorem targetExponent_eq (top : Int) :
    Format.binary64.targetExponent top = max (top - 53) (-1074) := rfl

theorem mantissa_shiftRight (em : ExtendedMantissa) (k : Nat) :
    (em >>> k).mantissa = em.mantissa / 2 ^ k := by
  induction k with
  | zero => exact (Nat.div_one _).symm
  | succ k ih =>
    change (em >>> k).mantissa / 2 = _
    rw [ih, Nat.div_div_eq_div_mul, Nat.pow_succ]

theorem mantissa_ofMantissaAndAccuracy (m : Nat) (a : Accuracy) :
    (ExtendedMantissa.ofMantissaAndAccuracy m a).mantissa = m := by
  cases a with
  | exact => rfl
  | inexact o => cases o <;> rfl

/-- Rounding adds at most one unit in the last place. -/
theorem roundedMantissa_bounds (em : ExtendedMantissa) :
    em.mantissa ≤ em.roundedMantissa ∧ em.roundedMantissa ≤ em.mantissa + 1 := by
  obtain ⟨m, r, s⟩ := em
  cases r <;> cases s <;>
    simp only [ExtendedMantissa.roundedMantissa, ExtendedMantissa.accuracy,
      Accuracy.roundToNearestEven] <;> omega

/-- The mantissa that is left when the digits beyond those of a double are rounded away. It may
need one bit too many. -/
def roundedAway (m : Nat) (e : Int) (a : Accuracy) : Nat :=
  (shiftToTargetExponent Format.binary64 m e a).1.roundedMantissa

/-- A mantissa `m` at exponent `e`, no longer than needed for a double, next to what is left of it
at the exponent `t` of that double. -/
structure Cut (m : Nat) (e t : Int) (left : Nat) : Prop where
  /-- What is left has 53 bits, or it is rounded up to the next power of two. -/
  le : left ≤ 2 ^ 53
  /-- It is no smaller unless the exponent is the least one. -/
  full : 2 ^ 52 ≤ left ∨ t = -1074
  /-- It is as large as before, or rounded up to the next power of two. -/
  size : left ≤ 2 ^ (totalExponent m e - t).toNat
  /-- It is not rounded to zero unless the exponent was too small for a double. -/
  pos : m ≠ 0 → -1074 ≤ e → left ≠ 0

/-- What is left is the quotient, or one more than it. -/
theorem roundedAway_bounds {m : Nat} {e t : Int} (a : Accuracy)
    (ht : t = max (totalExponent m e - 53) (-1074)) :
    m / 2 ^ (t - e).toNat ≤ roundedAway m e a ∧
      roundedAway m e a ≤ m / 2 ^ (t - e).toNat + 1 := by
  have hcut : (shiftToTargetExponent Format.binary64 m e a).1.mantissa
      = m / 2 ^ (t - e).toNat := by
    rw [ht]
    exact (mantissa_shiftRight _ _).trans (by rw [mantissa_ofMantissaAndAccuracy]; rfl)
  have hbounds := roundedMantissa_bounds (shiftToTargetExponent Format.binary64 m e a).1
  rwa [hcut] at hbounds

theorem roundedAway_cut {m : Nat} {e t : Int} (a : Accuracy)
    (ht : t = max (totalExponent m e - 53) (-1074)) (he : e ≤ t) :
    Cut m e t (roundedAway m e a) := by
  obtain ⟨hlow, hhigh⟩ := roundedAway_bounds a ht
  have htop : m < 2 ^ (m.log2 + 1) := Nat.lt_log2_self
  -- what is cut off leaves a number of `bits` bits when `m` has `bits` more than are cut off
  have hlt (bits : Nat) (h : m.log2 + 1 ≤ bits + (t - e).toNat) :
      m / 2 ^ (t - e).toNat < 2 ^ bits := by
    rw [Nat.div_lt_iff_lt_mul (Nat.two_pow_pos _), ← Nat.pow_add]
    exact lt_of_lt_of_le htop (Nat.pow_le_pow_right (by decide) h)
  unfold totalExponent at *
  refine ⟨?_, ?_, ?_, ?_⟩
  · have := hlt 53 (by omega)
    omega
  · by_cases hleast : t = -1074
    · exact .inr hleast
    · have hm : m ≠ 0 := by rintro rfl; simp at ht; omega
      have hbits : 52 + (t - e).toNat = m.log2 := by omega
      refine .inl (le_trans ?_ hlow)
      rw [Nat.le_div_iff_mul_le (Nat.two_pow_pos _), ← Nat.pow_add, hbits]
      exact Nat.log2_self_le hm
  · have := hlt _ (show m.log2 + 1 ≤ (m.log2 + 1 + e - t).toNat + (t - e).toNat by omega)
    unfold totalExponent
    omega
  · intro hm hleast
    by_cases hsame : t = e
    · rw [hsame, Int.sub_self, Int.toNat_zero, Nat.pow_zero, Nat.div_one] at hlow
      omega
    · have hbits : 52 + (t - e).toNat = m.log2 := by omega
      have : 1 ≤ m / 2 ^ (t - e).toNat := by
        rw [Nat.le_div_iff_mul_le (Nat.two_pow_pos _), Nat.one_mul]
        exact le_trans (Nat.pow_le_pow_right (by decide) (by omega)) (Nat.log2_self_le hm)
      omega

/-- Nothing is cut off a mantissa that fits. -/
theorem shiftToTargetExponent_of_lt {m : Nat} {e : Int} (hm : m < 2 ^ 53) (he : -1074 ≤ e) :
    shiftToTargetExponent Format.binary64 m e .exact
      = (ExtendedMantissa.ofMantissaAndAccuracy m .exact, e) := by
  have hlog := log2_le_of_lt (k := 52) hm
  have hshift : (max (totalExponent m e - 53) (-1074) - e).toNat = 0 := by
    unfold totalExponent
    omega
  simp only [shiftToTargetExponent, targetExponent_eq, shiftToExponent, hshift]
  exact Prod.ext rfl (Int.add_zero e)

/-- One bit is cut off a mantissa that was rounded up to a power of two. -/
theorem shiftToTargetExponent_of_eq {e : Int} (he : -1074 ≤ e) :
    shiftToTargetExponent Format.binary64 (2 ^ 53) e .exact
      = (ExtendedMantissa.ofMantissaAndAccuracy (2 ^ 52) .exact, e + 1) := by
  have hshift : (max (totalExponent (2 ^ 53) e - 53) (-1074) - e).toNat = 1 := by
    simp only [totalExponent, Nat.log2_two_pow]
    omega
  simp only [shiftToTargetExponent, targetExponent_eq, shiftToExponent, hshift]
  rfl

/-- The two steps of rounding: cut, then carry. -/
theorem roundWithAccuracy_eq {m : Nat} {e t : Int} (s : Sign) (a : Accuracy)
    (ht : t = max (totalExponent m e - 53) (-1074)) (he : e ≤ t) :
    roundWithAccuracy Format.binary64 s m e a
      = if h : roundedAway m e a = 0 then .zero s
        else if roundedAway m e a < 2 ^ 53 then
          .finite s (roundedAway m e a) t (Nat.pos_of_ne_zero h)
        else .finite s (2 ^ 52) (t + 1) (by decide) := by
  have hleast : -1074 ≤ t := by omega
  have hcut := roundedAway_cut a ht he
  have hexp : (shiftToTargetExponent Format.binary64 m e a).2 = t := by
    change e + ((max (totalExponent m e - 53) (-1074) - e).toNat : Int) = t
    omega
  have hround : roundWithAccuracy Format.binary64 s m e a
      = let second := shiftToTargetExponent Format.binary64 (roundedAway m e a)
          (shiftToTargetExponent Format.binary64 m e a).2 .exact
        if h : second.1.mantissa = 0 then .zero s
        else .finite s second.1.mantissa second.2 (Nat.pos_of_ne_zero h) := rfl
  rw [hround, hexp]
  generalize roundedAway m e a = left at hcut
  by_cases hlt : left < 2 ^ 53
  · simp only [shiftToTargetExponent_of_lt hlt hleast, mantissa_ofMantissaAndAccuracy, hlt,
      if_true]
  · obtain rfl : left = 2 ^ 53 := le_antisymm hcut.le (not_lt.mp hlt)
    simp only [shiftToTargetExponent_of_eq hleast, mantissa_ofMantissaAndAccuracy]
    rfl

theorem stored_roundWithAccuracy {m : Nat} {e : Int} (s : Sign) (a : Accuracy)
    (he : e ≤ max (totalExponent m e - 53) (-1074)) :
    Stored (roundWithAccuracy Format.binary64 s m e a) := by
  have hcut := roundedAway_cut a rfl he
  rw [roundWithAccuracy_eq s a rfl he]
  split_ifs with hzero hlt
  · trivial
  · exact ⟨hlt, by omega, hcut.full⟩
  · exact ⟨by decide, by omega, .inl le_rfl⟩

/-- Rounding raises the bound on the size by at most one, and to the bound of the least doubles. -/
theorem below_roundWithAccuracy {m : Nat} {e top : Int} (s : Sign) (a : Accuracy)
    (he : e ≤ max (totalExponent m e - 53) (-1074)) (htop : totalExponent m e < top)
    (hleast : -1073 ≤ top) : Below top (roundWithAccuracy Format.binary64 s m e a) := by
  have hsize := (roundedAway_cut a rfl he).size
  have hle := (roundedAway_cut a rfl he).le
  rw [roundWithAccuracy_eq s a rfl he]
  generalize hj : (totalExponent m e - max (totalExponent m e - 53) (-1074)).toNat = j at hsize
  split_ifs with hzero hlt
  · trivial
  · have hlog : (roundedAway m e a).log2 ≤ j :=
      log2_le_of_lt (lt_of_le_of_lt hsize (Nat.pow_lt_pow_right (by decide) (by omega)))
    change totalExponent _ _ ≤ top
    rw [totalExponent_eq (roundedAway m e a)]
    omega
  · have hbits : 53 ≤ j :=
      (Nat.pow_le_pow_iff_right (by decide)).mp (le_trans (not_lt.mp hlt) hsize)
    change totalExponent _ _ ≤ top
    rw [totalExponent_eq (2 ^ 52), Nat.log2_two_pow]
    omega

/-- A mantissa at the exponent of a double does not round to zero. -/
theorem roundWithAccuracy_ne_zero {m : Nat} {e : Int} (s t : Sign) (a : Accuracy)
    (he : e ≤ max (totalExponent m e - 53) (-1074)) (hm : m ≠ 0) (hleast : -1074 ≤ e) :
    roundWithAccuracy Format.binary64 s m e a ≠ .zero t := by
  rw [roundWithAccuracy_eq s a rfl he, dif_neg ((roundedAway_cut a rfl he).pos hm hleast)]
  split_ifs <;> rintro ⟨⟩

/-! ### Packing -/

theorem unpackSign_packComponents (s : Sign) (e : BitVec 11) (m : BitVec 52) :
    unpackSign (packComponents Format.binary64 s e m) = s.toBitVec := by
  change (s.toBitVec ++ e ++ m).extractLsb' 63 1 = s.toBitVec
  rw [BitVec.extractLsb'_append_eq_of_le (by decide),
    BitVec.extractLsb'_append_eq_of_le (by decide)]
  cases s <;> rfl

theorem ofBitVec_toBitVec (s : Sign) : Sign.ofBitVec s.toBitVec = s := by cases s <;> rfl

/-- The first bit of a mantissa, which is left out of the 64 bits. -/
theorem toNat_leading_append (m : BitVec 52) : (1#1 ++ m).toNat = 2 ^ 52 + m.toNat := by
  rw [BitVec.toNat_append]
  change 2 ^ 52 ||| m.toNat = _
  rw [Nat.or_comm, Nat.or_two_pow_eq_add_of_lt m.isLt, Nat.add_comm]

/-- What is read from a sign, an exponent that is neither the least nor the greatest, and a
mantissa without its first bit. -/
theorem unpack_normal (s : Sign) {e : Nat} (hpos : 0 < e) (hlt : e < 2047) (m : BitVec 52) :
    unpack Format.binary64 (packComponents Format.binary64 s (BitVec.ofNat 11 e) m)
      = .finite s (1#1 ++ m).toNat (e - 1075) (by rw [toNat_leading_append]; omega) := by
  have hval : (BitVec.ofNat 11 e).toNat = e := by
    rw [BitVec.toNat_ofNat]
    omega
  have hmost : BitVec.ofNat 11 e ≠ -1#11 := fun h => by
    have := congrArg BitVec.toNat h
    rw [hval] at this
    change e = 2047 at this
    omega
  have hleast : BitVec.ofNat 11 e ≠ 0#11 := fun h => by
    have := congrArg BitVec.toNat h
    rw [hval] at this
    change e = 0 at this
    omega
  unfold unpack
  simp only [unpackMantissa_packComponents, unpackExponent_packComponents,
    unpackSign_packComponents, ofBitVec_toBitVec, hmost, hleast, hval, if_false]
  rfl

/-- What is read from a sign, the least exponent and a mantissa other than zero. -/
theorem unpack_subnormal (s : Sign) {m : Nat} (hpos : 0 < m) (hlt : m < 2 ^ 52) :
    unpack Format.binary64 (packComponents Format.binary64 s 0#11 (BitVec.ofNat 52 m))
      = .finite s m (-1074) hpos := by
  have hval : (BitVec.ofNat 52 m).toNat = m := by
    rw [BitVec.toNat_ofNat, Nat.mod_eq_of_lt hlt]
  have hne : BitVec.ofNat 52 m ≠ 0#52 := fun h => by
    have := congrArg BitVec.toNat h
    rw [hval] at this
    change m = 0 at this
    omega
  unfold unpack
  simp only [unpackMantissa_packComponents, unpackExponent_packComponents,
    unpackSign_packComponents, ofBitVec_toBitVec, hne, hval]
  rfl

/-- Packing loses nothing of a number that is in the form of a double and not too large. -/
theorem unpack_pack {u : UnpackedFloat} (hs : Stored u) (hb : Below 1024 u) :
    (Float.Model.pack u).unpack = u := by
  cases u with
  | zero s => cases s <;> rfl
  | infinity s => exact hb.elim
  | notANumber => exact hb.elim
  | finite s m e hm =>
    obtain ⟨hlt, hleast, hfull⟩ := hs
    change unpack Format.binary64 (pack Format.binary64 (.finite s m e hm)) = _
    have hbiased : (e + (Format.binary64.exponentBias : Int)
        + (Format.binary64.mantissaBitsWithoutImplicit : Int)).toNat = (e + 1075).toNat := by
      change (e + 1023 + 52).toNat = _
      omega
    change totalExponent m e ≤ 1024 at hb
    unfold totalExponent at hb
    by_cases hlow : 2 ^ 52 ≤ m
    · have hlog : m.log2 = 52 := (Nat.log2_eq_iff (by omega)).mpr ⟨hlow, hlt⟩
      have hfits : ¬ 2 ^ 11 ≤ (e + 1075).toNat + 1 := by omega
      have hmant : (1#1 ++ BitVec.ofNat 52 m).toNat = m := by
        rw [toNat_leading_append, BitVec.toNat_ofNat]
        omega
      unfold pack
      simp only [hbiased, hfits, hlog, if_false]
      rw [if_pos (by rfl), unpack_normal s (by omega) (by omega)]
      congr 1
      omega
    · obtain rfl : e = -1074 := hfull.resolve_left hlow
      have hlog : m.log2 < 52 := (Nat.log2_lt (by omega)).mpr (not_le.mp hlow)
      have hshort : m.log2 + 1 ≠ Format.binary64.mantissaBits := by
        change m.log2 + 1 ≠ 53
        omega
      unfold pack
      simp only [hbiased, hshort, if_false]
      exact unpack_subnormal s hm (not_le.mp hlow)

/-- A number that is too large becomes an infinity. -/
theorem unpack_pack_large (s : Sign) {m : Nat} {e : Int} (hm : 0 < m)
    (hs : Stored (.finite s m e hm)) (hb : 1024 < totalExponent m e) :
    (Float.Model.pack (.finite s m e hm)).unpack = .infinity s := by
  have hlog := log2_le_of_lt (k := 52) hs.1
  have hlarge : 2 ^ 11 ≤ (e + (Format.binary64.exponentBias : Int)
      + (Format.binary64.mantissaBitsWithoutImplicit : Int)).toNat + 1 := by
    change 2 ^ 11 ≤ (e + 1023 + 52).toNat + 1
    unfold totalExponent at hb
    omega
  change unpack Format.binary64 (pack Format.binary64 (.finite s m e hm)) = _
  unfold pack
  simp only [hlarge, if_true]
  cases s <;> rfl

/-- Packing makes no zero of another number. -/
theorem unpack_pack_ne_zero {u : UnpackedFloat} (hs : Stored u) (hne : ∀ s, u ≠ .zero s)
    (s : Sign) : (Float.Model.pack u).unpack ≠ .zero s := by
  cases u with
  | zero t => exact absurd rfl (hne t)
  | infinity t => cases t <;> rintro ⟨⟩
  | notANumber => rintro ⟨⟩
  | finite t m e hm =>
    by_cases hb : totalExponent m e ≤ 1024
    · rw [unpack_pack hs hb]
      exact hne s
    · rw [unpack_pack_large t hm hs (not_le.mp hb)]
      rintro ⟨⟩

/-- What is read off 64 bits has the form of a double. -/
theorem stored_unpack (b : BitVec 64) : Stored (unpack Format.binary64 b) := by
  have hm := (@unpackMantissa Format.binary64 b).isLt
  unfold unpack
  simp only []
  split_ifs with hmost hinf hleast hzero
  · trivial
  · trivial
  · trivial
  · rw [hleast]
    exact ⟨lt_trans hm (by decide), by decide, .inr rfl⟩
  · have hmant := toNat_leading_append (@unpackMantissa Format.binary64 b)
    have hpos : (@unpackExponent Format.binary64 b).toNat ≠ 0 := fun h =>
      hleast (BitVec.eq_of_toNat_eq h)
    refine ⟨?_, ?_, .inl ?_⟩
    · omega
    · change -1074 ≤ ((@unpackExponent Format.binary64 b).toNat : Int) - (1023 + 52)
      omega
    · omega

end Colourway.Number
