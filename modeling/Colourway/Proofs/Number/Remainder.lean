import Colourway.Proofs.Number.Size

/-!
# Readings, remainders and differences

A double reads as finite, infinite or not a number by its exponent field. The remainder of a finite
double by a small integer is finite; of any other double it is not a number. A difference is zero
only of equal doubles, since the doubles nearest to zero lie as close together as the least ones.
-/

namespace Colourway.Number

open Float.Model (Format totalExponent UnpackedFloat)
open Float.Model.UnpackedFloat

/-! ### Readings -/

theorem toNat_unpackExponent (b : BitVec 64) :
    (@unpackExponent Format.binary64 b).toNat = b.toNat / 2 ^ 52 % 2 ^ 11 := by
  change (b.extractLsb' 52 11).toNat = _
  rw [BitVec.extractLsb'_toNat, Nat.shiftRight_eq_div_pow]

theorem toNat_unpackMantissa (b : BitVec 64) :
    (@unpackMantissa Format.binary64 b).toNat = b.toNat % 2 ^ 52 := by
  change (b.extractLsb' 0 52).toNat = _
  rw [BitVec.extractLsb'_toNat, Nat.shiftRight_zero]

/-- What a double reads as is decided by its unpacked form. -/
theorem reading_cases (x : Float) :
    (x.toModel.unpack = .notANumber ∧ Reading.of x = .nan)
      ∨ (∃ s negative, x.toModel.unpack = .infinity s ∧ Reading.of x = .infinite negative)
      ∨ (x.isFinite = true ∧ ∃ p, Reading.of x = .finite p) := by
  have hexp := toNat_unpackExponent x.toModel.toBits.toBitVec
  have hmant := toNat_unpackMantissa x.toModel.toBits.toBitVec
  have hunpack : x.toModel.unpack = unpack Format.binary64 x.toModel.toBits.toBitVec := rfl
  have hfinite : x.isFinite = x.toModel.unpack.isFinite := rfl
  have hread : Reading.of x
      = if x.toModel.toBits.toBitVec.toNat / 2 ^ 52 % 2 ^ 11 = 2047 then
          if x.toModel.toBits.toBitVec.toNat % 2 ^ 52 = 0 then
            .infinite (x.toModel.toBits.toBitVec.toNat / 2 ^ 63 == 1)
          else .nan
        else if x.toModel.toBits.toBitVec.toNat / 2 ^ 52 % 2 ^ 11 = 0 then
          .finite ⟨_, _, _, _⟩
        else .finite ⟨_, _, _, _⟩ := rfl
  rw [hfinite, hunpack, hread, ← hexp, ← hmant, unpack]
  generalize x.toModel.toBits.toBitVec = b
  simp only []
  by_cases hmost : @unpackExponent Format.binary64 b = -1#11
  · have hmost' : (@unpackExponent Format.binary64 b).toNat = 2047 := by rw [hmost]; rfl
    rw [if_pos hmost, if_pos hmost']
    by_cases hzero : @unpackMantissa Format.binary64 b = 0#52
    · have hzero' : (@unpackMantissa Format.binary64 b).toNat = 0 := by rw [hzero]; rfl
      rw [if_pos hzero, if_pos hzero']
      exact .inr (.inl ⟨_, _, rfl, rfl⟩)
    · have hzero' : (@unpackMantissa Format.binary64 b).toNat ≠ 0 := fun h =>
        hzero (BitVec.eq_of_toNat_eq h)
      rw [if_neg hzero, if_neg hzero']
      exact .inl ⟨rfl, rfl⟩
  · have hmost' : (@unpackExponent Format.binary64 b).toNat ≠ 2047 := fun h =>
      hmost (BitVec.eq_of_toNat_eq h)
    rw [if_neg hmost, if_neg hmost']
    refine .inr (.inr ⟨?_, ?_⟩)
    · split_ifs <;> rfl
    · split_ifs <;> exact ⟨_, rfl⟩

theorem reading_isFinite {x : Float} : (∃ p, Reading.of x = .finite p) ↔ x.isFinite = true := by
  have hfinite : x.isFinite = x.toModel.unpack.isFinite := rfl
  rcases reading_cases x with ⟨hx, hr⟩ | ⟨s, n, hx, hr⟩ | ⟨hx, hr⟩
  · rw [hfinite, hx, hr]
    exact ⟨nofun, nofun⟩
  · rw [hfinite, hx, hr]
    exact ⟨nofun, nofun⟩
  · exact iff_of_true hr hx

theorem Bounded.reading {top : Int} {x : Float} (h : Bounded top x) :
    ∃ p, Reading.of x = .finite p := by
  rcases reading_cases x with ⟨hx, hr⟩ | ⟨s, n, hx, hr⟩ | ⟨hx, hr⟩
  · unfold Bounded at h
    rw [hx] at h
    exact h.elim
  · unfold Bounded at h
    rw [hx] at h
    exact h.elim
  · exact hr

/-- The parts of a finite double. -/
theorem reading_bounds {x : Float} {p : Parts} (h : Reading.of x = .finite p) :
    p.significand < 2 ^ 53 ∧ -1074 ≤ p.exponent := by
  unfold Reading.of at h
  simp only [show ∀ k, Nat.pow 2 k = 2 ^ k from fun _ => rfl] at h
  split_ifs at h with hmost hzero hleast
  · obtain rfl := Reading.finite.inj h
    exact ⟨by simp only []; omega, le_rfl⟩
  · obtain rfl := Reading.finite.inj h
    simp only [Int.ofNat_eq_natCast]
    exact ⟨by omega, by omega⟩

/-! ### Remainders -/

/-- The exponent field bounds a double that is given by its bits. -/
theorem bounded_ofBits {b : UInt64} {top : Int} (hb : b.toNat / 2 ^ 52 % 2 ^ 11 < 2047)
    (htop : ((b.toNat / 2 ^ 52 % 2 ^ 11 : Nat) : Int) ≤ top + 1022) (hleast : -1022 ≤ top)
    (hmost : top ≤ 1024) : Bounded top (.ofBits b) := by
  refine bounded_pack (stored_unpack _) ?_ hmost
  have hexp := toNat_unpackExponent b.toBitVec
  have hm := (@unpackMantissa Format.binary64 b.toBitVec).isLt
  have hfield : b.toBitVec.toNat = b.toNat := rfl
  rw [hfield] at hexp
  rw [unpack]
  simp only []
  split_ifs with hones hinf hzeros hzero
  · rw [hones] at hexp
    change 2047 = _ at hexp
    omega
  · rw [hones] at hexp
    change 2047 = _ at hexp
    omega
  · trivial
  · have hlog := log2_le_of_lt (k := 51) hm
    change totalExponent _ _ ≤ top
    rw [totalExponent_eq, hzeros]
    change _ + (((0 : Nat) : Int) - (1023 + 52) + 1) ≤ top
    omega
  · have hmant := toNat_leading_append (@unpackMantissa Format.binary64 b.toBitVec)
    have hlog := log2_le_of_lt (k := 52) (m := 2 ^ 52 + _)
      (by omega : 2 ^ 52 + (@unpackMantissa Format.binary64 b.toBitVec).toNat < 2 ^ 53)
    change totalExponent _ (((@unpackExponent Format.binary64 b.toBitVec).toNat : Int)
      - (1023 + 52)) ≤ top
    rw [totalExponent_eq, hmant, hexp]
    omega

theorem bounded_powerOfTwo {e : Int} (hlow : -1074 ≤ e) (hhigh : e < 0) :
    Bounded 0 (powerOfTwo e) := by
  have hnat {n : Nat} (hn : n < 2 ^ 64) : n.toUInt64.toNat = n := Nat.mod_eq_of_lt hn
  unfold powerOfTwo
  simp only [show ∀ k, Nat.pow 2 k = 2 ^ k from fun _ => rfl]
  split_ifs with hnormal
  · have hval := hnat (n := (e + 1023).toNat * 2 ^ 52) (by omega)
    refine bounded_ofBits ?_ ?_ (by omega) (by omega)
    · rw [hval]
      omega
    · rw [hval]
      omega
  · have hlt : 2 ^ (e + 1074).toNat < 2 ^ 52 := Nat.pow_lt_pow_right (by decide) (by omega)
    have hval := hnat (n := 2 ^ (e + 1074).toNat) (by omega)
    refine bounded_ofBits ?_ ?_ (by omega) (by omega)
    · rw [hval, Nat.div_eq_of_lt hlt]
      decide
    · rw [hval, Nat.div_eq_of_lt hlt]
      decide

theorem bounded_remainder {x : Float} {p : Parts} (h : Reading.of x = .finite p) {n : Nat}
    (hpos : 0 < n) (hn : n ≤ 2 ^ 9) : Bounded 57 (p.remainder n) := by
  obtain ⟨hsig, hexp⟩ := reading_bounds h
  unfold Parts.remainder
  split_ifs with hwhole
  · have hlt : p.significand * Nat.pow 2 p.exponent.toNat % n < 2 ^ 9 :=
      lt_of_lt_of_le (Nat.mod_lt _ hpos) hn
    exact (bounded_ofNat hlt (by decide)).mono (by decide)
  · have hlt : p.significand % (n * Nat.pow 2 (-p.exponent).toNat) < 2 ^ 53 :=
      lt_of_le_of_lt (Nat.mod_le _ _) hsig
    exact bounded_mul (bounded_ofNat hlt le_rfl) (bounded_powerOfTwo hexp (not_le.mp hwhole))
      (by decide) (by decide) (by decide)

/-- The remainder of a finite double is finite, with room for a few operations. -/
theorem bounded_floorMod {x : Float} {n : Nat} (hx : x.isFinite = true) (hpos : 0 < n)
    (hn : n ≤ 2 ^ 9) : Bounded 59 (floorMod x n) := by
  obtain ⟨p, hp⟩ := reading_isFinite.mpr hx
  have hr := bounded_remainder hp hpos hn
  unfold floorMod
  rw [hp]
  simp only []
  split_ifs with hzero hneg
  · decide +kernel
  · have hlt : n < 2 ^ 10 := by omega
    exact bounded_add (bounded_neg hr (by decide)) (bounded_ofNat hlt (by decide)) (by decide)
      (by decide) (by decide) (by decide)
  · exact hr.mono (by decide)

/-- The remainder of a double that is not finite is not a number. -/
theorem floorMod_of_not_finite {x : Float} (n : Nat) (hx : x.isFinite = false) :
    floorMod x n = 0.0 / 0.0 := by
  have hnot : ¬ ∃ p, Reading.of x = .finite p := fun h =>
    Bool.noConfusion (hx.symm.trans (reading_isFinite.mp h))
  unfold floorMod
  split
  · exact absurd ⟨_, ‹_›⟩ hnot
  · rfl

/-! ### Comparisons -/

theorem lt_iff_compare {x y : Float} :
    x < y ↔ x.toModel.unpack.compare y.toModel.unpack = some .lt := by
  change decide ((x.toModel.unpack.compare y.toModel.unpack == some .lt) = true) = true ↔ _
  rw [decide_eq_true_iff, beq_iff_eq]

theorem beq_iff_compare {x y : Float} :
    (x == y) = true ↔ x.toModel.unpack.compare y.toModel.unpack = some .eq := by
  change (x.toModel.unpack.compare y.toModel.unpack == some .eq) = true ↔ _
  rw [beq_iff_eq]

theorem unpack_zero : (0.0 : Float).toModel.unpack = .zero .positive := by with_unfolding_all rfl

/-- A double equals zero in both of its forms. -/
theorem beq_zero_iff {x : Float} : (x == 0.0) = true ↔ ∃ s, x.toModel.unpack = .zero s := by
  rw [beq_iff_compare, unpack_zero]
  cases x.toModel.unpack with
  | zero s => exact iff_of_true rfl ⟨s, rfl⟩
  | infinity s => cases s <;> exact ⟨nofun, nofun⟩
  | notANumber => exact ⟨nofun, nofun⟩
  | finite s m e hm => cases s <;> exact ⟨nofun, nofun⟩

/-! ### Differences -/

/-- Two stored mantissas of one value have the same exponent. -/
theorem exponent_le_of_aligned {s t : Sign} {m n : Nat} {d e : Int} {hm : 0 < m} {hn : 0 < n}
    (hu : Stored (.finite s m d hm)) (hv : Stored (.finite t n e hn))
    (h : m <<< (d - min d e).toNat = n <<< (e - min d e).toNat) : e ≤ d := by
  obtain ⟨hmlt, hd, -⟩ := hu
  obtain ⟨-, he, hfull⟩ := hv
  by_contra hlt
  have hle : 2 ^ 52 ≤ n := hfull.resolve_right (by omega)
  have hpow : 2 ^ 1 ≤ 2 ^ (e - min d e).toNat := Nat.pow_le_pow_right (by decide) (by omega)
  have hmul := Nat.mul_le_mul hle hpow
  rw [Nat.shiftLeft_eq, Nat.shiftLeft_eq, show (d - min d e).toNat = 0 by omega, Nat.pow_zero,
    Nat.mul_one] at h
  omega

/-- Before rounding, a difference of stored mantissas is zero only if they are one. -/
theorem eq_of_sub_finite {s t r : Sign} {m n : Nat} {d e : Int} {hm : 0 < m} {hn : 0 < n}
    (hu : Stored (.finite s m d hm)) (hv : Stored (.finite t n e hn))
    (h : sub Format.binary64 (.finite s m d hm) (.finite t n e hn) = .zero r) :
    s = t ∧ m = n ∧ d = e := by
  have hdiff : s.apply (m <<< (d - min d e).toNat) - t.apply (n <<< (e - min d e).toNat) = 0 := by
    by_contra hne
    exact normalize_ne_zero .positive r hne (le_min hu.2.1 hv.2.1) h
  have hpos {k l : Nat} (hk : 0 < k) : 0 < k <<< l := by
    rw [Nat.shiftLeft_eq]
    exact Nat.mul_pos hk (Nat.two_pow_pos l)
  have hm' := hpos (l := (d - min d e).toNat) hm
  have hn' := hpos (l := (e - min d e).toNat) hn
  have hsame : s = t ∧ m <<< (d - min d e).toNat = n <<< (e - min d e).toNat := by
    cases s <;> cases t <;> simp only [Sign.apply] at hdiff <;>
      first | omega | exact ⟨rfl, by omega⟩
  obtain ⟨rfl, halign⟩ := hsame
  obtain rfl : d = e := le_antisymm
    (exponent_le_of_aligned hv hu (by rw [min_comm e d]; exact halign.symm))
    (exponent_le_of_aligned hu hv halign)
  exact ⟨rfl, by simpa using halign, rfl⟩

theorem compare_eq_of_sub {u v : UnpackedFloat} {r : Sign} (hu : Stored u) (hv : Stored v)
    (h : sub Format.binary64 u v = .zero r) : v.compare u = some .eq := by
  cases u with
  | notANumber => cases v <;> exact UnpackedFloat.noConfusion h
  | infinity s =>
    cases v with
    | infinity t => cases s <;> cases t <;> exact UnpackedFloat.noConfusion h
    | _ => exact UnpackedFloat.noConfusion h
  | zero s =>
    cases v with
    | zero t => rfl
    | _ => exact UnpackedFloat.noConfusion h
  | finite s m d hm =>
    cases v with
    | finite t n e hn =>
      obtain ⟨rfl, rfl, rfl⟩ := eq_of_sub_finite hu hv h
      cases s <;> simp [UnpackedFloat.compare]
    | _ => exact UnpackedFloat.noConfusion h

/-- **A difference of doubles is zero only if they are equal.** -/
theorem beq_of_sub_eq_zero {x y : Float} (h : (x - y == 0.0) = true) : (y == x) = true := by
  obtain ⟨z, hz⟩ := beq_zero_iff.mp h
  have hx := stored_double x
  have hy := stored_double y
  have hstored : Stored (sub Format.binary64 x.toModel.unpack y.toModel.unpack) := by
    rw [sub_eq_add_neg]
    exact stored_add hx (stored_neg hy)
  -- packing makes no zero, so the difference is zero before it
  have hsub : ∃ r, sub Format.binary64 x.toModel.unpack y.toModel.unpack = .zero r := by
    by_contra hne
    exact unpack_pack_ne_zero hstored (fun s hs => hne ⟨s, hs⟩) z hz
  obtain ⟨r, hr⟩ := hsub
  exact beq_iff_compare.mpr (compare_eq_of_sub hx hy hr)

end Colourway.Number
