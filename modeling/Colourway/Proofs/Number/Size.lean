import Colourway.Number.Arithmetic
import Colourway.Proofs.Number.Double

/-!
# Sizes of the results of arithmetic

Each operation on doubles bounds the size of its result by the sizes of its operands, so that a
computation of bounded depth on bounded doubles stays finite. The bounds are powers of two and
leave a bit for every rounding.
-/

namespace Colourway.Number

open Float.Model (Format totalExponent UnpackedFloat)
open Float.Model.UnpackedFloat

/-! ### Exact integers -/

/-- An integer at an exponent is rounded like a mantissa that is long enough. -/
theorem round_eq (s : Sign) {m : Nat} (e : Int) (hm : m ≠ 0) :
    ∃ k : Nat, round Format.binary64 s m e
        = roundWithAccuracy Format.binary64 s (m <<< k) (e - k) .exact
      ∧ totalExponent (m <<< k) (e - k) = totalExponent m e
      ∧ e - k ≤ max (totalExponent m e - 53) (-1074)
      ∧ (-1074 ≤ e → -1074 ≤ e - k) := by
  refine ⟨(e - max (totalExponent m e - 53) (-1074)).toNat, rfl, ?_, by omega, by omega⟩
  rw [totalExponent_eq, totalExponent_eq m e, log2_shiftLeft hm]
  omega

theorem normalize_eq {m : Int} (e : Int) (z : Sign) (hm : m ≠ 0) :
    ∃ s, normalize Format.binary64 m e z = round Format.binary64 s m.natAbs e := by
  unfold UnpackedFloat.normalize
  rcases lt_trichotomy m 0 with hneg | hzero | hpos
  · rw [Int.compare_eq_lt.mpr hneg]
    exact ⟨.negative, by rw [show (-m).toNat = m.natAbs by omega]⟩
  · exact absurd hzero hm
  · rw [Int.compare_eq_gt.mpr hpos]
    exact ⟨.positive, by rw [show m.toNat = m.natAbs by omega]⟩

theorem stored_normalize (m e : Int) (z : Sign) : Stored (normalize Format.binary64 m e z) := by
  by_cases hm : m = 0
  · subst hm
    trivial
  · obtain ⟨s, hs⟩ := normalize_eq e z hm
    obtain ⟨k, hk, htotal, hle, -⟩ := round_eq s e (Int.natAbs_ne_zero.mpr hm)
    rw [hs, hk]
    exact stored_roundWithAccuracy s _ (by omega)

theorem below_normalize {m e top : Int} (z : Sign) (hm : m.natAbs < 2 ^ (top - 1 - e).toNat)
    (htop : -1073 ≤ top) : Below top (normalize Format.binary64 m e z) := by
  by_cases hzero : m = 0
  · subst hzero
    trivial
  · have hne := Int.natAbs_ne_zero.mpr hzero
    obtain ⟨s, hs⟩ := normalize_eq e z hzero
    obtain ⟨k, hk, htotal, hle, -⟩ := round_eq s e hne
    have hsize := totalExponent_le hne hm
    rw [hs, hk]
    exact below_roundWithAccuracy s _ (by omega) (by omega) htop

theorem normalize_ne_zero {m e : Int} (z t : Sign) (hm : m ≠ 0) (he : -1074 ≤ e) :
    normalize Format.binary64 m e z ≠ .zero t := by
  have hne := Int.natAbs_ne_zero.mpr hm
  obtain ⟨s, hs⟩ := normalize_eq e z hm
  obtain ⟨k, hk, htotal, hle, hleast⟩ := round_eq s e hne
  rw [hs, hk]
  refine roundWithAccuracy_ne_zero s t _ (by omega) ?_ (hleast he)
  rw [Nat.shiftLeft_eq]
  exact Nat.mul_ne_zero hne (Nat.two_pow_pos k).ne'

/-! ### Operations -/

theorem natAbs_apply (s : Sign) (m : Nat) : (s.apply m).natAbs = m := by
  cases s with
  | negative => exact Int.natAbs_neg _
  | positive => exact Int.natAbs_natCast m

/-- The sum of two mantissas brought to the smaller exponent. -/
theorem aligned_lt {m n : Nat} {d e a b top : Int} (hm : totalExponent m d ≤ a)
    (hn : totalExponent n e ≤ b) (ha : a + 2 ≤ top) (hb : b + 2 ≤ top) :
    m <<< (d - min d e).toNat + n <<< (e - min d e).toNat
      < 2 ^ (top - 1 - min d e).toNat := by
  have hm' := shifted_lt (min d e) (le_trans hm (by omega : a ≤ top - 2)) (by omega)
  have hn' := shifted_lt (min d e) (le_trans hn (by omega : b ≤ top - 2)) (by omega)
  have hle : min d e ≤ top - 2 := by
    unfold totalExponent at hm
    omega
  have hsucc : (top - 1 - min d e).toNat = (top - 2 - min d e).toNat + 1 := by omega
  rw [hsucc, Nat.pow_succ]
  omega

theorem stored_add {u v : UnpackedFloat} (hu : Stored u) (hv : Stored v) :
    Stored (add Format.binary64 u v) := by
  cases u <;> cases v <;> first
    | exact hu
    | exact hv
    | exact stored_normalize _ _ _
    | (rename_i s t; cases s <;> cases t <;> trivial)

theorem below_add {u v : UnpackedFloat} {a b top : Int} (hu : Below a u) (hv : Below b v)
    (ha : a + 2 ≤ top) (hb : b + 2 ≤ top) (htop : -1073 ≤ top) :
    Below top (add Format.binary64 u v) := by
  cases u with
  | infinity s => exact hu.elim
  | notANumber => exact hu.elim
  | zero s =>
    cases v with
    | infinity t => exact hv.elim
    | notANumber => exact hv.elim
    | zero t => cases s <;> cases t <;> trivial
    | finite t n e hn => exact Below.mono hv (by omega)
  | finite s m d hm =>
    cases v with
    | infinity t => exact hv.elim
    | notANumber => exact hv.elim
    | zero t => exact Below.mono hu (by omega)
    | finite t n e hn =>
      refine below_normalize _ ?_ htop
      refine lt_of_le_of_lt (Int.natAbs_add_le _ _) ?_
      rw [natAbs_apply, natAbs_apply]
      exact aligned_lt hu hv ha hb

theorem stored_neg {u : UnpackedFloat} (hu : Stored u) : Stored u.neg := by
  cases u <;> exact hu

theorem below_neg {u : UnpackedFloat} {top : Int} (hu : Below top u) : Below top u.neg := by
  cases u <;> exact hu

/-- A difference is a sum with the sign turned. -/
theorem sub_eq_add_neg (u v : UnpackedFloat) :
    sub Format.binary64 u v = add Format.binary64 u v.neg := by
  have happly (s : Sign) (n : Int) : (-s).apply n = -s.apply n := by
    cases s with
    | negative => exact (Int.neg_neg n).symm
    | positive => rfl
  cases u <;> cases v <;> first
    | rfl
    | (simp only [sub, add, neg, happly, Int.sub_eq_add_neg])

/-- Stored mantissas multiply to at least one that is long enough, or at a very small exponent. -/
theorem product_exponent {s t : Sign} {m n : Nat} {d e : Int} {hm : 0 < m} {hn : 0 < n}
    (hu : Stored (.finite s m d hm)) (hv : Stored (.finite t n e hn)) :
    d + e ≤ max (totalExponent (m * n) (d + e) - 53) (-1074) := by
  obtain ⟨-, hd, hfirst⟩ := hu
  obtain ⟨-, he, hsecond⟩ := hv
  have hlong (h : 2 ^ 52 ≤ m * n) : 52 ≤ (m * n).log2 := by
    by_contra hlt
    exact absurd (lt_of_lt_of_le Nat.lt_log2_self
      (Nat.pow_le_pow_right (by decide) (by omega : (m * n).log2 + 1 ≤ 52))) (not_lt.mpr h)
  unfold totalExponent
  rcases hfirst with hfirst | rfl
  · have := hlong (le_trans hfirst (Nat.le_mul_of_pos_right m hn))
    omega
  · rcases hsecond with hsecond | rfl
    · have := hlong (le_trans hsecond (Nat.le_mul_of_pos_left n hm))
      omega
    · omega

theorem stored_mul {u v : UnpackedFloat} (hu : Stored u) (hv : Stored v) :
    Stored (mul Format.binary64 u v) := by
  cases u <;> cases v <;> first
    | trivial
    | exact stored_roundWithAccuracy _ _ (product_exponent hu hv)

theorem below_mul {u v : UnpackedFloat} {a b top : Int} (hu : Stored u) (hv : Stored v)
    (ha : Below a u) (hb : Below b v) (hab : a + b + 1 ≤ top) (htop : -1073 ≤ top) :
    Below top (mul Format.binary64 u v) := by
  cases u with
  | infinity s => exact ha.elim
  | notANumber => exact ha.elim
  | zero s =>
    cases v with
    | infinity t => exact hb.elim
    | notANumber => exact hb.elim
    | zero t => trivial
    | finite t n e hn => trivial
  | finite s m d hm =>
    cases v with
    | infinity t => exact hb.elim
    | notANumber => exact hb.elim
    | zero t => trivial
    | finite t n e hn =>
      refine below_roundWithAccuracy _ _ (product_exponent hu hv) ?_ htop
      have hlt : m * n < 2 ^ (m.log2 + n.log2 + 1 + 1) := by
        rw [show m.log2 + n.log2 + 1 + 1 = (m.log2 + 1) + (n.log2 + 1) by omega, Nat.pow_add]
        exact Nat.mul_lt_mul_of_lt_of_lt Nat.lt_log2_self Nat.lt_log2_self
      have hlog := log2_le_of_lt hlt
      change totalExponent m d ≤ a at ha
      change totalExponent n e ≤ b at hb
      unfold totalExponent at *
      omega

/-- The whole part of a quotient has the length of the dividend less that of the divisor, or one
bit more or less. -/
theorem log2_div_bounds {m n : Nat} (hm : m ≠ 0) (hn : n ≠ 0) :
    m.log2 ≤ (m / n).log2 + n.log2 + 1 ∧ (m / n ≠ 0 → (m / n).log2 + n.log2 ≤ m.log2) := by
  constructor
  · have hlt : m < 2 ^ ((m / n).log2 + n.log2 + 1 + 1) := calc
      m < n * (m / n + 1) := Nat.lt_mul_div_succ m (Nat.pos_of_ne_zero hn)
      _ ≤ 2 ^ (n.log2 + 1) * 2 ^ ((m / n).log2 + 1) :=
        Nat.mul_le_mul (le_of_lt Nat.lt_log2_self) Nat.lt_log2_self
      _ = 2 ^ ((m / n).log2 + n.log2 + 1 + 1) := by
        rw [← Nat.pow_add]
        congr 1
        omega
    exact log2_le_of_lt hlt
  · intro hq
    rw [Nat.le_log2 hm, Nat.pow_add]
    calc 2 ^ (m / n).log2 * 2 ^ n.log2
      _ ≤ m / n * n := Nat.mul_le_mul (Nat.log2_self_le hq) (Nat.log2_self_le hn)
      _ ≤ m := Nat.div_mul_le_self m n

/-- The quotient that is rounded: it is long enough, and its size is that of the dividend less
that of the divisor, up to one bit. -/
theorem divCore_bounds {m n : Nat} (d e : Int) (hm : 0 < m) (hn : 0 < n) :
    (divCore Format.binary64 m d n e).2.1
        ≤ max (totalExponent (divCore Format.binary64 m d n e).1
            (divCore Format.binary64 m d n e).2.1 - 53) (-1074)
      ∧ totalExponent (divCore Format.binary64 m d n e).1 (divCore Format.binary64 m d n e).2.1
        ≤ max (totalExponent m d - totalExponent n e + 1) (-1073) := by
  set low := min (d - e) (max (totalExponent m d - totalExponent n e - 53) (-1074)) with hlow
  have hcore : divCore Format.binary64 m d n e
      = (m <<< (d - e - low).toNat / n, low,
        accuracyOfFraction (m <<< (d - e - low).toNat % n) n) := rfl
  rw [hcore]
  have hlog := log2_shiftLeft hm.ne' (d - e - low).toNat
  have hshift : m <<< (d - e - low).toNat ≠ 0 := by
    rw [Nat.shiftLeft_eq]
    exact Nat.mul_ne_zero hm.ne' (Nat.two_pow_pos _).ne'
  obtain ⟨hlower, hupper⟩ := log2_div_bounds hshift hn.ne'
  rw [hlog] at hlower hupper
  generalize m <<< (d - e - low).toNat / n = q at *
  unfold totalExponent at *
  constructor
  · simp only []
    omega
  · simp only []
    by_cases hq : q = 0
    · subst hq
      simp only [Nat.log2_zero]
      omega
    · have := hupper hq
      omega

theorem stored_div {u v : UnpackedFloat} : Stored (div Format.binary64 u v) := by
  cases u <;> cases v <;> first
    | trivial
    | exact stored_roundWithAccuracy _ _ (divCore_bounds _ _ ‹_› ‹_›).1

theorem below_div {u v : UnpackedFloat} {a b top : Int} (ha : Below a u)
    (hb : ∃ s n e hn, v = .finite s n e hn ∧ b ≤ totalExponent n e) (hab : a - b + 2 ≤ top)
    (htop : -1072 ≤ top) : Below top (div Format.binary64 u v) := by
  obtain ⟨t, n, e, hn, rfl, hb⟩ := hb
  cases u with
  | infinity s => exact ha.elim
  | notANumber => exact ha.elim
  | zero s => trivial
  | finite s m d hm =>
    obtain ⟨hlong, hsize⟩ := divCore_bounds d e hm hn
    change totalExponent m d ≤ a at ha
    have hlt := lt_of_le_of_lt hsize (by omega : _ < top)
    exact below_roundWithAccuracy _ _ hlong hlt (by omega)

/-! ### Doubles -/

/-- A finite double whose size lies below `2 ^ top`. -/
def Bounded (top : Int) (x : Float) : Prop := Below top x.toModel.unpack

instance (top : Int) : DecidablePred (Bounded top) := fun x =>
  inferInstanceAs (Decidable (Below top x.toModel.unpack))

theorem Bounded.mono {low top : Int} {x : Float} (h : Bounded low x) (hle : low ≤ top) :
    Bounded top x :=
  Below.mono h hle

theorem stored_double (x : Float) : Stored x.toModel.unpack := stored_unpack _

/-- A result that is packed keeps its bound. -/
theorem bounded_pack {u : UnpackedFloat} {top : Int} (hs : Stored u) (hb : Below top u)
    (htop : top ≤ 1024) : Bounded top (.ofModel (.pack u)) := by
  change Below top (Float.Model.pack u).unpack
  rw [unpack_pack hs (hb.mono htop)]
  exact hb

section Operations

variable {x y : Float} {a b top : Int}

theorem bounded_add (hx : Bounded a x) (hy : Bounded b y) (ha : a + 2 ≤ top) (hb : b + 2 ≤ top)
    (hleast : -1073 ≤ top) (hmost : top ≤ 1024) : Bounded top (x + y) :=
  bounded_pack (stored_add (stored_double x) (stored_double y)) (below_add hx hy ha hb hleast) hmost

theorem bounded_neg (hx : Bounded top x) (hmost : top ≤ 1024) : Bounded top (-x) :=
  bounded_pack (stored_neg (stored_double x)) (below_neg hx) hmost

theorem bounded_sub (hx : Bounded a x) (hy : Bounded b y) (ha : a + 2 ≤ top) (hb : b + 2 ≤ top)
    (hleast : -1073 ≤ top) (hmost : top ≤ 1024) : Bounded top (x - y) := by
  have hsub : (x - y).toModel
      = .pack (sub Format.binary64 x.toModel.unpack y.toModel.unpack) := rfl
  rw [sub_eq_add_neg] at hsub
  unfold Bounded
  rw [hsub]
  exact bounded_pack (stored_add (stored_double x) (stored_neg (stored_double y)))
    (below_add hx (below_neg hy) ha hb hleast) hmost

theorem bounded_mul (hx : Bounded a x) (hy : Bounded b y) (hab : a + b + 1 ≤ top)
    (hleast : -1073 ≤ top) (hmost : top ≤ 1024) : Bounded top (x * y) :=
  bounded_pack (stored_mul (stored_double x) (stored_double y))
    (below_mul (stored_double x) (stored_double y) hx hy hab hleast) hmost

theorem bounded_div (hx : Bounded a x)
    (hy : ∃ s n e hn, y.toModel.unpack = .finite s n e hn ∧ b ≤ totalExponent n e)
    (hab : a - b + 2 ≤ top) (hleast : -1072 ≤ top) (hmost : top ≤ 1024) : Bounded top (x / y) :=
  bounded_pack stored_div (below_div hx hy hab hleast) hmost

end Operations

/-- A small integer is written as a decimal number without a fraction. -/
theorem ofNat_eq_mul {n : Nat} (hn : n < 2 ^ 53) :
    Float.ofNat n = n.toUInt64.toFloat * Float.exactlyRepresentablePowersOfTen[0] := by
  change Float.ofScientific n false 0 = _
  rw [Float.ofScientific, dif_pos ⟨hn, by decide⟩]
  rfl

theorem bounded_ofNat {n k : Nat} (hn : n < 2 ^ k) (hk : k ≤ 53) :
    Bounded (k + 3) (Float.ofNat n) := by
  have hlt : n < 2 ^ 53 := lt_of_lt_of_le hn (Nat.pow_le_pow_right (by decide) hk)
  have hone : Bounded 1 Float.exactlyRepresentablePowersOfTen[0] := by decide +kernel
  have hnat : Bounded (k + 1) n.toUInt64.toFloat := by
    have hval : n.toUInt64.toNat = n := Nat.mod_eq_of_lt (lt_trans hlt (by decide))
    refine bounded_pack (stored_normalize _ _ _) (below_normalize _ ?_ (by omega)) (by omega)
    rw [hval, Int.natAbs_natCast, show ((k : Int) + 1 - 1 - 0).toNat = k by omega]
    exact hn
  rw [ofNat_eq_mul hlt]
  exact bounded_mul hnat hone (by omega) (by omega) (by omega)

end Colourway.Number
