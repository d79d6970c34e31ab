import Colourway.Document.Shown
import Mathlib.Data.List.Basic
import Mathlib.Tactic.NormNum

/-!
# Values that cannot be told

An integer is told in decimal digits unless it takes more of them than the limit
(`Number.intText?_eq_none_iff`).  No other scalar is left untold, and a list or map only if it holds
such an integer (`Document.spliced?_eq_none_iff`).  `longInteger` is one.
-/

namespace Colourway

/-- An integer cannot be told exactly if it needs more digits than the limit. -/
theorem Number.intText?_eq_none_iff {n : Int} :
    Number.intText? n = none ↔ 10 ^ Number.digitLimit ≤ n.natAbs := by
  have hlength : (Number.natText n.natAbs).length ≤ Number.digitLimit ↔
      n.natAbs < 10 ^ Number.digitLimit := by
    rw [Number.natText, List.length_map]
    exact Nat.length_toDigits_le_iff (by decide) (by decide)
  rw [Number.intText?, ite_eq_right_iff, hlength]
  simp

/-- A scalar that cannot be named is an integer of too many digits. -/
theorem Scalar.named?_eq_none_iff {v : Scalar} :
    v.named? = none ↔ ∃ n, v = .int n ∧ 10 ^ Number.digitLimit ≤ n.natAbs := by
  cases v with
  | int n => simp [Scalar.named?, Number.intText?_eq_none_iff]
  | bool b => cases b <;> simp [Scalar.named?]
  | _ => simp [Scalar.named?]

theorem Scalar.spliced?_eq_none_iff {v : Scalar} :
    v.spliced? = none ↔ ∃ n, v = .int n ∧ 10 ^ Number.digitLimit ≤ n.natAbs := by
  unfold Scalar.spliced?
  split
  · simp
  · exact Scalar.named?_eq_none_iff

namespace Document

/-- A value that is an integer of too many digits, or holds one. -/
inductive HoldsLong : Document → Prop where
  /-- An integer of more digits than the limit. -/
  | int {n : Int} (long : 10 ^ Number.digitLimit ≤ n.natAbs) : HoldsLong (.scalar (.int n))
  /-- A list with such an item. -/
  | item {items : List Document} {d : Document} (mem : d ∈ items) (held : HoldsLong d) :
      HoldsLong (.list items)
  /-- A map with such a value. -/
  | field {fields : Fields} {field : Text × Document} (mem : field ∈ fields)
      (held : HoldsLong field.2) : HoldsLong (.map fields)

theorem holdsLong_scalar_iff {v : Scalar} :
    HoldsLong (.scalar v) ↔ ∃ n, v = .int n ∧ 10 ^ Number.digitLimit ≤ n.natAbs := by
  constructor
  · rintro ⟨long⟩
    exact ⟨_, rfl, long⟩
  · rintro ⟨n, rfl, long⟩
    exact .int long

theorem holdsLong_list_iff {items : List Document} :
    HoldsLong (.list items) ↔ ∃ d ∈ items, d.HoldsLong := by
  constructor
  · rintro (_ | ⟨mem, held⟩)
    exact ⟨_, mem, held⟩
  · rintro ⟨d, mem, held⟩
    exact .item mem held

theorem holdsLong_map_iff {fields : Fields} :
    HoldsLong (.map fields) ↔ ∃ field ∈ fields, field.2.HoldsLong := by
  constructor
  · rintro (_ | _ | ⟨mem, held⟩)
    exact ⟨_, mem, held⟩
  · rintro ⟨field, mem, held⟩
    exact .field mem held

mutual

/-- **A value cannot be named exactly if it holds an integer of too many digits.** -/
theorem named?_eq_none_iff : ∀ {d : Document}, d.named? = none ↔ d.HoldsLong
  | .scalar _ => by rw [named?, Scalar.named?_eq_none_iff, holdsLong_scalar_iff]
  | .list items => by
    rw [named?, holdsLong_list_iff, ← namedItems?_eq_none_iff]
    cases namedItems? items <;> simp
  | .map fields => by
    rw [named?, holdsLong_map_iff, ← namedFields?_eq_none_iff]
    cases namedFields? fields <;> simp

theorem namedItems?_eq_none_iff : ∀ {items : List Document},
    namedItems? items = none ↔ ∃ d ∈ items, d.HoldsLong
  | [] => by simp [namedItems?]
  | [d] => by rw [namedItems?, named?_eq_none_iff]; simp
  | d :: e :: rest => by
    rw [List.exists_mem_cons_iff, ← named?_eq_none_iff, ← namedItems?_eq_none_iff, namedItems?]
    · cases d.named? <;> cases namedItems? (e :: rest) <;> simp
    · simp

theorem namedFields?_eq_none_iff : ∀ {fields : Fields},
    namedFields? fields = none ↔ ∃ field ∈ fields, field.2.HoldsLong
  | [] => by simp [namedFields?]
  | [(k, d)] => by
    rw [namedFields?, List.exists_mem_cons_iff, ← named?_eq_none_iff]
    cases d.named? <;> simp
  | (k, d) :: field :: rest => by
    rw [List.exists_mem_cons_iff, ← named?_eq_none_iff, ← namedFields?_eq_none_iff, namedFields?]
    · cases d.named? <;> cases namedFields? (field :: rest) <;> simp
    · simp

end

theorem spliced?_eq_none_iff {d : Document} : d.spliced? = none ↔ d.HoldsLong := by
  cases d with
  | scalar v => rw [spliced?, Scalar.spliced?_eq_none_iff, holdsLong_scalar_iff]
  | _ => exact named?_eq_none_iff

end Document

/-- An integer of 4817 digits. -/
def longInteger : Int := ((16 ^ 40) ^ 100 : Nat)

theorem spliced?_longInteger : (Scalar.int longInteger).spliced? = none := by
  have hlimit : Number.digitLimit = 43 * 100 := rfl
  refine Scalar.spliced?_eq_none_iff.mpr ⟨longInteger, rfl, ?_⟩
  rw [hlimit, Nat.pow_mul, longInteger, Int.natAbs_natCast]
  exact Nat.pow_le_pow_left (by norm_num) 100

end Colourway
