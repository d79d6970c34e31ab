import Colourway.Assoc

/-!
# Putting one value after another

What a list of pairs holds under a key once the pairs are put one after the other: the value of the
last pair with the key (`last?`, **`get?_ofPairs`**).  A value that is put over another one leaves
no trace of it (`put_put`).
-/

namespace Colourway.Assoc

variable {κ α : Type} [DecidableEq κ]

/-! ## Putting over -/

@[simp] theorem put_put (key : κ) (first second : α) (entries : List (κ × α)) :
    put key second (put key first entries) = put key second entries := by
  induction entries with
  | nil => simp [put]
  | cons p rest ih =>
    obtain ⟨k, v⟩ := p
    by_cases hk : k = key
    · simp [put, hk]
    · simp [put, hk, ih]

/-- Putting what is there already changes nothing. -/
theorem put_of_get? {key : κ} {value : α} {entries : List (κ × α)}
    (h : get? key entries = some value) : put key value entries = entries := by
  induction entries with
  | nil => cases h
  | cons p rest ih =>
    obtain ⟨k, v⟩ := p
    by_cases hk : k = key
    · simp_all [get?, put]
    · simp only [get?, hk, if_false] at h
      simp [put, hk, ih h]

/-! ## The last value under a key -/

/-- The value of the last pair with the key. -/
def last? (key : κ) : List (κ × α) → Option α
  | [] => none
  | (k, v) :: rest => (last? key rest).or (if k = key then some v else none)

theorem last?_append (key : κ) (first second : List (κ × α)) :
    last? key (first ++ second) = (last? key second).or (last? key first) := by
  induction first with
  | nil => simp [last?]
  | cons p rest ih => rw [List.cons_append, last?, ih, last?, Option.or_assoc]

theorem last?_eq_none_iff {key : κ} {pairs : List (κ × α)} :
    last? key pairs = none ↔ ∀ p ∈ pairs, p.1 ≠ key := by
  induction pairs with
  | nil => simp [last?]
  | cons p rest ih =>
    rw [last?, Option.or_eq_none_iff, ih, List.forall_mem_cons, and_comm]
    simp

theorem mem_of_last? {key : κ} {value : α} {pairs : List (κ × α)}
    (h : last? key pairs = some value) : (key, value) ∈ pairs := by
  induction pairs with
  | nil => cases h
  | cons p rest ih =>
    obtain ⟨k, v⟩ := p
    rw [last?, Option.or_eq_some_iff] at h
    rcases h with h | ⟨-, h⟩
    · exact List.mem_cons_of_mem _ (ih h)
    · by_cases hk : k = key
      · simp_all
      · simp [hk] at h

/-- If all pairs with the key have one value, then the last one has it. -/
theorem last?_of_forall {key : κ} {value : α} {pairs : List (κ × α)} (hmem : (key, value) ∈ pairs)
    (h : ∀ p ∈ pairs, p.1 = key → p.2 = value) : last? key pairs = some value := by
  cases hlast : last? key pairs with
  | none => exact absurd rfl (last?_eq_none_iff.mp hlast _ hmem)
  | some w =>
    have hw : w = value := h (key, w) (mem_of_last? hlast) rfl
    rw [hw]

/-- Where each key is there once, the last value under it is the only one. -/
theorem last?_of_nodup {pairs : List (κ × α)} (once : (keys pairs).Nodup) (key : κ) :
    last? key pairs = get? key pairs := by
  cases hget : get? key pairs with
  | none =>
    refine last?_eq_none_iff.mpr fun p hp h => ?_
    exact get?_eq_none_iff.mp hget (h ▸ List.mem_map_of_mem hp)
  | some value =>
    refine last?_of_forall (pair_mem_of_get? hget) fun p hp h => ?_
    subst h
    exact Option.some.inj ((get?_of_pair_mem once hp).symm.trans hget)

/-- Only the pairs with the key matter, not the key itself. -/
theorem last?_map_congr {κ' ι : Type} [DecidableEq κ'] {key : κ} {key' : κ'} {f : ι → κ} {f' : ι → κ'}
    {value : ι → α} {items : List ι} (h : ∀ i ∈ items, f i = key ↔ f' i = key') :
    last? key (items.map fun i => (f i, value i)) =
      last? key' (items.map fun i => (f' i, value i)) := by
  induction items with
  | nil => rfl
  | cons i rest ih =>
    obtain ⟨hi, hrest⟩ := List.forall_mem_cons.mp h
    simp [last?, hi, ih hrest]

theorem get?_putAll (key : κ) (pairs start : List (κ × α)) :
    get? key (putAll pairs start) = (last? key pairs).or (get? key start) := by
  induction pairs generalizing start with
  | nil => simp [putAll, last?]
  | cons p rest ih =>
    obtain ⟨k, v⟩ := p
    have hput : get? key (put k v start) = (if k = key then some v else none).or (get? key start) := by
      by_cases hk : k = key
      · simp [hk]
      · simp [hk, get?_put_of_ne (Ne.symm hk)]
    calc get? key (putAll ((k, v) :: rest) start)
        = get? key (putAll rest (put k v start)) := rfl
      _ = (last? key rest).or ((if k = key then some v else none).or (get? key start)) := by
          rw [ih, hput]
      _ = (last? key ((k, v) :: rest)).or (get? key start) := by rw [last?, Option.or_assoc]

/-- Of pairs that are put one after the other, the last counts. -/
theorem get?_ofPairs (key : κ) (pairs : List (κ × α)) :
    get? key (ofPairs pairs) = last? key pairs := by
  rw [ofPairs, get?_putAll]
  simp [get?]

theorem nodup_putAll {start : List (κ × α)} (once : (keys start).Nodup) (pairs : List (κ × α)) :
    (keys (putAll pairs start)).Nodup := by
  induction pairs generalizing start with
  | nil => exact once
  | cons p rest ih => exact ih (nodup_keys_put once)

end Colourway.Assoc
