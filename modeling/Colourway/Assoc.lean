/-!
# Association lists in order of insertion

A key keeps the place where it was first put; a later value for it is written there. What is kept
is read through `get?` and `keys`.
-/

namespace Colourway.Assoc

variable {κ α : Type} [DecidableEq κ]

/-- The value under a key. -/
def get? (key : κ) : List (κ × α) → Option α
  | [] => none
  | (k, v) :: rest => if k = key then some v else get? key rest

/-- The list with `value` under `key`: in the key's place if it has one, else at the end. -/
def put (key : κ) (value : α) : List (κ × α) → List (κ × α)
  | [] => [(key, value)]
  | (k, v) :: rest => if k = key then (key, value) :: rest else (k, v) :: put key value rest

/-- The list that results from putting pairs one after the other. -/
def putAll (pairs : List (κ × α)) (start : List (κ × α)) : List (κ × α) :=
  pairs.foldl (fun done p => put p.1 p.2 done) start

/-- The list of the pairs, where a repeated key keeps its first place and its last value. -/
def ofPairs (pairs : List (κ × α)) : List (κ × α) := putAll pairs []

/-- The keys in order. -/
def keys (entries : List (κ × α)) : List κ := entries.map Prod.fst

/-- Whether a key is bound. -/
def contains (key : κ) (entries : List (κ × α)) : Bool := (get? key entries).isSome

@[simp] theorem get?_put_self (key : κ) (value : α) (entries : List (κ × α)) :
    get? key (put key value entries) = some value := by
  induction entries with
  | nil => simp [put, get?]
  | cons p rest ih =>
    obtain ⟨k, v⟩ := p
    by_cases h : k = key <;> simp [put, get?, h, ih]

theorem get?_put_of_ne {key other : κ} (h : other ≠ key) (value : α) (entries : List (κ × α)) :
    get? other (put key value entries) = get? other entries := by
  induction entries with
  | nil => simp [put, get?, Ne.symm h]
  | cons p rest ih =>
    obtain ⟨k, v⟩ := p
    by_cases hk : k = key
    · subst hk; simp [put, get?, Ne.symm h]
    · simp only [put, hk, if_false, get?, ih]

theorem mem_of_get? {key : κ} {value : α} {entries : List (κ × α)}
    (h : get? key entries = some value) : value ∈ entries.map Prod.snd := by
  induction entries with
  | nil => cases h
  | cons p rest ih =>
    obtain ⟨k, v⟩ := p
    unfold get? at h
    split at h
    · cases h
      exact List.mem_cons_self
    · exact List.mem_cons_of_mem _ (ih h)

theorem keys_put (key : κ) (value : α) (entries : List (κ × α)) :
    keys (put key value entries) =
      if key ∈ keys entries then keys entries else keys entries ++ [key] := by
  induction entries with
  | nil => simp [put, keys]
  | cons p rest ih =>
    obtain ⟨k, v⟩ := p
    by_cases hk : k = key
    · subst hk; simp [put, keys]
    · have hk' : key ≠ k := fun h => hk h.symm
      by_cases hm : key ∈ rest.map Prod.fst <;>
        simp_all [put, keys]

theorem get?_eq_none_iff {key : κ} {entries : List (κ × α)} :
    get? key entries = none ↔ key ∉ keys entries := by
  induction entries with
  | nil => simp [get?, keys]
  | cons p rest ih =>
    obtain ⟨k, v⟩ := p
    by_cases hk : k = key
    · simp [get?, keys, hk]
    · have hk' : key ≠ k := fun h => hk h.symm
      simpa [get?, keys, hk, hk'] using ih

theorem pair_mem_of_get? {key : κ} {value : α} {entries : List (κ × α)}
    (h : get? key entries = some value) : (key, value) ∈ entries := by
  induction entries with
  | nil => cases h
  | cons p rest ih =>
    obtain ⟨k, v⟩ := p
    by_cases hk : k = key
    · simp_all [get?]
    · simp only [get?, hk, if_false] at h
      exact List.mem_cons_of_mem _ (ih h)

/-- In a list without repeated keys every pair is found under its key. -/
theorem get?_of_pair_mem {key : κ} {value : α} {entries : List (κ × α)}
    (hn : (keys entries).Nodup) (h : (key, value) ∈ entries) : get? key entries = some value := by
  induction entries with
  | nil => cases h
  | cons p rest ih =>
    obtain ⟨k, v⟩ := p
    obtain ⟨hk, hrest⟩ : k ∉ keys rest ∧ (keys rest).Nodup := by simpa [keys] using hn
    rcases List.mem_cons.mp h with heq | hmem
    · simp_all [get?]
    · have hne : k ≠ key := fun e => hk (e ▸ List.mem_map_of_mem hmem)
      simp [get?, hne, ih hrest hmem]

theorem mem_keys_put {key k : κ} {value : α} {entries : List (κ × α)} :
    k ∈ keys (put key value entries) ↔ k = key ∨ k ∈ keys entries := by
  rw [keys_put]
  by_cases h : key ∈ keys entries
  · simp only [h, if_true]
    constructor
    · exact Or.inr
    · rintro (rfl | hk) <;> assumption
  · simp [h, or_comm]

theorem nodup_keys_put {key : κ} {value : α} {entries : List (κ × α)}
    (hn : (keys entries).Nodup) : (keys (put key value entries)).Nodup := by
  rw [keys_put]
  by_cases h : key ∈ keys entries
  · simpa [h] using hn
  · have hnew : ∀ k ∈ keys entries, k ≠ key := fun k hk e => h (by rwa [← e])
    simpa [h, List.nodup_append] using ⟨hn, hnew⟩

theorem put_ne_nil (key : κ) (value : α) (entries : List (κ × α)) : put key value entries ≠ [] := by
  intro hnil
  have hkey : key ∈ keys (put key value entries) := mem_keys_put.mpr (Or.inl rfl)
  simp [hnil, keys] at hkey

/-- A new key comes last. -/
theorem put_of_not_mem {key : κ} {value : α} {entries : List (κ × α)}
    (h : key ∉ keys entries) : put key value entries = entries ++ [(key, value)] := by
  induction entries with
  | nil => rfl
  | cons p rest ih =>
    obtain ⟨k, v⟩ := p
    obtain ⟨hne, hrest⟩ : key ≠ k ∧ key ∉ keys rest := by simpa [keys] using h
    simp [put, Ne.symm hne, ih hrest]

theorem mem_of_mem_put {key : κ} {value : α} {p : κ × α} {entries : List (κ × α)}
    (h : p ∈ put key value entries) : p = (key, value) ∨ p ∈ entries := by
  induction entries with
  | nil => simpa [put] using h
  | cons q rest ih =>
    obtain ⟨k, v⟩ := q
    by_cases hk : k = key
    · simp only [put, hk, if_true, List.mem_cons] at h ⊢
      rcases h with h | h
      · exact Or.inl h
      · exact Or.inr (Or.inr h)
    · simp only [put, hk, if_false, List.mem_cons] at h ⊢
      rcases h with h | h
      · exact Or.inr (Or.inl h)
      · rcases ih h with h | h
        · exact Or.inl h
        · exact Or.inr (Or.inr h)

omit [DecidableEq κ] in
/-- Where no key is repeated, a later key is none of the earlier ones. -/
theorem not_mem_keys_of_nodup {key : κ} {value : α} {before after : List (κ × α)}
    (hn : (keys (before ++ (key, value) :: after)).Nodup) : key ∉ keys before := by
  simp only [keys, List.map_append, List.map_cons] at hn ⊢
  intro hmem
  exact (List.nodup_append.mp hn).2.2 key hmem key List.mem_cons_self rfl

/-- What is put under a key that a filter drops is not seen behind the filter. -/
theorem filter_put {key : κ} {value : α} {keep : κ → Bool} (h : keep key = false)
    (entries : List (κ × α)) :
    (put key value entries).filter (fun p => keep p.1) = entries.filter fun p => keep p.1 := by
  induction entries with
  | nil => simp [put, h]
  | cons p rest ih =>
    obtain ⟨k, v⟩ := p
    by_cases hk : k = key
    · subst hk
      simp [put, h]
    · simp [put, hk, List.filter_cons, ih]

end Colourway.Assoc
