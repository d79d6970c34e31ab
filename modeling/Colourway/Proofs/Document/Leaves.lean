import Colourway.Proofs.Document.Entries

/-!
# Leaves

`Document.HasLeaf` says that a path leads to a scalar.  Taking a document apart lists these paths
(`mem_leafPaths`); carrying keeps them, and laying one document over another gives all leaves of
the later one and none that neither had (`HasLeaf.laid`, `hasLeaf_of_laid`).
-/

namespace Colourway

open Assoc

namespace Document

/-- The path leads to a scalar. -/
inductive HasLeaf : Document → Path → Prop
  | scalar (v : Scalar) : HasLeaf (.scalar v) []
  | item {items : List Document} {i : Nat} {d : Document} {path : Path}
      (at_position : items[i]? = some d) (below : HasLeaf d path) :
      HasLeaf (.list items) (.index i :: path)
  | field {fields : Fields} {key : Text} {d : Document} {path : Path}
      (under_key : get? key fields = some d) (below : HasLeaf d path) :
      HasLeaf (.map fields) (.key key :: path)

/-- Having a leaf, for what may be missing. -/
def HasLeaf? (d? : Option Document) (path : Path) : Prop := ∃ d, d? = some d ∧ d.HasLeaf path

@[simp] theorem hasLeaf?_some {d : Document} {path : Path} :
    HasLeaf? (some d) path ↔ d.HasLeaf path := by simp [HasLeaf?]

@[simp] theorem not_hasLeaf?_none (path : Path) : ¬ HasLeaf? none path := by simp [HasLeaf?]

theorem hasLeaf_scalar_iff {v : Scalar} {path : Path} :
    (Document.scalar v).HasLeaf path ↔ path = [] := by
  constructor
  · rintro ⟨⟩
    rfl
  · rintro rfl
    exact .scalar v

theorem hasLeaf_list_iff {items : List Document} {path : Path} :
    (Document.list items).HasLeaf path ↔
      ∃ (i : Nat) (rest : Path), path = .index i :: rest ∧ HasLeaf? items[i]? rest := by
  constructor
  · intro h
    cases h with
    | item hd below => exact ⟨_, _, rfl, _, hd, below⟩
  · rintro ⟨i, rest, rfl, d, hd, below⟩
    exact .item hd below

theorem hasLeaf_map_iff {fields : Fields} {path : Path} :
    (Document.map fields).HasLeaf path ↔
      ∃ (key : Text) (rest : Path), path = .key key :: rest ∧
        HasLeaf? (get? key fields) rest := by
  constructor
  · intro h
    cases h with
    | field hd below => exact ⟨_, _, rfl, _, hd, below⟩
  · rintro ⟨key, rest, rfl, d, hd, below⟩
    exact .field hd below

/-- The leaves of a list that was appended to another stand behind the items of that one. -/
theorem hasLeaf_list_append_iff (earlier items : List Document) (path : Path) :
    (Document.list (earlier ++ items)).HasLeaf path ↔
      (Document.list earlier).HasLeaf path ∨
        ∃ (i : Nat) (rest : Path), HasLeaf? items[i]? rest ∧
          path = .index (earlier.length + i : Nat) :: rest := by
  rw [hasLeaf_list_iff, hasLeaf_list_iff]
  constructor
  · rintro ⟨i, rest, rfl, hleaf⟩
    by_cases hi : i < earlier.length
    · rw [List.getElem?_append_left hi] at hleaf
      exact Or.inl ⟨i, rest, rfl, hleaf⟩
    · have hle : earlier.length ≤ i := by omega
      rw [List.getElem?_append_right hle] at hleaf
      refine Or.inr ⟨i - earlier.length, rest, hleaf, ?_⟩
      rw [show earlier.length + (i - earlier.length) = i by omega]
  · rintro (⟨i, rest, rfl, hleaf⟩ | ⟨i, rest, hleaf, rfl⟩)
    · have hi : i < earlier.length := by
        obtain ⟨d, hd, -⟩ := hleaf
        exact (List.getElem?_eq_some_iff.mp hd).1
      exact ⟨i, rest, rfl, by rwa [List.getElem?_append_left hi]⟩
    · have hle : earlier.length ≤ earlier.length + i := Nat.le_add_right _ _
      refine ⟨earlier.length + i, rest, rfl, ?_⟩
      rwa [List.getElem?_append_right hle, Nat.add_sub_cancel_left]

theorem hasLeaf_fieldsOf {prior : Option Document} {key : Text} {path : Path}
    (h : HasLeaf? (get? key (fieldsOf prior)) path) : HasLeaf? prior (.key key :: path) := by
  cases prior with
  | none => simp [get?] at h
  | some d =>
    rcases d.map_or_not with ⟨fields, rfl⟩ | hd
    · exact hasLeaf?_some.mpr (hasLeaf_map_iff.mpr ⟨key, path, rfl, h⟩)
    · simp [fieldsOf_of_not_map hd, get?] at h

/-! ## Taking apart -/

/-- The paths of the leaves of a document that stands at `lead`. -/
def leafPaths (lead : Path) : Document → List Path
  | .scalar _ => [lead]
  | d => (d.entriesBelow lead).map Entry.path

theorem leafPaths_eq (lead : Path) (place : Option ListPlace) (d : Document) :
    leafPaths lead d = (entriesAt lead place d).map Entry.path := by
  cases d <;> rfl

theorem mem_leafPaths_iff_lists {lead path : Path} (place : Option ListPlace) {d : Document} :
    path ∈ leafPaths lead d ↔ ∃ value, Lists (entriesAt lead place d) path value := by
  rw [leafPaths_eq lead place, mem_map_path]

theorem mem_paths_itemEntries {lead path : Path} {n : Nat} {items : List Document} :
    path ∈ (itemEntries lead n items).map Entry.path ↔
      ∃ (i : Nat) (d : Document), items[i]? = some d ∧
        path ∈ leafPaths (lead ++ [.index (n + i : Nat)]) d := by
  rw [mem_map_path]
  constructor
  · rintro ⟨value, h⟩
    obtain ⟨i, d, hd, hlists⟩ := (lists_itemEntries n).mp h
    exact ⟨i, d, hd, (mem_leafPaths_iff_lists _).mpr ⟨value, hlists⟩⟩
  · rintro ⟨i, d, hd, h⟩
    obtain ⟨value, hlists⟩ := (mem_leafPaths_iff_lists _).mp h
    exact ⟨value, (lists_itemEntries n).mpr ⟨i, d, hd, hlists⟩⟩

/-- A leaf is what a path leads to, if that is a scalar. -/
theorem hasLeaf_iff_at? {d : Document} {path : Path} :
    d.HasLeaf path ↔ ∃ v, d.at? path = some (.scalar v) := by
  constructor
  · intro h
    induction h with
    | scalar v => exact ⟨v, rfl⟩
    | item hd below ih => simpa [at?, hd] using ih
    | field hd below ih => simpa [at?, hd] using ih
  · rintro ⟨v, hat⟩
    induction path generalizing d with
    | nil =>
      obtain rfl : d = .scalar v := by simpa [at?] using hat
      exact .scalar v
    | cons s rest ih =>
      cases d with
      | scalar w => cases s <;> simp [at?] at hat
      | list items =>
        cases s with
        | key name => simp [at?] at hat
        | index n =>
          rw [at?] at hat
          split at hat
          · next hn =>
            obtain ⟨d, hd, hbelow⟩ := Option.bind_eq_some_iff.mp hat
            rw [← Int.toNat_of_nonneg hn]
            exact .item hd (ih hbelow)
          · cases hat
      | map fields =>
        cases s with
        | index n => simp [at?] at hat
        | key name =>
          rw [at?] at hat
          obtain ⟨d, hd, hbelow⟩ := Option.bind_eq_some_iff.mp hat
          exact .field hd (ih hbelow)

/-- Taking a document apart gives the paths that lead to its scalars. -/
theorem mem_leafPaths {d : Document} (keyed : d.Keyed) {lead path : Path} :
    path ∈ leafPaths lead d ↔ ∃ rest, d.HasLeaf rest ∧ path = lead ++ rest := by
  simp only [mem_leafPaths_iff_lists none, lists_entriesAt keyed, hasLeaf_iff_at?]
  constructor
  · rintro ⟨_, rest, v, rfl, hat, rfl⟩
    exact ⟨rest, ⟨v, hat⟩, rfl⟩
  · rintro ⟨rest, ⟨v, hat⟩, rfl⟩
    exact ⟨.scalar v, rest, v, rfl, hat, rfl⟩

/-! ## Carrying and laying -/

section Laid

variable (mark : Text)

theorem hasLeaf_carriedLeaf {d : Document} (h : d.fields? = none) {prior : Option Document}
    {path : Path} : (carriedLeaf mark prior d).HasLeaf path ↔ d.HasLeaf path := by
  unfold carriedLeaf
  split
  · split
    · split <;> simp [Document.text, hasLeaf_scalar_iff]
    · simp [Document.text, hasLeaf_scalar_iff]
  · rfl

/-- Carrying changes texts and nothing else, so it keeps the paths of leaves. -/
theorem hasLeaf_carriedValue (d : Document) (prior : Option Document) (path : Path) :
    (carriedValue mark prior d).HasLeaf path ↔ d.HasLeaf path := by
  induction path generalizing d prior with
  | nil =>
    rcases d.map_or_not with ⟨fields, rfl⟩ | h
    · simp [carriedValue, hasLeaf_map_iff]
    · rw [carriedValue_of_not_map mark h, hasLeaf_carriedLeaf mark h]
  | cons segment rest ih =>
    rcases d.map_or_not with ⟨fields, rfl⟩ | h
    · rw [carriedValue, hasLeaf_map_iff, hasLeaf_map_iff]
      refine exists_congr fun key => exists_congr fun below => and_congr_right fun hp => ?_
      obtain ⟨-, rfl⟩ := List.cons.inj hp
      rw [get?_carriedFields]
      cases get? key fields with
      | none => simp
      | some d => simpa using ih d _
    · rw [carriedValue_of_not_map mark h, hasLeaf_carriedLeaf mark h]

theorem Keyed.carriedValue {d : Document} (keyed : d.Keyed) (prior : Option Document) :
    (carriedValue mark prior d).Keyed := by
  induction d using Document.induct generalizing prior with
  | scalar v =>
    rw [carriedValue_of_not_map mark rfl]
    unfold carriedLeaf
    split
    · split
      · split <;> exact .scalar _
      · exact .scalar _
    · exact keyed
  | list items _ =>
    rw [carriedValue_of_not_map mark rfl]
    exact keyed
  | map fields ih =>
    rw [Colourway.carriedValue]
    refine .map (by simpa using keyed.once) fun f hf => ?_
    have hget := get?_of_pair_mem (by simpa using keyed.once) hf
    rw [get?_carriedFields, Option.map_eq_some_iff] at hget
    obtain ⟨d, hd, hcarried⟩ := hget
    rw [← hcarried]
    exact ih (f.1, d) (pair_mem_of_get? hd) (keyed.field hd) _

theorem Keyed.laid {d : Document} (keyed : d.Keyed) {prior : Option Document}
    (hprior : ∀ p, prior = some p → p.Keyed) : (Document.laid mark prior d).Keyed := by
  induction d using Document.induct generalizing prior with
  | scalar v =>
    rw [laid_of_not_map mark rfl, ← carriedValue_of_not_map mark rfl]
    exact keyed.carriedValue mark prior
  | list items _ =>
    rw [laid_of_not_map mark rfl, ← carriedValue_of_not_map mark rfl]
    exact keyed.carriedValue mark prior
  | map fields ih =>
    have hbase : (Document.map (Document.fieldsOf prior)).Keyed := Keyed.fieldsOf hprior
    have once := nodup_mergeFields hbase.once
      (carriedFields mark (Document.fieldsOf prior) fields)
    rw [laid_map mark keyed.once]
    refine .map once fun f hf => ?_
    have hget := get?_of_pair_mem once hf
    rw [get?_merge_carry mark keyed.once] at hget
    cases hkey : get? f.1 fields with
    | none =>
      rw [hkey] at hget
      exact hbase.field hget
    | some later =>
      rw [hkey] at hget
      rw [← Option.some.inj hget]
      exact ih (f.1, later) (pair_mem_of_get? hkey) (keyed.field hkey) fun _ hp => hbase.field hp

/-- A value laid over another keeps its leaves. -/
theorem HasLeaf.laid {d : Document} (keyed : d.Keyed) {path : Path} (h : d.HasLeaf path)
    (prior : Option Document) : (laid mark prior d).HasLeaf path := by
  induction path generalizing d prior with
  | nil =>
    rcases d.map_or_not with ⟨fields, rfl⟩ | hd
    · simp [hasLeaf_map_iff] at h
    · rwa [laid_of_not_map mark hd, hasLeaf_carriedLeaf mark hd]
  | cons segment rest ih =>
    rcases d.map_or_not with ⟨fields, rfl⟩ | hd
    · obtain ⟨key, below, hp, d, hget, hleaf⟩ := hasLeaf_map_iff.mp h
      obtain ⟨rfl, rfl⟩ := List.cons.inj hp
      rw [laid_map mark keyed.once]
      have hover := get?_merge_carry mark keyed.once (fieldsOf prior) key
      rw [hget] at hover
      exact .field hover (ih (keyed.field hget) hleaf _)
    · rwa [laid_of_not_map mark hd, hasLeaf_carriedLeaf mark hd]

/-- A leaf of a value laid over another is a leaf of one of the two. -/
theorem hasLeaf_of_laid {d : Document} (keyed : d.Keyed) {path : Path} {prior : Option Document}
    (h : (Document.laid mark prior d).HasLeaf path) : HasLeaf? prior path ∨ d.HasLeaf path := by
  induction path generalizing d prior with
  | nil =>
    rcases d.map_or_not with ⟨fields, rfl⟩ | hd
    · simp [laid_map mark keyed.once, hasLeaf_map_iff] at h
    · rw [laid_of_not_map mark hd, hasLeaf_carriedLeaf mark hd] at h
      exact Or.inr h
  | cons segment rest ih =>
    rcases d.map_or_not with ⟨fields, rfl⟩ | hd
    · rw [laid_map mark keyed.once] at h
      obtain ⟨key, below, hp, d, hget, hleaf⟩ := hasLeaf_map_iff.mp h
      obtain ⟨rfl, rfl⟩ := List.cons.inj hp
      rw [get?_merge_carry mark keyed.once] at hget
      cases hkey : get? key fields with
      | none =>
        rw [hkey] at hget
        exact Or.inl (hasLeaf_fieldsOf ⟨d, hget, hleaf⟩)
      | some later =>
        rw [hkey] at hget
        obtain rfl := Option.some.inj hget
        rcases ih (keyed.field hkey) hleaf with hbefore | hlater
        · exact Or.inl (hasLeaf_fieldsOf hbefore)
        · exact Or.inr (.field hkey hlater)
    · rw [laid_of_not_map mark hd, hasLeaf_carriedLeaf mark hd] at h
      exact Or.inr h

end Laid

end Document

end Colourway
