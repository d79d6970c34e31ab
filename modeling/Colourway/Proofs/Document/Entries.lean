import Colourway.Proofs.Document.Merge

/-!
# Entries and places

The entries of a document are its scalars, each at its path: **`lists_entries`** says that an
entry with a path and a value is there exactly if the path leads to this value, which is a scalar.
Where the document stands makes no difference but for the lead of the paths (`entriesBelow_append`).

`entriesAt` joins the two ways in which a part of a document gives entries, as a scalar and as a
container, so the statements are proved for parts (`lists_entriesAt`) by induction.
-/

namespace Colourway

open Assoc

/-- The list and the position that a path ends with, if it ends with a position. -/
def Path.place? (path : Path) : Option ListPlace :=
  match path.getLast? with
  | some (.index n) => some ⟨path.dropLast, n⟩
  | _ => none

@[simp] theorem Path.place?_concat_index (lead : Path) (n : Int) :
    Path.place? (lead ++ [.index n]) = some ⟨lead, n⟩ := by
  simp [Path.place?]

@[simp] theorem Path.place?_concat_key (lead : Path) (name : Text) :
    Path.place? (lead ++ [.key name]) = none := by
  simp [Path.place?]

namespace Document

/-- The entries of a part of a document that stands at a path, itself included if it is a
scalar. -/
def entriesAt (path : Path) (place : Option ListPlace) : Document → List Entry
  | .scalar v => [⟨path, .scalar v, place⟩]
  | d => d.entriesBelow path

theorem entriesAt_of_container {d : Document} (h : d.isContainer = true) (path : Path)
    (place : Option ListPlace) : entriesAt path place d = d.entriesBelow path := by
  cases d with
  | scalar v => cases h
  | list items => rfl
  | map fields => rfl

theorem itemEntries_cons (lead : Path) (n : Nat) (d : Document) (rest : List Document) :
    itemEntries lead n (d :: rest) =
      entriesAt (lead ++ [.index n]) (some ⟨lead, n⟩) d ++ itemEntries lead (n + 1) rest := by
  cases d <;> simp [itemEntries, entriesAt]

theorem fieldEntries_cons (lead : Path) (key : Text) (d : Document) (rest : Fields) :
    fieldEntries lead ((key, d) :: rest) =
      entriesAt (lead ++ [.key key]) none d ++ fieldEntries lead rest := by
  cases d <;> simp [fieldEntries, entriesAt]

/-! ## Standing elsewhere -/

theorem itemEntries_append (lead inner : Path) {items : List Document}
    (each : ∀ d ∈ items, ∀ path place,
      entriesAt (lead ++ path) (place.map fun p => ⟨lead ++ p.path, p.index⟩) d =
        (entriesAt path place d).map (Entry.below lead)) (n : Nat) :
    itemEntries (lead ++ inner) n items = (itemEntries inner n items).map (Entry.below lead) := by
  induction items generalizing n with
  | nil => simp [itemEntries]
  | cons d rest ih =>
    obtain ⟨hd, hrest⟩ := List.forall_mem_cons.mp each
    have hitem := hd (inner ++ [.index n]) (some ⟨inner, n⟩)
    rw [itemEntries_cons, itemEntries_cons, List.map_append, ← ih hrest, ← hitem]
    simp

theorem fieldEntries_append (lead inner : Path) {fields : Fields}
    (each : ∀ f ∈ fields, ∀ path place,
      entriesAt (lead ++ path) (place.map fun p => ⟨lead ++ p.path, p.index⟩) f.2 =
        (entriesAt path place f.2).map (Entry.below lead)) :
    fieldEntries (lead ++ inner) fields = (fieldEntries inner fields).map (Entry.below lead) := by
  induction fields with
  | nil => simp [fieldEntries]
  | cons f rest ih =>
    obtain ⟨key, d⟩ := f
    obtain ⟨hd, hrest⟩ := List.forall_mem_cons.mp each
    have hfield := hd (inner ++ [.key key]) none
    rw [fieldEntries_cons, fieldEntries_cons, List.map_append, ← ih hrest, ← hfield]
    simp

theorem entriesAt_append (lead : Path) (d : Document) (path : Path) (place : Option ListPlace) :
    entriesAt (lead ++ path) (place.map fun p => ⟨lead ++ p.path, p.index⟩) d =
      (entriesAt path place d).map (Entry.below lead) := by
  induction d using Document.induct generalizing path place with
  | scalar v => simp [entriesAt, Entry.below]
  | list items ih => exact itemEntries_append lead path ih 0
  | map fields ih => exact fieldEntries_append lead path ih

/-- A document that stands deeper has the same entries, with longer paths. -/
theorem entriesBelow_append (lead inner : Path) (d : Document) :
    d.entriesBelow (lead ++ inner) = (d.entriesBelow inner).map (Entry.below lead) := by
  cases d with
  | scalar v => rfl
  | list items => exact entriesAt_append lead (.list items) inner none
  | map fields => exact entriesAt_append lead (.map fields) inner none

theorem entriesBelow_eq (lead : Path) (d : Document) :
    d.entriesBelow lead = d.entries.map (Entry.below lead) := by
  have h := entriesBelow_append lead [] d
  rwa [List.append_nil] at h

/-! ## Places in lists -/

theorem forall_mem_itemEntries {P : Entry → Prop} {lead : Path} {items : List Document}
    (each : ∀ d ∈ items, ∀ i : Nat,
      ∀ e ∈ entriesAt (lead ++ [.index i]) (some ⟨lead, i⟩) d, P e) (n : Nat) :
    ∀ e ∈ itemEntries lead n items, P e := by
  induction items generalizing n with
  | nil => simp [itemEntries]
  | cons d rest ih =>
    obtain ⟨hd, hrest⟩ := List.forall_mem_cons.mp each
    rw [itemEntries_cons, List.forall_mem_append]
    exact ⟨hd n, ih hrest (n + 1)⟩

theorem forall_mem_fieldEntries {P : Entry → Prop} {lead : Path} {fields : Fields}
    (each : ∀ f ∈ fields, ∀ e ∈ entriesAt (lead ++ [.key f.1]) none f.2, P e) :
    ∀ e ∈ fieldEntries lead fields, P e := by
  induction fields with
  | nil => simp [fieldEntries]
  | cons f rest ih =>
    obtain ⟨key, d⟩ := f
    obtain ⟨hd, hrest⟩ := List.forall_mem_cons.mp each
    rw [fieldEntries_cons, List.forall_mem_append]
    exact ⟨hd, ih hrest⟩

theorem place_of_mem_entriesAt (d : Document) (lead : Path) {e : Entry}
    (he : e ∈ entriesAt lead (Path.place? lead) d) : e.place = Path.place? e.path := by
  induction d using Document.induct generalizing lead e with
  | scalar v =>
    obtain rfl : e = ⟨lead, .scalar v, Path.place? lead⟩ := by simpa [entriesAt] using he
    rfl
  | list items ih =>
    refine forall_mem_itemEntries (P := fun e => e.place = Path.place? e.path) ?_ 0 e he
    intro d hd i e he
    rw [← Path.place?_concat_index] at he
    exact ih d hd _ he
  | map fields ih =>
    refine forall_mem_fieldEntries (P := fun e => e.place = Path.place? e.path) ?_ e he
    intro f hf e he
    rw [← Path.place?_concat_key lead f.1] at he
    exact ih f hf _ he

/-- **Every entry has the place that its path says**: the list and the position if it is an item,
none if it is the value of a key. -/
theorem place_of_mem_entries {d : Document} {e : Entry} (he : e ∈ d.entries) :
    e.place = Path.place? e.path := by
  cases d with
  | scalar v => cases he
  | list items => exact place_of_mem_entriesAt (.list items) [] he
  | map fields => exact place_of_mem_entriesAt (.map fields) [] he

/-! ## Entries at a path -/

/-- There is an entry with this path and this value. -/
def Lists (entries : List Entry) (path : Path) (value : Document) : Prop :=
  ∃ e ∈ entries, e.path = path ∧ e.value = value

@[simp] theorem lists_nil (path : Path) (value : Document) : ¬ Lists [] path value := by
  simp [Lists]

@[simp] theorem lists_append {first second : List Entry} {path : Path} {value : Document} :
    Lists (first ++ second) path value ↔ Lists first path value ∨ Lists second path value := by
  simp [Lists, or_and_right, exists_or]

theorem mem_map_path {entries : List Entry} {path : Path} :
    path ∈ entries.map Entry.path ↔ ∃ value, Lists entries path value := by
  rw [List.mem_map]
  constructor
  · rintro ⟨e, he, hpath⟩
    exact ⟨e.value, e, he, hpath, rfl⟩
  · rintro ⟨_, e, he, hpath, -⟩
    exact ⟨e, he, hpath⟩

theorem lists_itemEntries {lead path : Path} {value : Document} {items : List Document}
    (n : Nat) :
    Lists (itemEntries lead n items) path value ↔ ∃ (i : Nat) (d : Document), items[i]? = some d ∧
      Lists (entriesAt (lead ++ [.index (n + i : Nat)]) (some ⟨lead, (n + i : Nat)⟩) d) path
        value := by
  induction items generalizing n with
  | nil => simp [itemEntries]
  | cons d rest ih =>
    rw [itemEntries_cons, lists_append, ih]
    constructor
    · rintro (h | ⟨i, d', hd', h⟩)
      · exact ⟨0, d, rfl, h⟩
      · refine ⟨i + 1, d', hd', ?_⟩
        rwa [show n + (i + 1) = n + 1 + i by omega]
    · rintro ⟨i, d', hd', h⟩
      cases i with
      | zero =>
        obtain rfl : d = d' := by simpa using hd'
        exact Or.inl h
      | succ i =>
        refine Or.inr ⟨i, d', by simpa using hd', ?_⟩
        rwa [show n + 1 + i = n + (i + 1) by omega]

theorem lists_fieldEntries {lead path : Path} {value : Document} {fields : Fields} :
    Lists (fieldEntries lead fields) path value ↔
      ∃ f ∈ fields, Lists (entriesAt (lead ++ [.key f.1]) none f.2) path value := by
  induction fields with
  | nil => simp [fieldEntries]
  | cons f rest ih =>
    obtain ⟨key, d⟩ := f
    rw [fieldEntries_cons, lists_append, ih]
    simp

/-- What a part of a document lists are the scalars that paths lead to in it. -/
theorem lists_entriesAt {d : Document} (keyed : d.Keyed) {lead path : Path}
    {place : Option ListPlace} {value : Document} :
    Lists (entriesAt lead place d) path value ↔
      ∃ rest v, path = lead ++ rest ∧ d.at? rest = some (.scalar v) ∧ value = .scalar v := by
  induction d using Document.induct generalizing lead place with
  | scalar v =>
    constructor
    · rintro ⟨e, he, rfl, rfl⟩
      obtain rfl : e = ⟨lead, .scalar v, place⟩ := by simpa [entriesAt] using he
      exact ⟨[], v, by simp, rfl, rfl⟩
    · rintro ⟨rest, w, rfl, hat, rfl⟩
      cases rest with
      | nil =>
        obtain rfl : v = w := by simpa [at?] using hat
        exact ⟨_, List.mem_singleton_self _, by simp, rfl⟩
      | cons s rest => simp [at?] at hat
  | list items ih =>
    rw [entriesAt_of_container rfl, entriesBelow, lists_itemEntries]
    constructor
    · rintro ⟨i, d, hd, h⟩
      have hmem := List.mem_of_getElem? hd
      obtain ⟨rest, v, rfl, hat, rfl⟩ := (ih d hmem (keyed.item hmem)).mp h
      exact ⟨.index i :: rest, v, by simp, by simpa [at?, hd] using hat, rfl⟩
    · rintro ⟨rest, v, rfl, hat, rfl⟩
      cases rest with
      | nil => simp [at?] at hat
      | cons s rest =>
        cases s with
        | key name => simp [at?] at hat
        | index n =>
          rw [at?] at hat
          split at hat
          · next hn =>
            obtain ⟨d, hd, hbelow⟩ := Option.bind_eq_some_iff.mp hat
            have hmem := List.mem_of_getElem? hd
            refine ⟨n.toNat, d, hd, (ih d hmem (keyed.item hmem)).mpr ⟨rest, v, ?_, hbelow, rfl⟩⟩
            have hindex : ((0 + n.toNat : Nat) : Int) = n := by omega
            rw [hindex, List.append_assoc, List.singleton_append]
          · cases hat
  | map fields ih =>
    rw [entriesAt_of_container rfl, entriesBelow, lists_fieldEntries]
    constructor
    · rintro ⟨f, hf, h⟩
      have hget := get?_of_pair_mem keyed.once hf
      obtain ⟨rest, v, rfl, hat, rfl⟩ := (ih f hf (keyed.field hget)).mp h
      exact ⟨.key f.1 :: rest, v, by simp, by simpa [at?, hget] using hat, rfl⟩
    · rintro ⟨rest, v, rfl, hat, rfl⟩
      cases rest with
      | nil => simp [at?] at hat
      | cons s rest =>
        cases s with
        | index n => simp [at?] at hat
        | key name =>
          rw [at?] at hat
          obtain ⟨d, hd, hbelow⟩ := Option.bind_eq_some_iff.mp hat
          have hmem := pair_mem_of_get? hd
          exact ⟨(name, d), hmem,
            (ih (name, d) hmem (keyed.field hd)).mpr ⟨rest, v, by simp, hbelow, rfl⟩⟩

/-- **The entries of a map or list are the scalars in it.**  One with this path and this value is
there exactly if the path leads to this value, a scalar. -/
theorem lists_entries {d : Document} (keyed : d.Keyed) (container : d.isContainer = true)
    {path : Path} {value : Document} :
    Lists d.entries path value ↔ ∃ v, d.at? path = some (.scalar v) ∧ value = .scalar v := by
  have hall : Lists (entriesAt [] none d) path value ↔
      ∃ rest v, path = [] ++ rest ∧ d.at? rest = some (.scalar v) ∧ value = .scalar v :=
    lists_entriesAt keyed
  rw [entriesAt_of_container container] at hall
  rw [entries, hall]
  simp

end Document

end Colourway
