import Colourway.Proofs.Document.Carried

/-!
# Merged documents, key by key

Carrying and merging recurse apart from one another, each over the later document.  Here both are
read one key at a time, and from these readings as one operation: `Document.laid` is what a key
holds once a later value was laid over it, and under each key of two laid maps stands what the
later value gives when it is laid over the earlier one (`get?_merge_carry`).

A document whose maps bind each key once is `Keyed`; reading a merge by its keys takes no more
than that the later map binds each key once.
-/

namespace Colourway

open Assoc Text

namespace Document

/-! ## Induction and well-formed documents -/

/-- Induction over documents, with the hypothesis for the items of a list and for the values of a
map. -/
@[elab_as_elim]
theorem induct {motive : Document → Prop}
    (scalar : ∀ v, motive (.scalar v))
    (list : ∀ items : List Document, (∀ d ∈ items, motive d) → motive (.list items))
    (map : ∀ fields : Fields, (∀ f ∈ fields, motive f.2) → motive (.map fields))
    (d : Document) : motive d := by
  refine @Document.rec motive (fun items => ∀ d ∈ items, motive d)
    (fun fields => ∀ f ∈ fields, motive f.2) (fun f => motive f.2)
    scalar list map ?nil ?cons ?fnil ?fcons ?pair d
  case nil => simp
  case cons =>
    intro d rest hd hrest
    simpa using ⟨hd, hrest⟩
  case fnil => simp
  case fcons =>
    intro f rest hf hrest
    simpa using ⟨hf, fun k d => hrest (k, d)⟩
  case pair => exact fun _ _ h => h

/-- A document whose maps bind each key once, at every depth. -/
inductive Keyed : Document → Prop
  | scalar (v : Scalar) : Keyed (.scalar v)
  | list {items : List Document} (each : ∀ d ∈ items, d.Keyed) : Keyed (.list items)
  | map {fields : Fields} (once : (keys fields).Nodup) (each : ∀ f ∈ fields, f.2.Keyed) :
      Keyed (.map fields)

theorem Keyed.once {fields : Fields} (h : (Document.map fields).Keyed) : (keys fields).Nodup := by
  cases h
  assumption

theorem Keyed.each {fields : Fields} (h : (Document.map fields).Keyed) :
    ∀ f ∈ fields, f.2.Keyed := by
  cases h
  assumption

theorem Keyed.field {fields : Fields} (h : (Document.map fields).Keyed) {key : Text} {d : Document}
    (hd : get? key fields = some d) : d.Keyed :=
  h.each (key, d) (pair_mem_of_get? hd)

theorem Keyed.head {key : Text} {d : Document} {rest : Fields}
    (h : (Document.map ((key, d) :: rest)).Keyed) : d.Keyed :=
  h.each (key, d) List.mem_cons_self

theorem Keyed.tail {key : Text} {d : Document} {rest : Fields}
    (h : (Document.map ((key, d) :: rest)).Keyed) :
    key ∉ keys rest ∧ (Document.map rest).Keyed := by
  obtain ⟨hkey, hrest⟩ : key ∉ keys rest ∧ (keys rest).Nodup := by simpa [keys] using h.once
  exact ⟨hkey, .map hrest (List.forall_mem_cons.mp h.each).2⟩

theorem Keyed.item {items : List Document} (h : (Document.list items).Keyed) {d : Document}
    (hd : d ∈ items) : d.Keyed := by
  cases h with
  | list each => exact each d hd

mutual

/-- Decides whether the maps of a document bind each key once. -/
def isKeyed : Document → Bool
  | .scalar _ => true
  | .list items => itemsKeyed items
  | .map fields => decide (keys fields).Nodup && fieldsKeyed fields

/-- Decides whether all items are keyed. -/
def itemsKeyed : List Document → Bool
  | [] => true
  | d :: rest => isKeyed d && itemsKeyed rest

/-- Decides whether the values of all fields are keyed. -/
def fieldsKeyed : Fields → Bool
  | [] => true
  | (_, d) :: rest => isKeyed d && fieldsKeyed rest

end

theorem itemsKeyed_eq_all (items : List Document) : itemsKeyed items = items.all isKeyed := by
  induction items with
  | nil => simp [itemsKeyed]
  | cons d rest ih => simp [itemsKeyed, ih]

theorem fieldsKeyed_eq_all (fields : Fields) :
    fieldsKeyed fields = fields.all fun f => isKeyed f.2 := by
  induction fields with
  | nil => simp [fieldsKeyed]
  | cons f rest ih =>
    obtain ⟨k, d⟩ := f
    simp [fieldsKeyed, ih]

theorem isKeyed_iff {d : Document} : d.isKeyed = true ↔ d.Keyed := by
  induction d using Document.induct with
  | scalar v => simpa [isKeyed] using Keyed.scalar v
  | list items ih =>
    simp only [isKeyed, itemsKeyed_eq_all, List.all_eq_true]
    constructor
    · exact fun h => .list fun d hd => (ih d hd).mp (h d hd)
    · exact fun h d hd => (ih d hd).mpr (h.item hd)
  | map fields ih =>
    simp only [isKeyed, fieldsKeyed_eq_all, Bool.and_eq_true, decide_eq_true_eq,
      List.all_eq_true]
    constructor
    · exact fun h => .map h.1 fun f hf => (ih f hf).mp (h.2 f hf)
    · exact fun h => ⟨h.once, fun f hf => (ih f hf).mpr (h.each f hf)⟩

instance : DecidablePred Keyed := fun _ => decidable_of_iff _ isKeyed_iff

/-- A document is a map, or it has no fields. -/
theorem map_or_not (d : Document) : (∃ fields, d = .map fields) ∨ d.fields? = none := by
  cases d with
  | map fields => exact Or.inl ⟨fields, rfl⟩
  | scalar v => exact Or.inr rfl
  | list items => exact Or.inr rfl

-- the equations of both recursions, one for each form of a document
attribute [local grind =] carriedFields carriedValue mergeFields mergeOver

/-! ## Carrying, key by key -/

section Carry

variable (mark : Text)

/-- Carrying keeps the keys and their order. -/
@[simp] theorem keys_carriedFields (prior fields : Fields) :
    keys (carriedFields mark prior fields) = keys fields := by
  induction fields with
  | nil => grind
  | cons f rest ih =>
    obtain ⟨k, d⟩ := f
    simpa [carriedFields, keys] using ih

theorem get?_carriedFields (prior fields : Fields) (key : Text) :
    get? key (carriedFields mark prior fields) =
      (get? key fields).map (carriedValue mark (get? key prior)) := by
  induction fields with
  | nil => simp [carriedFields, get?]
  | cons f rest ih =>
    obtain ⟨k, d⟩ := f
    by_cases hk : k = key
    · simp [carriedFields, get?, hk]
    · simp [carriedFields, get?, hk, ih]

theorem carriedValue_of_not_map {d : Document} (h : d.fields? = none) (prior : Option Document) :
    carriedValue mark prior d = carriedLeaf mark prior d := by
  cases d with
  | map fields => simp [fields?] at h
  | scalar v => grind
  | list items => grind

@[simp] theorem carriedLeaf_none (d : Document) : carriedLeaf mark none d = d :=
  (eq_carriedLeaf (carryLeaf_none d)).symm

/-- A leaf that is carried forward stays no map. -/
theorem fields?_carriedLeaf {d : Document} (h : d.fields? = none) (prior : Option Document) :
    (carriedLeaf mark prior d).fields? = none := by
  unfold carriedLeaf
  split
  · split
    · split <;> rfl
    · rfl
  · exact h

/-- Where nothing came before, nothing is carried. -/
@[simp] theorem carriedValue_none (d : Document) : carriedValue mark none d = d :=
  (eq_carriedValue (carryValue_none d)).symm

@[simp] theorem carriedFields_nil (fields : Fields) : carriedFields mark [] fields = fields :=
  (eq_carriedFields (carryFields_nil fields)).symm

end Carry

/-! ## Merging, key by key -/

/-- Fields that bind each key once are merged by what each key held before and holds later. -/
theorem get?_mergeFields {later : Fields} (once : (keys later).Nodup) (base : Fields)
    (key : Text) :
    get? key (mergeFields base later) =
      match get? key later with
      | none => get? key base
      | some d => some (mergeOver (get? key base) d) := by
  induction later generalizing base with
  | nil => simp [mergeFields, get?]
  | cons f rest ih =>
    obtain ⟨k, d⟩ := f
    obtain ⟨hk, hrest⟩ : k ∉ keys rest ∧ (keys rest).Nodup := by simpa [keys] using once
    rw [mergeFields, ih hrest]
    by_cases he : k = key
    · subst he
      simp [get?, get?_eq_none_iff.mpr hk]
    · simp [get?, he, get?_put_of_ne (Ne.symm he)]

theorem nodup_mergeFields {base : Fields} (once : (keys base).Nodup) (later : Fields) :
    (keys (mergeFields base later)).Nodup := by
  induction later generalizing base with
  | nil => grind
  | cons f rest ih =>
    rw [mergeFields]
    exact ih (nodup_keys_put once)

theorem mem_keys_mergeFields {base later : Fields} {key : Text} :
    key ∈ keys (mergeFields base later) ↔ key ∈ keys base ∨ key ∈ keys later := by
  induction later generalizing base with
  | nil => simp [mergeFields, keys]
  | cons f rest ih =>
    obtain ⟨k, d⟩ := f
    rw [mergeFields, ih, mem_keys_put]
    simp [keys, or_assoc, or_left_comm]

theorem mergeFields_ne_nil {later : Fields} (h : later ≠ []) (base : Fields) :
    mergeFields base later ≠ [] := by
  obtain ⟨⟨k, d⟩, rest, rfl⟩ := List.exists_cons_of_ne_nil h
  have hk : k ∈ keys (mergeFields base ((k, d) :: rest)) :=
    mem_keys_mergeFields.mpr (Or.inr List.mem_cons_self)
  intro hnil
  simp [hnil, keys] at hk

@[simp] theorem mergeOver_none (d : Document) : mergeOver none d = d := by
  cases d <;> simp [mergeOver]

theorem mergeOver_of_not_map {d : Document} (h : d.fields? = none) (current : Option Document) :
    mergeOver current d = d := by
  cases d with
  | map fields => simp [fields?] at h
  | scalar v => grind
  | list items => grind

/-- Later fields whose keys are all new are appended. -/
theorem mergeFields_of_new {base later : Fields} (once : (keys (base ++ later)).Nodup) :
    mergeFields base later = base ++ later := by
  induction later generalizing base with
  | nil => simp [mergeFields]
  | cons f rest ih =>
    obtain ⟨k, d⟩ := f
    have once' : (keys ((base ++ [(k, d)]) ++ rest)).Nodup := by simpa using once
    have hk : k ∉ keys base := not_mem_keys_of_nodup once
    rw [mergeFields, get?_eq_none_iff.mpr hk, mergeOver_none, put_of_not_mem hk, ih once']
    simp

@[simp] theorem mergeFields_nil {fields : Fields} (once : (keys fields).Nodup) :
    mergeFields [] fields = fields := by
  have h : mergeFields [] fields = [] ++ fields := mergeFields_of_new (by simpa using once)
  simpa using h

/-! ## A value laid over another -/

/-- What a key holds once a later value was laid over what it held before: the carry marks in the
later value are replaced first, then it is merged. -/
def laid (mark : Text) (prior : Option Document) (d : Document) : Document :=
  mergeOver prior (carriedValue mark prior d)

section Laid

variable (mark : Text)

@[simp] theorem fieldsOf_none : fieldsOf none = [] := rfl

@[simp] theorem fieldsOf_map (fields : Fields) : fieldsOf (some (.map fields)) = fields := rfl

theorem fieldsOf_of_not_map {d : Document} (h : d.fields? = none) : fieldsOf (some d) = [] := by
  simp [fieldsOf, h]

theorem laid_of_not_map {d : Document} (h : d.fields? = none) (prior : Option Document) :
    laid mark prior d = carriedLeaf mark prior d := by
  rw [laid, carriedValue_of_not_map mark h, mergeOver_of_not_map (fields?_carriedLeaf mark h prior)]

theorem eq_map_of_fieldsOf {prior : Option Document} (h : fieldsOf prior ≠ []) :
    prior = some (.map (fieldsOf prior)) := by
  cases prior with
  | none => simp at h
  | some d =>
    rcases d.map_or_not with ⟨fields, rfl⟩ | hd
    · simp
    · simp [fieldsOf_of_not_map hd] at h

theorem Keyed.fieldsOf {prior : Option Document} (h : ∀ d, prior = some d → d.Keyed) :
    (Document.map (fieldsOf prior)).Keyed := by
  by_cases hp : Document.fieldsOf prior = []
  · rw [hp]
    exact .map (by simp [keys]) (by simp)
  · exact h _ (eq_map_of_fieldsOf hp)

/-- Laying a map over a value merges it with the fields that were there. -/
theorem laid_map {fields : Fields} (once : (keys fields).Nodup) (prior : Option Document) :
    laid mark prior (.map fields) =
      .map (mergeFields (fieldsOf prior) (carriedFields mark (fieldsOf prior) fields)) := by
  cases prior with
  | none => simp [laid, mergeFields_nil once]
  | some d =>
    rcases d.map_or_not with ⟨base, rfl⟩ | hd
    · simp [laid, carriedValue, mergeOver]
    · rw [laid, carriedValue, fieldsOf_of_not_map hd, carriedFields_nil, mergeFields_nil once]
      cases d with
      | map base => cases hd
      | scalar v => simp [mergeOver]
      | list items => simp [mergeOver]

/-- **Carrying and merging agree at every key.**  Under a key of the later map stands its value
laid over what the key held before; every other key holds what it held. -/
theorem get?_merge_carry {fields : Fields} (once : (keys fields).Nodup) (base : Fields)
    (key : Text) :
    get? key (mergeFields base (carriedFields mark base fields)) =
      match get? key fields with
      | none => get? key base
      | some d => some (laid mark (get? key base) d) := by
  rw [get?_mergeFields (by simpa using once), get?_carriedFields]
  cases get? key fields with
  | none => rfl
  | some d => rfl

end Laid

end Document

end Colourway
