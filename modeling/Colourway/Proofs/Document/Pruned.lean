import Colourway.Proofs.Document.Growth
import Mathlib.Data.List.Pairwise

/-!
# Documents put together from their own entries

Empty containers have no leaves, so they are lost when a document is taken apart.  What is put
together again from its entries is the document without them: `Document.prune` deletes from the
leaves up each part that is an empty container or has become one.

Main statement: putting together what was taken apart prunes, and so gives the document back where
no empty container stands below its root (**`ofEntries_entries`**).
-/

namespace Colourway

open Assoc Growth

namespace Document

/-- Whether a document is an empty container. -/
def isHollow : Document → Bool
  | .scalar _ => false
  | .list items => items.isEmpty
  | .map fields => fields.isEmpty

mutual

/-- The document without the parts that are, or have become, empty containers. -/
def prune : Document → Document
  | .scalar v => .scalar v
  | .list items => .list ((pruneItems items).filter fun d => !d.isHollow)
  | .map fields => .map ((pruneFields fields).filter fun f => !f.2.isHollow)

/-- The items, each pruned. -/
def pruneItems : List Document → List Document
  | [] => []
  | d :: rest => prune d :: pruneItems rest

/-- The fields, each with its value pruned. -/
def pruneFields : Fields → Fields
  | [] => []
  | (k, d) :: rest => (k, prune d) :: pruneFields rest

end

/-- The pruned document, the empty map if nothing is left of it. -/
def pruned (d : Document) : Document := if d.prune.isHollow then .map [] else d.prune

/-! ## What pruning keeps -/

/-- What pruning keeps of a part, if anything. -/
def kept? (d : Document) : Option Document := if d.prune.isHollow then none else some d.prune

theorem filter_pruneItems (items : List Document) :
    (pruneItems items).filter (fun d => !d.isHollow) = items.filterMap kept? := by
  induction items with
  | nil => simp [pruneItems]
  | cons d rest ih =>
    rw [pruneItems]
    by_cases h : d.prune.isHollow = true <;> simp [kept?, h, ih]

theorem filter_pruneFields (fields : Fields) :
    (pruneFields fields).filter (fun f => !f.2.isHollow) =
      fields.filterMap fun f => f.2.kept?.map (f.1, ·) := by
  induction fields with
  | nil => simp [pruneFields]
  | cons f rest ih =>
    obtain ⟨k, d⟩ := f
    rw [pruneFields]
    by_cases h : d.prune.isHollow = true <;> simp [kept?, h, ih]

/-- What pruning keeps of the parts of a document, under the segments where they stood. -/
def keptParts (d : Document) : List (Segment × Document) :=
  d.parts.filterMap fun c => c.2.kept?.map (c.1, ·)

theorem map_snd_keptParts_list (items : List Document) :
    (keptParts (.list items)).map Prod.snd = items.filterMap kept? := by
  calc (keptParts (.list items)).map Prod.snd
      = (Document.list items).parts.filterMap fun c => c.2.kept? := by
        rw [keptParts, List.map_filterMap]
        congr 1
        funext c
        simp [Function.comp_def]
    _ = (items.zipIdx.map Prod.fst).filterMap kept? := by
        rw [parts, List.filterMap_map, List.filterMap_map]
        rfl
    _ = items.filterMap kept? := by rw [List.zipIdx_map_fst]

theorem map_text_keptParts_map (fields : Fields) :
    (keptParts (.map fields)).map (fun c => (c.1.text, c.2)) =
      fields.filterMap fun f => f.2.kept?.map (f.1, ·) := by
  rw [keptParts, parts, List.map_filterMap, List.filterMap_map]
  congr 1
  funext f
  simp [Function.comp_def, Segment.text]

theorem mem_keptParts {d : Document} {c : Segment × Document} (h : c ∈ d.keptParts) :
    ∃ p ∈ d.parts, p.1 = c.1 ∧ p.2.kept? = some c.2 := by
  obtain ⟨p, hp, hkept⟩ := List.mem_filterMap.mp h
  obtain ⟨e, he, rfl⟩ := Option.map_eq_some_iff.mp hkept
  exact ⟨p, hp, rfl, he⟩

/-- The kept items of a list stand in the order of their positions. -/
theorem pairwise_keptParts_list (items : List Document) :
    (keptParts (.list items)).Pairwise fun a b => position a.1 ≤ position b.1 := by
  have hpositions : (items.zipIdx.map Prod.snd).Pairwise (· < ·) := by
    rw [List.zipIdx_map_snd]
    exact List.pairwise_lt_range'
  have hparts : (Document.list items).parts.Pairwise fun a b => position a.1 ≤ position b.1 := by
    rw [parts, List.pairwise_map]
    exact (List.pairwise_map.mp hpositions).imp fun h => Int.ofNat_le.mpr (Nat.le_of_lt h)
  refine List.pairwise_filterMap.mpr (hparts.imp fun h => ?_)
  intro a ha b hb
  obtain ⟨_, -, rfl⟩ := Option.map_eq_some_iff.mp ha
  obtain ⟨_, -, rfl⟩ := Option.map_eq_some_iff.mp hb
  exact h

/-- Nothing is kept of the parts of a container that pruning leaves empty. -/
theorem keptParts_eq_nil_iff {d : Document} (h : d.isContainer = true) :
    d.keptParts = [] ↔ d.prune.isHollow = true := by
  cases d with
  | scalar v => cases h
  | list items =>
    rw [prune, isHollow, filter_pruneItems, ← map_snd_keptParts_list]
    simp
  | map fields =>
    rw [prune, isHollow, filter_pruneFields, ← map_text_keptParts_map]
    simp

/-- Closing what is kept of a container gives the pruned document. -/
theorem close_keptParts {d : Document} (h : d.isContainer = true) :
    close d.keptParts = d.pruned := by
  have hnil := keptParts_eq_nil_iff h
  cases d with
  | scalar v => cases h
  | list items =>
    by_cases hhollow : (Document.list items).prune.isHollow = true
    · rw [hnil.mpr hhollow, pruned, if_pos hhollow]
      rfl
    · have hpositions : ∀ c ∈ keptParts (.list items), c.1.isIndex = true := by
        intro c hc
        obtain ⟨p, hp, hsegment, -⟩ := mem_keptParts hc
        obtain ⟨q, -, rfl⟩ := List.mem_map.mp hp
        rw [← hsegment]
        rfl
      have hsorted : byPosition (keptParts (.list items)) = keptParts (.list items) := by
        refine List.mergeSort_of_pairwise ?_
        simpa using pairwise_keptParts_list items
      rw [close_of_positions (mt hnil.mp hhollow) hpositions, hsorted, map_snd_keptParts_list,
        ← filter_pruneItems, pruned, if_neg hhollow, prune]
  | map fields =>
    have hkeys : ∀ c ∈ keptParts (.map fields), c.1.isIndex = false := by
      intro c hc
      obtain ⟨p, hp, hsegment, -⟩ := mem_keptParts hc
      obtain ⟨f, -, rfl⟩ := List.mem_map.mp hp
      rw [← hsegment]
      rfl
    rw [close_of_keys hkeys, map_text_keptParts_map, ← filter_pruneFields, pruned, prune]
    split
    · next hhollow =>
      rw [isHollow, List.isEmpty_iff] at hhollow
      rw [hhollow]
    · rfl

/-! ## Growing again -/

/-- The leaves of a container make what pruning keeps of its parts. -/
theorem madeParts_leaves {d : Document} (keyed : d.Keyed) (h : d.isContainer = true)
    (each : ∀ c ∈ d.parts, made? c.2.leaves = c.2.kept?) : madeParts d.leaves = d.keptParts := by
  have hkeys : keys (d.parts.map fun c => (c.1, c.2.leaves)) = keys d.parts := by
    rw [keys, List.map_map]
    rfl
  have hgroups := madeParts_groups (d.parts.map fun c => (c.1, c.2.leaves))
    (by rw [hkeys]; exact nodup_parts keyed)
  rw [List.flatMap_map, List.filterMap_map] at hgroups
  rw [leaves_eq_flatMap h, hgroups, keptParts]
  refine List.filterMap_congr fun c hc => ?_
  rw [← each c hc]
  rfl

/-- A container grows again as what pruning keeps of it, if its parts do. -/
theorem made?_leaves_of_parts {d : Document} (keyed : d.Keyed) (h : d.isContainer = true)
    (each : ∀ c ∈ d.parts, made? c.2.leaves = c.2.kept?) : made? d.leaves = d.kept? := by
  have hparts := madeParts_leaves keyed h each
  have hnil := keptParts_eq_nil_iff h
  by_cases hleaves : d.leaves = []
  · have hhollow : d.prune.isHollow = true := by
      rw [← hnil, ← hparts, hleaves]
      rfl
    rw [made?_eq_none_iff.mpr hleaves, kept?, if_pos hhollow]
  · have hpaths : ∀ l ∈ d.leaves, l.1 ≠ [] := fun l hl => path_ne_nil_of_mem_leaves h hl
    have hhollow : ¬ d.prune.isHollow = true := by
      have hgrown := grow_ne_nil hpaths hleaves []
      rw [← hnil, ← hparts, madeParts, finishAll_eq_map]
      simpa using hgrown
    rw [made?_of_ne_nil hpaths hleaves, kept?, if_neg hhollow, hparts, close_keptParts h, pruned,
      if_neg hhollow]

/-- The leaves of a document make what pruning keeps of it. -/
theorem made?_leaves {d : Document} (keyed : d.Keyed) : made? d.leaves = d.kept? := by
  induction d using induct_parts with
  | scalar v => simp [made?, grownAll, grown, finish, kept?, prune, isHollow]
  | container d container ih =>
    exact made?_leaves_of_parts keyed container fun c hc => ih c hc (keyed.part hc)

/-! ## Documents without empty containers -/

/-- No part of the document below its root is an empty container. -/
def Filled (d : Document) : Prop :=
  ∀ path part, path ≠ [] → d.at? path = some part → part.isHollow = false

theorem filled_scalar (v : Scalar) : (Document.scalar v).Filled := by
  intro path part hne hat
  cases path with
  | nil => exact absurd rfl hne
  | cons s rest => simp [at?] at hat

theorem filled_list_iff {items : List Document} :
    (Document.list items).Filled ↔ ∀ d ∈ items, d.isHollow = false ∧ d.Filled := by
  constructor
  · intro h d hd
    obtain ⟨i, hi⟩ := List.mem_iff_getElem?.mp hd
    have hat : ∀ path, (Document.list items).at? (.index i :: path) = d.at? path := by
      intro path
      simp [at?, hi]
    refine ⟨h [.index i] d (by simp) (by rw [hat]; rfl), fun path part _ hpart => ?_⟩
    exact h (.index i :: path) part (by simp) (by rwa [hat])
  · intro h path part hne hat
    rcases path with - | ⟨key | n, rest⟩
    · exact absurd rfl hne
    · simp [at?] at hat
    · rw [at?] at hat
      split at hat
      · obtain ⟨d, hd, hbelow⟩ := Option.bind_eq_some_iff.mp hat
        obtain ⟨hhollow, hfilled⟩ := h d (List.mem_of_getElem? hd)
        cases rest with
        | nil =>
          obtain rfl : d = part := by simpa [at?] using hbelow
          exact hhollow
        | cons s rest => exact hfilled (s :: rest) part (by simp) hbelow
      · cases hat

theorem filled_map_iff {fields : Fields} (once : (keys fields).Nodup) :
    (Document.map fields).Filled ↔ ∀ f ∈ fields, f.2.isHollow = false ∧ f.2.Filled := by
  constructor
  · intro h f hf
    have hat : ∀ path, (Document.map fields).at? (.key f.1 :: path) = f.2.at? path := by
      intro path
      simp [at?, get?_of_pair_mem once hf]
    refine ⟨h [.key f.1] f.2 (by simp) (by rw [hat]; rfl), fun path part _ hpart => ?_⟩
    exact h (.key f.1 :: path) part (by simp) (by rwa [hat])
  · intro h path part hne hat
    rcases path with - | ⟨key | n, rest⟩
    · exact absurd rfl hne
    · rw [at?] at hat
      obtain ⟨d, hd, hbelow⟩ := Option.bind_eq_some_iff.mp hat
      obtain ⟨hhollow, hfilled⟩ := h (key, d) (pair_mem_of_get? hd)
      cases rest with
      | nil =>
        obtain rfl : d = part := by simpa [at?] using hbelow
        exact hhollow
      | cons s rest => exact hfilled (s :: rest) part (by simp) hbelow
    · simp [at?] at hat

/-- Where there are no empty containers, nothing is pruned. -/
theorem prune_of_filled {d : Document} (keyed : d.Keyed) (filled : d.Filled) : d.prune = d := by
  induction d using Document.induct with
  | scalar v => rfl
  | list items ih =>
    have hkept : items.filterMap kept? = items := by
      refine (List.filterMap_congr fun d hd => ?_).trans List.filterMap_some
      obtain ⟨hhollow, hbelow⟩ := filled_list_iff.mp filled d hd
      rw [kept?, ih d hd (keyed.item hd) hbelow, hhollow]
      rfl
    rw [prune, filter_pruneItems, hkept]
  | map fields ih =>
    have hkept : fields.filterMap (fun f => f.2.kept?.map (f.1, ·)) = fields := by
      refine (List.filterMap_congr fun f hf => ?_).trans List.filterMap_some
      obtain ⟨hhollow, hbelow⟩ := (filled_map_iff keyed.once).mp filled f hf
      rw [kept?, ih f hf (keyed.each f hf) hbelow, hhollow]
      rfl
    rw [prune, filter_pruneFields, hkept]

/-- What pruning keeps is no empty container. -/
theorem isHollow_of_kept? {d e : Document} (h : d.kept? = some e) :
    e.isHollow = false ∧ e = d.prune := by
  rw [kept?] at h
  split at h
  · cases h
  · next hhollow =>
    obtain rfl := Option.some.inj h
    exact ⟨by simpa using hhollow, rfl⟩

/-- Pruning keeps the order of the keys. -/
theorem keys_kept_sublist (fields : Fields) :
    (keys (fields.filterMap fun f => f.2.kept?.map (f.1, ·))).Sublist (keys fields) := by
  induction fields with
  | nil => exact List.Sublist.refl _
  | cons f rest ih =>
    cases hkept : f.2.kept? with
    | none => simpa [hkept, keys] using ih.cons f.1
    | some e => simpa [hkept, keys] using ih

/-- Pruning leaves no empty containers below the root. -/
theorem filled_prune {d : Document} (keyed : d.Keyed) : d.prune.Filled := by
  induction d using Document.induct with
  | scalar v => exact filled_scalar v
  | list items ih =>
    rw [prune, filter_pruneItems, filled_list_iff]
    intro e he
    obtain ⟨d, hd, hkept⟩ := List.mem_filterMap.mp he
    obtain ⟨hhollow, rfl⟩ := isHollow_of_kept? hkept
    exact ⟨hhollow, ih d hd (keyed.item hd)⟩
  | map fields ih =>
    rw [prune, filter_pruneFields, filled_map_iff (keyed.once.sublist (keys_kept_sublist fields))]
    intro e he
    obtain ⟨f, hf, hsome⟩ := List.mem_filterMap.mp he
    obtain ⟨e', hkept, rfl⟩ := Option.map_eq_some_iff.mp hsome
    obtain ⟨hhollow, rfl⟩ := isHollow_of_kept? hkept
    exact ⟨hhollow, ih f hf (keyed.each f hf)⟩

/-- **Putting together what was taken apart prunes.**  So it gives every map, and every list but
the empty one, back if no empty container stands below its root. -/
theorem ofEntries_entries {d : Document} (keyed : d.Keyed) (container : d.isContainer = true) :
    ofEntries d.entries = d.pruned ∧
      (d.Filled → d ≠ .list [] → ofEntries d.entries = d) := by
  have hpruned : ofEntries d.entries = d.pruned := by
    have hparts := madeParts_leaves keyed container fun c hc => made?_leaves (keyed.part hc)
    rw [ofEntries_eq_close, ← leaves_of_container container, hparts, close_keptParts container]
  refine ⟨hpruned, fun filled hne => ?_⟩
  rw [hpruned, pruned, prune_of_filled keyed filled]
  split
  · next hhollow =>
    cases d with
    | scalar v => cases container
    | list items =>
      obtain rfl : items = [] := by simpa [isHollow] using hhollow
      exact absurd rfl hne
    | map fields =>
      obtain rfl : fields = [] := by simpa [isHollow] using hhollow
      rfl
  · rfl

/-- A map with lists in lists, some of them empty or emptied by pruning, and a key of digits. -/
def hollowInside : Document :=
  .map [("a", .list [.list [], .map [("0", .text "x")],
      .list [.null, .map [("c", .list [])], .list [.text "y"]]]),
    ("b", .map [("c", .map [])]), ("", .text "z")]

/-- What is left of it. -/
def hollowGone : Document :=
  .map [("a", .list [.map [("0", .text "x")], .list [.null, .list [.text "y"]]]), ("", .text "z")]

/-- The items of a list move up where others vanish, and an emptied map takes its key along.  A
second time nothing more vanishes. -/
theorem hollowInside_pruned :
    hollowInside.Keyed ∧ hollowInside.isContainer = true ∧
      ofEntries hollowInside.entries = hollowGone ∧
      hollowGone.Filled ∧ ofEntries hollowGone.entries = hollowGone := by
  have keyed : hollowInside.Keyed := by decide
  have filled : hollowGone.Filled := filled_prune keyed
  refine ⟨keyed, rfl, (ofEntries_entries keyed rfl).1.trans rfl, filled, ?_⟩
  exact (ofEntries_entries (by decide) rfl).2 filled (by rintro ⟨⟩)

end Document

end Colourway
