import Colourway.Proofs.Document.Ranked

/-!
# Documents up to the order of keys

`Reordered` relates documents that differ in the order of the keys of their maps at most.  Entries
that can stand in one document, each path once, make such documents in all their orders
(`reordered_ofEntries`), and the entries of what they make are the given ones with ranked positions
(**`entries_ofEntries`**).
-/

namespace Colourway

open Assoc Growth

namespace Document

/-- The documents are the same but for the order of the keys of their maps. -/
inductive Reordered : Document → Document → Prop
  /-- Scalars are the same. -/
  | scalar (v : Scalar) : Reordered (.scalar v) (.scalar v)
  /-- Lists are the same item by item. -/
  | list {items others : List Document} (length : items.length = others.length)
      (each : ∀ (i : Nat) (d e : Document),
        items[i]? = some d → others[i]? = some e → Reordered d e) :
      Reordered (.list items) (.list others)
  /-- Maps have the same keys, and the same under each. -/
  | map {fields others : Fields} (keys_perm : (keys fields).Perm (keys others))
      (each : ∀ (key : Text) (d e : Document),
        get? key fields = some d → get? key others = some e → Reordered d e) :
      Reordered (.map fields) (.map others)

/-! ## Closing in another order -/

/-- The order of the children matters for the order of keys only. -/
theorem reordered_close {children others : List (Segment × Document)}
    (once : (keys children).Nodup) (hperm : (keys children).Perm (keys others))
    (alike : ∀ s ∈ keys children, ∀ t ∈ keys children, s.isIndex = t.isIndex)
    (each : ∀ s d e, get? s children = some d → get? s others = some e → Reordered d e) :
    Reordered (close children) (close others) := by
  have once' : (keys others).Nodup := hperm.nodup_iff.mp once
  by_cases hkeys : ∀ s ∈ keys children, s.isIndex = false
  · have hchildren : ∀ c ∈ children, c.1.isIndex = false :=
      fun c hc => hkeys c.1 (List.mem_map_of_mem hc)
    have hothers : ∀ c ∈ others, c.1.isIndex = false :=
      fun c hc => hkeys c.1 (hperm.mem_iff.mpr (List.mem_map_of_mem hc))
    rw [close_of_keys hchildren, close_of_keys hothers]
    refine .map ?_ fun name d e hd he => ?_
    · have htext := hperm.map Segment.text
      rw [keys, keys, List.map_map, List.map_map] at htext ⊢
      exact htext
    · rw [get?_map_text hchildren] at hd
      rw [get?_map_text hothers] at he
      exact each _ d e hd he
  · obtain ⟨s, hs, hindex⟩ : ∃ s ∈ keys children, s.isIndex = true := by simpa using hkeys
    have hchildren : ∀ c ∈ children, c.1.isIndex = true :=
      fun c hc => (alike c.1 (List.mem_map_of_mem hc) s hs).trans hindex
    have hothers : ∀ c ∈ others, c.1.isIndex = true := fun c hc =>
      (alike c.1 (hperm.mem_iff.mpr (List.mem_map_of_mem hc)) s hs).trans hindex
    have hne : children ≠ [] := by
      rintro rfl
      cases hs
    have hne' : others ≠ [] := by
      rintro rfl
      cases hperm.mem_iff.mp hs
    have hsorted : keys (byPosition children) = keys (byPosition others) := by
      have hboth := (((byPosition_perm children).map Prod.fst).trans hperm).trans
        ((byPosition_perm others).map Prod.fst).symm
      have hsort : (keys (byPosition children)).Pairwise fun s t => position s < position t :=
        List.pairwise_map.mpr (pairwise_byPosition once hchildren)
      have hsort' : (keys (byPosition others)).Pairwise fun s t => position s < position t :=
        List.pairwise_map.mpr (pairwise_byPosition once' hothers)
      exact List.Perm.eq_of_pairwise (fun s t _ _ hst hts => absurd hst (Int.lt_asymm hts)) hsort
        hsort' hboth
    rw [close_of_positions hne hchildren, close_of_positions hne' hothers]
    refine .list ?_ fun i d e hd he => ?_
    · have hlength := congrArg List.length hsorted
      simpa [keys] using hlength
    · rw [List.getElem?_map, Option.map_eq_some_iff] at hd he
      obtain ⟨⟨s, d⟩, hi, rfl⟩ := hd
      obtain ⟨⟨t, e⟩, hi', rfl⟩ := he
      obtain rfl : s = t := by
        have hget := congrArg (·[i]?) hsorted
        simpa [keys, hi, hi'] using hget
      refine each s d e (get?_of_pair_mem once ?_) (get?_of_pair_mem once' ?_)
      · exact (byPosition_perm children).mem_iff.mp (List.mem_of_getElem? hi)
      · exact (byPosition_perm others).mem_iff.mp (List.mem_of_getElem? hi')

/-! ## Leaves in another order -/

/-- What other leaves have below the root is reordered if what is behind each first segment is. -/
theorem reordered_madeParts {leaves others : List Leaf} (hperm : leaves.Perm others)
    (compatible : Path.Compatible (leaves.map Prod.fst))
    (each : ∀ s ∈ Path.heads (leaves.map Prod.fst), ∀ d e,
      made? (leavesBehind s leaves) = some d → made? (leavesBehind s others) = some e →
        Reordered d e) :
    Reordered (close (madeParts leaves)) (close (madeParts others)) := by
  have hheads : ∀ s, s ∈ keys (madeParts leaves) ↔ s ∈ keys (madeParts others) := by
    intro s
    rw [mem_keys_madeParts, mem_keys_madeParts, Path.heads, Path.heads]
    exact ((hperm.map Prod.fst).filterMap List.head?).mem_iff
  refine reordered_close (nodup_madeParts leaves) ?_ ?_ ?_
  · exact (List.perm_ext_iff_of_nodup (nodup_madeParts leaves) (nodup_madeParts others)).mpr hheads
  · intro s hs t ht
    exact compatible.heads_alike (mem_keys_madeParts.mp hs) (mem_keys_madeParts.mp ht)
  · intro s d e hd he
    have hs : s ∈ keys (madeParts leaves) := List.mem_map_of_mem (pair_mem_of_get? hd)
    rw [get?_madeParts] at hd he
    exact each s (mem_keys_madeParts.mp hs) d e hd he

/-- Leaves with different paths make the same in another order, but for the order of keys. -/
theorem reordered_made {leaves : List Leaf} (hne : leaves ≠ [])
    (compatible : Path.Compatible (leaves.map Prod.fst)) (scalars : OfScalars leaves)
    (once : (leaves.map Prod.fst).Nodup) {others : List Leaf} (hperm : leaves.Perm others)
    {d e : Document} (hd : made? leaves = some d) (he : made? others = some e) :
    Reordered d e := by
  refine induct_compatible (motive := fun leaves => ∀ others d e, OfScalars leaves →
    (leaves.map Prod.fst).Nodup → leaves.Perm others →
      made? leaves = some d → made? others = some e → Reordered d e)
    ?_ ?_ hne compatible others d e scalars once hperm hd he
  · intro leaves hne hnil others d e scalars once hperm hd he
    have hnil' : ∀ l ∈ others, l.1 = [] := fun l hl => hnil l (hperm.mem_iff.mpr hl)
    rw [made?_of_nil hnil] at hd
    rw [made?_of_nil hnil'] at he
    -- One path, so one leaf.
    have hfirst := get?_of_pair_mem once (mem_of_last? hd)
    have hsecond := get?_of_pair_mem once (hperm.mem_iff.mpr (mem_of_last? he))
    obtain rfl : d = e := Option.some.inj (hfirst.symm.trans hsecond)
    obtain ⟨v, rfl⟩ := scalars _ (mem_of_last? hd)
    exact .scalar v
  · intro leaves hne hpaths compatible ih others d e scalars once hperm hd he
    have hpaths' : ∀ l ∈ others, l.1 ≠ [] := fun l hl => hpaths l (hperm.mem_iff.mpr hl)
    have hne' : others ≠ [] := fun h => hne (by simpa [h] using hperm)
    rw [made?_of_ne_nil hpaths hne] at hd
    rw [made?_of_ne_nil hpaths' hne'] at he
    obtain rfl := Option.some.inj hd
    obtain rfl := Option.some.inj he
    refine reordered_madeParts hperm compatible fun s hs d e hd he => ?_
    have hbehind : ((leavesBehind s leaves).map Prod.fst).Nodup := by
      rw [map_fst_leavesBehind]
      exact Path.nodup_behind once s
    exact ih s hs _ d e (scalars.behind s) hbehind (hperm.filterMap _) hd he

/-- Entries with different paths describe the same document in another order, but for the order of
keys. -/
theorem reordered_ofEntries {entries others : List Entry} (hperm : entries.Perm others)
    (compatible : Path.Compatible (entries.map Entry.path))
    (scalars : ∀ e ∈ entries, ∃ v, e.value = .scalar v) (once : (entries.map Entry.path).Nodup) :
    Reordered (ofEntries entries) (ofEntries others) := by
  have hscalars : OfScalars (entries.map Entry.leaf) := List.forall_mem_map.mpr scalars
  rw [← map_fst_leaf] at compatible once
  rw [ofEntries_eq_close, ofEntries_eq_close]
  refine reordered_madeParts (hperm.map _) compatible fun s hs d e hd he => ?_
  refine reordered_made (leavesBehind_ne_nil hs) (compatible.leavesBehind s) (hscalars.behind s) ?_
    ((hperm.map _).filterMap _) hd he
  rw [map_fst_leavesBehind]
  exact Path.nodup_behind once s

/-- **Taking apart undoes putting together, whatever the order of the entries.**  Entries that can
stand in one document come out of it once for each path, with the last value that was given for it
and with each position as its rank among its siblings; those below a list know their place in it.
Other orders of entries with different paths change the order of keys at most. -/
theorem entries_ofEntries {entries : List Entry} (paths : ∀ e ∈ entries, e.path ≠ [])
    (scalars : ∀ e ∈ entries, ∃ v, e.value = .scalar v)
    (compatible : Path.Compatible (entries.map Entry.path)) :
    ((ofEntries entries).entries.map fun e => (e.path, some e.value)).Perm
      ((entries.map Entry.path).dedup.map fun p =>
        (Path.ranked (entries.map Entry.path) p, last? p (entries.map Entry.leaf))) ∧
    ((ofEntries entries).entries.map Entry.path).Nodup ∧
    (∀ e ∈ (ofEntries entries).entries, e.place = Path.place? e.path) ∧
    ((entries.map Entry.path).Nodup → ∀ others, entries.Perm others →
      Reordered (ofEntries entries) (ofEntries others)) := by
  have hholds := holds_ofEntries paths compatible scalars
  have hleaves : (ofEntries entries).leaves = (ofEntries entries).entries.map Entry.leaf := by
    rw [ofEntries_eq_close]
    exact leaves_of_container (isContainer_close _)
  refine ⟨?_, ?_, fun e he => place_of_mem_entries he, fun once others hperm =>
    reordered_ofEntries hperm compatible scalars once⟩
  · have hperm := hholds.leaves_perm
    rw [hleaves, lastLeaves, map_fst_leaf, List.map_map] at hperm
    exact hperm
  · rw [← map_fst_leaf, ← hleaves]
    exact nodup_leaves hholds.keyed

/-- Entries of two branches in turns, with gaps between the positions and one path twice. -/
def scattered : List Entry :=
  [⟨[.key "a", .index 5], .text "old", none⟩,
    ⟨[.key "b", .key "7"], .scalar (.int 1), none⟩,
    ⟨[.key "a", .index (-2), .index 9], .scalar .null, none⟩,
    ⟨[.key "a", .index 5], .text "new", none⟩]

/-- The positions move together, and the later of two values counts. -/
theorem scattered_gathered :
    (∀ e ∈ scattered, e.path ≠ []) ∧ (∀ e ∈ scattered, ∃ v, e.value = .scalar v) ∧
      Path.Compatible (scattered.map Entry.path) ∧
      ((ofEntries scattered).entries.map fun e => (e.path, some e.value)).Perm
        [([.key "b", .key "7"], some (.scalar (.int 1))),
          ([.key "a", .index 0, .index 0], some (.scalar .null)),
          ([.key "a", .index 1], some (.text "new"))] ∧
      Reordered (ofEntries (scattered.drop 1)) (ofEntries (scattered.drop 1).reverse) := by
  have paths : ∀ e ∈ scattered, e.path ≠ [] := by decide
  have scalars : ∀ e ∈ scattered, ∃ v, e.value = .scalar v := by simp [scattered, text]
  have compatible : Path.Compatible (scattered.map Entry.path) := by decide
  refine ⟨paths, scalars, compatible, (entries_ofEntries paths scalars compatible).1, ?_⟩
  have hdrop : ∀ e ∈ scattered.drop 1, e ∈ scattered := fun e he => List.mem_of_mem_drop he
  exact (entries_ofEntries (fun e he => paths e (hdrop e he))
    (fun e he => scalars e (hdrop e he)) (by decide)).2.2.2 (by decide) _
    (List.reverse_perm _).symm

end Document

end Colourway
