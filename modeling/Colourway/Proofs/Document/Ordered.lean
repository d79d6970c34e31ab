import Colourway.Proofs.Document.Parts

/-!
# The order of entries

A document is read depth first: below each container the parts follow each other as they stand in
it.  So two paths are ordered by the segments at which they part (`Precedes`), positions by their
numbers and keys by their places in the map, and of two paths at most one precedes the other
(`Precedes.asymm`).

Main statement: the entries of a map or list are its scalars, each once at the path that leads to
it, in this order and with its place if it is an item of a list
(**`entries_addressable`**).
-/

namespace Colourway

open Assoc

theorem Path.place?_eq_some_iff {path list : Path} {n : Int} :
    path.place? = some ⟨list, n⟩ ↔ path = list ++ [.index n] := by
  constructor
  · intro h
    unfold place? at h
    split at h
    · next m hlast =>
      cases h
      exact (List.dropLast_append_getLast? _ hlast).symm
    · cases h
  · rintro rfl
    exact place?_concat_index list n

namespace Document

/-- One path comes before another when the document is read depth first. -/
inductive Precedes : Document → Path → Path → Prop
  /-- The paths part at two positions. -/
  | position {items : List Document} {m n : Int} {p q : Path} (less : m < n) :
      Precedes (.list items) (.index m :: p) (.index n :: q)
  /-- The paths part at two keys. -/
  | key {fields : Fields} {k l : Text} {p q : Path} (earlier : [k, l].Sublist (keys fields)) :
      Precedes (.map fields) (.key k :: p) (.key l :: q)
  /-- The paths lead into the same part. -/
  | inside {d part : Document} {s : Segment} {p q : Path} (at_segment : (s, part) ∈ d.parts)
      (below : Precedes part p q) : Precedes d (s :: p) (s :: q)

/-- No two keys stand in both orders. -/
theorem not_sublist_swap {α : Type} {xs : List α} (once : xs.Nodup) {a b : α}
    (h : [a, b].Sublist xs) : ¬ [b, a].Sublist xs := by
  induction xs with
  | nil => cases h
  | cons x xs ih =>
    obtain ⟨hx, hxs⟩ := List.nodup_cons.mp once
    intro hswap
    cases h with
    | cons _ h =>
      cases hswap with
      | cons _ hswap => exact ih hxs h hswap
      | cons_cons _ _ => exact hx (h.subset (by simp))
    | cons_cons _ h =>
      cases hswap with
      | cons _ hswap => exact hx (hswap.subset (by simp))
      | cons_cons _ _ => exact hx (h.subset (by simp))

theorem Precedes.asymm {d : Document} (keyed : d.Keyed) {p q : Path} (h : d.Precedes p q) :
    ¬ d.Precedes q p := by
  induction h with
  | position less =>
    intro hswap
    cases hswap with
    | position less' => omega
    | inside _ _ => omega
  | key earlier =>
    intro hswap
    cases hswap with
    | key earlier' => exact not_sublist_swap keyed.once earlier earlier'
    | inside _ _ => exact not_sublist_swap keyed.once earlier earlier
  | inside hpart _ ih =>
    intro hswap
    cases hswap with
    | position less => omega
    | key earlier => exact not_sublist_swap keyed.once earlier earlier
    | inside hpart' hbelow =>
      have hsame := get?_of_pair_mem (nodup_parts keyed) hpart
      rw [get?_of_pair_mem (nodup_parts keyed) hpart'] at hsame
      obtain rfl := Option.some.inj hsame
      exact ih (keyed.part hpart) hbelow

/-- Paths into an earlier part precede those into a later one. -/
theorem pairwise_parts (d : Document) :
    d.parts.Pairwise fun c c' => ∀ p q, d.Precedes (c.1 :: p) (c'.1 :: q) := by
  cases d with
  | scalar v => exact .nil
  | list items =>
    have hpositions : (items.zipIdx.map Prod.snd).Pairwise (· < ·) := by
      rw [List.zipIdx_map_snd]
      exact List.pairwise_lt_range'
    rw [parts, List.pairwise_map]
    exact (List.pairwise_map.mp hpositions).imp fun h _ _ => .position (Int.ofNat_lt.mpr h)
  | map fields =>
    rw [parts, List.pairwise_map, List.pairwise_iff_forall_sublist]
    exact fun h _ _ => .key (h.map Prod.fst)

/-- The leaves of a document stand in its order. -/
theorem pairwise_leaves (d : Document) : (d.leaves.map Prod.fst).Pairwise d.Precedes := by
  induction d using induct_parts with
  | scalar v => simp
  | container d container ih =>
    rw [leaves_eq_flatMap container, List.map_flatMap, List.pairwise_flatMap]
    constructor
    · intro c hc
      rw [List.map_map, List.pairwise_map]
      exact (List.pairwise_map.mp (ih c hc)).imp (.inside hc)
    · refine (pairwise_parts d).imp fun {c c'} h path hpath path' hpath' => ?_
      obtain ⟨l, hl, rfl⟩ := List.mem_map.mp hpath
      obtain ⟨l', hl', rfl⟩ := List.mem_map.mp hpath'
      obtain ⟨_, -, rfl⟩ := List.mem_map.mp hl
      obtain ⟨_, -, rfl⟩ := List.mem_map.mp hl'
      exact h _ _

/-- **The entries of a map or list are its addressable scalars.**  An entry with this path and this
value is there exactly if the path leads to this value, and it is a scalar; no path comes twice, and
they come in the order of the document; an entry has a place exactly if its path ends with a
position, and standing at `lead` changes nothing but the lead of the paths. -/
theorem entries_addressable {d : Document} (keyed : d.Keyed) (container : d.isContainer = true) :
    (∀ path value, Lists d.entries path value ↔
      d.at? path = some value ∧ ∃ v, value = .scalar v) ∧
    (d.entries.map Entry.path).Nodup ∧
    ((d.entries.map Entry.path).Pairwise fun p q => d.Precedes p q ∧ ¬ d.Precedes q p) ∧
    (∀ e ∈ d.entries, ∀ list n, e.place = some ⟨list, n⟩ ↔ e.path = list ++ [.index n]) ∧
    ∀ lead, d.entriesBelow lead = d.entries.map (Entry.below lead) := by
  have hpaths : d.entries.map Entry.path = d.leaves.map Prod.fst := by
    rw [leaves_of_container container, map_fst_leaf]
  rw [hpaths]
  refine ⟨fun path value => ?_, nodup_leaves keyed, ?_, fun e he list n => ?_, fun lead => ?_⟩
  · rw [lists_entries keyed container]
    constructor
    · rintro ⟨v, hat, rfl⟩
      exact ⟨hat, v, rfl⟩
    · rintro ⟨hat, v, rfl⟩
      exact ⟨v, hat, rfl⟩
  · exact (pairwise_leaves d).imp fun h => ⟨h, h.asymm keyed⟩
  · rw [place_of_mem_entries he, Path.place?_eq_some_iff]
  · exact entriesBelow_eq lead d

/-- A map with a list in a list, an empty map, a key with a dot and an empty key. -/
def nestedLists : Document :=
  .map [("a", .list [.text "x", .map [("b.c", .null)], .list [.text "y"]]), ("b", .map []),
    ("", .text "z")]

/-- The positions of its lists are no keys and are not counted from the end; the leaf behind the
empty key is the last one. -/
theorem nestedLists_addressable :
    nestedLists.Keyed ∧ nestedLists.isContainer = true ∧
      Lists nestedLists.entries [.key "a", .index 2, .index 0] (.text "y") ∧
      (∀ value, ¬ Lists nestedLists.entries [.key "a", .index (-1), .index 0] value) ∧
      (∀ value, ¬ Lists nestedLists.entries [.key "a", .key "2", .index 0] value) ∧
      nestedLists.Precedes [.key "a", .index 2, .index 0] [.key ""] ∧
      nestedLists.entriesBelow [.key "t"] = nestedLists.entries.map (Entry.below [.key "t"]) := by
  have keyed : nestedLists.Keyed := by decide
  obtain ⟨hlists, -, horder, -, hbelow⟩ := entries_addressable keyed rfl
  refine ⟨keyed, rfl, (hlists _ _).mpr ⟨rfl, _, rfl⟩, fun value h => ?_, fun value h => ?_, ?_,
    hbelow _⟩
  · cases ((hlists _ _).mp h).1
  · cases ((hlists _ _).mp h).1
  · exact ((List.pairwise_iff_forall_sublist.mp horder) (by decide)).1

end Document

end Colourway
