import Colourway.Proofs.Assoc
import Colourway.Proofs.Document.Entries
import Mathlib.Data.List.Nodup

/-!
# Leaves and parts

A leaf is a value with its path.  What leaves say of the part of a document under a segment are the
leaves behind it (`leavesBehind`), and the paths of leaves are the same story without the values
(`Path.behind`).

`Document.parts` lists what stands right below the root of a document.  The leaves of a container
are the groups of its parts, one after the other (**`leaves_eq_flatMap`**), so each path leads to
one leaf (`nodup_leaves`) and the leaves behind a segment are those of the part under it
(`leavesBehind_leaves`).
-/

namespace Colourway

open Assoc

/-- A value with its path. -/
abbrev Leaf := Path × Document

/-- The leaf of an entry. -/
def Entry.leaf (e : Entry) : Leaf := (e.path, e.value)

theorem map_fst_leaf (entries : List Entry) :
    (entries.map Entry.leaf).map Prod.fst = entries.map Entry.path := by
  rw [List.map_map]
  rfl

/-- The leaf as it is when its document stands under a segment of a larger one. -/
def Leaf.under (s : Segment) (l : Leaf) : Leaf := (s :: l.1, l.2)

namespace Path

/-- The segments that paths begin with. -/
def heads (paths : List Path) : List Segment := paths.filterMap List.head?

/-- The rest of a path that begins with a segment. -/
def behind? (s : Segment) : Path → Option Path
  | t :: rest => if t = s then some rest else none
  | [] => none

/-- The rests of the paths that begin with a segment. -/
def behind (s : Segment) (paths : List Path) : List Path := paths.filterMap (behind? s)

theorem behind?_eq_some_iff {s : Segment} {path rest : Path} :
    behind? s path = some rest ↔ path = s :: rest := by
  cases path with
  | nil => simp [behind?]
  | cons t path =>
    by_cases h : t = s <;> simp [behind?, h]

theorem mem_behind {s : Segment} {paths : List Path} {rest : Path} :
    rest ∈ behind s paths ↔ s :: rest ∈ paths := by
  simp [behind, behind?_eq_some_iff]

theorem nodup_behind {paths : List Path} (once : paths.Nodup) (s : Segment) :
    (behind s paths).Nodup := by
  refine List.Nodup.filterMap (fun p q rest hp hq => ?_) once
  rw [behind?_eq_some_iff.mp hp, behind?_eq_some_iff.mp hq]

theorem mem_heads {s : Segment} {paths : List Path} :
    s ∈ heads paths ↔ ∃ rest, s :: rest ∈ paths := by
  simp only [heads, List.mem_filterMap, List.head?_eq_some_iff]
  constructor
  · rintro ⟨_, hmem, rest, rfl⟩
    exact ⟨rest, hmem⟩
  · rintro ⟨rest, hmem⟩
    exact ⟨_, hmem, rest, rfl⟩

end Path

/-- The leaves behind a segment. -/
def leavesBehind (s : Segment) (leaves : List Leaf) : List Leaf :=
  leaves.filterMap fun l => (Path.behind? s l.1).map (·, l.2)

theorem mem_leavesBehind {s : Segment} {leaves : List Leaf} {l : Leaf} :
    l ∈ leavesBehind s leaves ↔ Leaf.under s l ∈ leaves := by
  obtain ⟨rest, value⟩ := l
  simp only [leavesBehind, Leaf.under, List.mem_filterMap, Option.map_eq_some_iff,
    Path.behind?_eq_some_iff]
  constructor
  · rintro ⟨⟨_, _⟩, hmem, _, rfl, ⟨⟩⟩
    exact hmem
  · exact fun hmem => ⟨_, hmem, rest, rfl, rfl⟩

theorem leavesBehind_append (s : Segment) (first second : List Leaf) :
    leavesBehind s (first ++ second) = leavesBehind s first ++ leavesBehind s second :=
  List.filterMap_append

theorem leavesBehind_map_under (s t : Segment) (leaves : List Leaf) :
    leavesBehind s (leaves.map (Leaf.under t)) = if t = s then leaves else [] := by
  by_cases h : t = s <;>
    simp [leavesBehind, Leaf.under, Path.behind?, h, List.filterMap_map, Function.comp_def]

theorem map_fst_leavesBehind (s : Segment) (leaves : List Leaf) :
    (leavesBehind s leaves).map Prod.fst = Path.behind s (leaves.map Prod.fst) := by
  rw [leavesBehind, Path.behind, List.map_filterMap, List.filterMap_map]
  congr 1
  funext l
  simp [Function.comp_def]

theorem leavesBehind_ne_nil {s : Segment} {leaves : List Leaf}
    (hs : s ∈ Path.heads (leaves.map Prod.fst)) : leavesBehind s leaves ≠ [] := by
  obtain ⟨rest, hrest⟩ := Path.mem_heads.mp hs
  have hmem := Path.mem_behind.mpr hrest
  rw [← map_fst_leavesBehind] at hmem
  intro hnil
  simp [hnil] at hmem

/-- The last value at a path is the last one behind its first segment. -/
theorem last?_leavesBehind (s : Segment) (rest : Path) (leaves : List Leaf) :
    last? rest (leavesBehind s leaves) = last? (s :: rest) leaves := by
  induction leaves with
  | nil => rfl
  | cons l leaves ih =>
    obtain ⟨path, value⟩ := l
    cases hb : Path.behind? s path with
    | none =>
      have hne : path ≠ s :: rest := fun h => by
        simp [Path.behind?_eq_some_iff.mpr h] at hb
      simp [leavesBehind, hb, last?, hne, ← ih]
    | some below =>
      obtain rfl := Path.behind?_eq_some_iff.mp hb
      simp [leavesBehind, hb, last?, ← ih]

/-- The values of the leaves are scalars. -/
def OfScalars (leaves : List Leaf) : Prop := ∀ l ∈ leaves, ∃ v, l.2 = .scalar v

theorem OfScalars.behind {leaves : List Leaf} (h : OfScalars leaves) (s : Segment) :
    OfScalars (leavesBehind s leaves) :=
  fun l hl => h (l.under s) (mem_leavesBehind.mp hl)

/-! ## Parts and leaves -/

namespace Document

/-- What stands right below the root, with the segments that lead there. -/
def parts : Document → List (Segment × Document)
  | .scalar _ => []
  | .list items => items.zipIdx.map fun p => (.index p.2, p.1)
  | .map fields => fields.map fun f => (.key f.1, f.2)

/-- Induction from the parts of a document to the document. -/
theorem induct_parts {motive : Document → Prop} (scalar : ∀ v, motive (.scalar v))
    (container : ∀ d : Document, d.isContainer = true → (∀ c ∈ d.parts, motive c.2) → motive d)
    (d : Document) : motive d := by
  induction d using Document.induct with
  | scalar v => exact scalar v
  | list items ih =>
    refine container _ rfl fun c hc => ?_
    obtain ⟨p, hp, rfl⟩ := List.mem_map.mp hc
    exact ih p.1 (List.fst_mem_of_mem_zipIdx hp)
  | map fields ih =>
    refine container _ rfl fun c hc => ?_
    obtain ⟨f, hf, rfl⟩ := List.mem_map.mp hc
    exact ih f hf

/-- The leaves of a part of a document, the part itself if it is a scalar. -/
def leaves (d : Document) : List Leaf := (entriesAt [] none d).map Entry.leaf

@[simp] theorem leaves_scalar (v : Scalar) : (Document.scalar v).leaves = [([], .scalar v)] := rfl

theorem leaves_of_container {d : Document} (h : d.isContainer = true) :
    d.leaves = d.entries.map Entry.leaf := by
  rw [leaves, entriesAt_of_container h]
  rfl

/-- The leaves of a part that stands under a segment. -/
theorem map_leaf_entriesAt (s : Segment) (place : Option ListPlace) (d : Document) :
    (entriesAt [s] place d).map Entry.leaf = d.leaves.map (Leaf.under s) := by
  cases d with
  | scalar v => rfl
  | list items =>
    rw [entriesAt_of_container rfl, leaves_of_container rfl, entriesBelow_eq, List.map_map,
      List.map_map]
    rfl
  | map fields =>
    rw [entriesAt_of_container rfl, leaves_of_container rfl, entriesBelow_eq, List.map_map,
      List.map_map]
    rfl

theorem map_leaf_itemEntries (n : Nat) (items : List Document) :
    (itemEntries [] n items).map Entry.leaf =
      ((items.zipIdx n).map fun p => ((.index p.2 : Segment), p.1)).flatMap fun c =>
        c.2.leaves.map (Leaf.under c.1) := by
  induction items generalizing n with
  | nil => simp [itemEntries]
  | cons d rest ih =>
    rw [itemEntries_cons, List.map_append, ih, List.nil_append, map_leaf_entriesAt]
    simp

theorem map_leaf_fieldEntries (fields : Fields) :
    (fieldEntries [] fields).map Entry.leaf =
      (fields.map fun f => ((.key f.1 : Segment), f.2)).flatMap fun c =>
        c.2.leaves.map (Leaf.under c.1) := by
  induction fields with
  | nil => simp [fieldEntries]
  | cons f rest ih =>
    obtain ⟨key, d⟩ := f
    rw [fieldEntries_cons, List.map_append, ih, List.nil_append, map_leaf_entriesAt]
    simp

/-- **The leaves of a map or list are those of its parts**, one part after the other. -/
theorem leaves_eq_flatMap {d : Document} (h : d.isContainer = true) :
    d.leaves = d.parts.flatMap fun c => c.2.leaves.map (Leaf.under c.1) := by
  rw [leaves_of_container h]
  cases d with
  | scalar v => cases h
  | list items => exact map_leaf_itemEntries 0 items
  | map fields => exact map_leaf_fieldEntries fields

theorem path_ne_nil_of_mem_leaves {d : Document} (h : d.isContainer = true) {l : Leaf}
    (hl : l ∈ d.leaves) : l.1 ≠ [] := by
  rw [leaves_eq_flatMap h] at hl
  obtain ⟨c, -, hunder⟩ := List.mem_flatMap.mp hl
  obtain ⟨l', -, rfl⟩ := List.mem_map.mp hunder
  exact List.cons_ne_nil _ _

theorem Keyed.part {d : Document} (h : d.Keyed) {c : Segment × Document} (hc : c ∈ d.parts) :
    c.2.Keyed := by
  cases d with
  | scalar v => cases hc
  | list items =>
    obtain ⟨p, hp, rfl⟩ := List.mem_map.mp hc
    exact h.item (List.fst_mem_of_mem_zipIdx hp)
  | map fields =>
    obtain ⟨f, hf, rfl⟩ := List.mem_map.mp hc
    exact h.each f hf

/-- Under each segment stands one part. -/
theorem nodup_parts {d : Document} (keyed : d.Keyed) : (keys d.parts).Nodup := by
  cases d with
  | scalar v => simp [parts, keys]
  | list items =>
    have hkeys : keys (Document.list items).parts =
        (items.zipIdx.map Prod.snd).map fun i : Nat => Segment.index i := by
      rw [parts, keys, List.map_map, List.map_map]
      rfl
    rw [hkeys, List.zipIdx_map_snd]
    exact List.Nodup.map (fun _ _ h => Int.ofNat.inj (Segment.index.inj h)) List.nodup_range'
  | map fields =>
    have hkeys : keys (Document.map fields).parts = (keys fields).map Segment.key := by
      simp [parts, keys]
    rw [hkeys]
    exact List.Nodup.map (fun _ _ => Segment.key.inj) keyed.once

/-- Every path leads to one leaf. -/
theorem nodup_leaves {d : Document} (keyed : d.Keyed) : (d.leaves.map Prod.fst).Nodup := by
  induction d using induct_parts with
  | scalar v => simp
  | container d container ih =>
    rw [leaves_eq_flatMap container, List.map_flatMap, List.nodup_flatMap]
    have hgroup : ∀ c : Segment × Document, (c.2.leaves.map (Leaf.under c.1)).map Prod.fst =
        (c.2.leaves.map Prod.fst).map (c.1 :: ·) := by
      intro c
      rw [List.map_map, List.map_map]
      rfl
    simp only [hgroup]
    constructor
    · exact fun c hc => (ih c hc (keyed.part hc)).map List.cons_injective
    · refine (List.pairwise_map.mp (nodup_parts keyed)).imp fun {c c'} hne path hp hp' => ?_
      obtain ⟨rest, -, rfl⟩ := List.mem_map.mp hp
      obtain ⟨rest', -, heq⟩ := List.mem_map.mp hp'
      exact hne (List.cons.inj heq).1.symm

/-- The leaves behind a segment are those of the part under it. -/
theorem leavesBehind_leaves {d : Document} (keyed : d.Keyed) (container : d.isContainer = true)
    (s : Segment) : leavesBehind s d.leaves = ((get? s d.parts).map leaves).getD [] := by
  rw [leaves_eq_flatMap container]
  have once := nodup_parts keyed
  generalize d.parts = cs at once
  induction cs with
  | nil => rfl
  | cons c rest ih =>
    obtain ⟨t, part⟩ := c
    obtain ⟨ht, hrest⟩ : t ∉ keys rest ∧ (keys rest).Nodup := by simpa [keys] using once
    rw [List.flatMap_cons, leavesBehind_append, leavesBehind_map_under, ih hrest]
    by_cases hts : t = s
    · subst hts
      simp [get?, get?_eq_none_iff.mpr ht]
    · simp [get?, hts]

end Document

end Colourway
