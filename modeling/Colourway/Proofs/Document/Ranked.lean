import Colourway.Proofs.Document.Growth
import Mathlib.Data.List.Dedup
import Mathlib.Data.List.MinMax
import Mathlib.Data.List.Perm.Basic

/-!
# Entries taken out of the document that they make

Leaves can stand in one document if none of their paths goes on where another ends and if what
follows a common beginning are keys only or positions only (`Path.Compatible`).  What they make
then holds each of their paths once, with the last value that was set at it.  The positions are
numbered anew: each becomes its rank among its siblings (`Path.ranked`).

Main statement: the entries of the document that entries make are those with ranked paths, whatever
their order was (**`entries_ofEntries`**).
-/

namespace Colourway

open Assoc Growth

/-! ## Ranks -/

/-- The position that a segment gives, if it is one. -/
def Segment.position? : Segment → Option Int
  | .key _ => none
  | .index n => some n

theorem Segment.eq_of_text_eq {s t : Segment} (hs : s.isIndex = false) (ht : t.isIndex = false)
    (h : s.text = t.text) : s = t := by
  cases s with
  | index n => cases hs
  | key name =>
    cases t with
    | index n => cases ht
    | key other => exact congrArg Segment.key h

/-- How many different positions among some segments are smaller than a position. -/
def positionRank (siblings : List Segment) (n : Int) : Nat :=
  ((siblings.filterMap Segment.position?).dedup.filter (· < n)).length

/-- The segment with its rank among its siblings, if it is a position. -/
def Segment.ranked (siblings : List Segment) : Segment → Segment
  | .key name => .key name
  | .index n => .index (positionRank siblings n)

/-- The path with each position replaced by its rank among the positions that stand there in the
paths with the same beginning. -/
def Path.ranked (paths : List Path) : Path → Path
  | [] => []
  | s :: rest => s.ranked (Path.heads paths) :: Path.ranked (Path.behind s paths) rest

theorem positionRank_congr {siblings others : List Segment}
    (h : ∀ s, s ∈ siblings ↔ s ∈ others) (n : Int) :
    positionRank siblings n = positionRank others n := by
  have hperm : (siblings.filterMap Segment.position?).dedup.Perm
      (others.filterMap Segment.position?).dedup := by
    rw [List.perm_ext_iff_of_nodup (List.nodup_dedup _) (List.nodup_dedup _)]
    intro m
    simp [h]
  exact (hperm.filter _).length_eq

theorem Segment.ranked_congr {siblings others : List Segment}
    (h : ∀ s, s ∈ siblings ↔ s ∈ others) (s : Segment) : s.ranked siblings = s.ranked others := by
  cases s with
  | key name => rfl
  | index n => rw [Segment.ranked, Segment.ranked, positionRank_congr h]

/-- In an increasing list a number stands where as many others are smaller. -/
theorem length_filter_lt {ns : List Int} (h : ns.Pairwise (· < ·)) {i : Nat} {n : Int}
    (hn : ns[i]? = some n) : (ns.filter (· < n)).length = i := by
  induction ns generalizing i with
  | nil => cases hn
  | cons m rest ih =>
    obtain ⟨hm, hrest⟩ := List.pairwise_cons.mp h
    cases i with
    | zero =>
      obtain rfl : m = n := by simpa using hn
      have hnone : rest.filter (· < m) = [] := by
        refine List.filter_eq_nil_iff.mpr fun k hk => ?_
        simpa using Int.le_of_lt (hm k hk)
      simp [hnone]
    | succ i =>
      have hlt : m < n := hm n (List.mem_of_getElem? hn)
      have hi := ih hrest hn
      simp [hlt, hi]

/-! ## Paths of one document -/

/-- The paths of leaves that can stand in one document. -/
structure Path.Compatible (paths : List Path) : Prop where
  /-- No path is the beginning of another. -/
  ends : ∀ p ∈ paths, ∀ q ∈ paths, p <+: q → p = q
  /-- What follows a common beginning are keys only, or positions only. -/
  alike : ∀ (lead : Path) (s t : Segment) (rest rest' : Path),
    lead ++ s :: rest ∈ paths → lead ++ t :: rest' ∈ paths → s.isIndex = t.isIndex

/-- Whether two paths can stand in one document: they part at two keys or at two positions, or not
at all. -/
def Path.agree : Path → Path → Bool
  | [], [] => true
  | s :: p, t :: q => s.isIndex == t.isIndex && (s != t || agree p q)
  | _, _ => false

theorem Path.agree_iff {p q : Path} :
    agree p q = true ↔ (p <+: q → p = q) ∧ (q <+: p → p = q) ∧
      ∀ (lead : Path) (s t : Segment) (rest rest' : Path),
        p = lead ++ s :: rest → q = lead ++ t :: rest' → s.isIndex = t.isIndex := by
  induction p generalizing q with
  | nil =>
    cases q with
    | nil => simp [agree]
    | cons t q => simp [agree]
  | cons s p ih =>
    cases q with
    | nil => simp [agree]
    | cons t q =>
      have hcut : (∀ (lead : Path) (u v : Segment) (rest rest' : Path),
          s :: p = lead ++ u :: rest → t :: q = lead ++ v :: rest' → u.isIndex = v.isIndex) ↔
          s.isIndex = t.isIndex ∧ (s = t → ∀ (lead : Path) (u v : Segment) (rest rest' : Path),
            p = lead ++ u :: rest → q = lead ++ v :: rest' → u.isIndex = v.isIndex) := by
        constructor
        · intro h
          refine ⟨h [] s t p q rfl rfl, fun hst lead u v rest rest' hp hq => ?_⟩
          exact h (s :: lead) u v rest rest' (by rw [hp]; rfl) (by rw [hq, hst]; rfl)
        · rintro ⟨hhead, hrest⟩ lead u v rest rest' hp hq
          cases lead with
          | nil =>
            obtain ⟨rfl, -⟩ := List.cons.inj hp
            obtain ⟨rfl, -⟩ := List.cons.inj hq
            exact hhead
          | cons w lead =>
            obtain ⟨hs, hp⟩ := List.cons.inj hp
            obtain ⟨ht, hq⟩ := List.cons.inj hq
            exact hrest (hs.trans ht.symm) lead u v rest rest' hp hq
      rw [hcut]
      by_cases hst : s = t
      · subst hst
        simp [agree, ih]
      · simp [agree, hst, Ne.symm hst, List.cons_prefix_cons]

theorem Path.compatible_iff {paths : List Path} :
    Path.Compatible paths ↔ ∀ p ∈ paths, ∀ q ∈ paths, Path.agree p q = true := by
  constructor
  · intro h p hp q hq
    refine agree_iff.mpr ⟨h.ends p hp q hq, fun hqp => (h.ends q hq p hp hqp).symm, ?_⟩
    rintro lead s t rest rest' rfl rfl
    exact h.alike lead s t rest rest' hp hq
  · refine fun h => ⟨fun p hp q hq => (agree_iff.mp (h p hp q hq)).1, ?_⟩
    intro lead s t rest rest' hp hq
    exact (agree_iff.mp (h _ hp _ hq)).2.2 lead s t rest rest' rfl rfl

instance (paths : List Path) : Decidable (Path.Compatible paths) :=
  decidable_of_iff _ Path.compatible_iff.symm

theorem Path.Compatible.behind {paths : List Path} (h : Path.Compatible paths) (s : Segment) :
    Path.Compatible (Path.behind s paths) where
  ends p hp q hq hprefix := by
    have hcons := h.ends (s :: p) (mem_behind.mp hp) (s :: q) (mem_behind.mp hq)
      ((List.prefix_cons_inj s).mpr hprefix)
    exact (List.cons.inj hcons).2
  alike lead t u rest rest' ht hu :=
    h.alike (s :: lead) t u rest rest' (mem_behind.mp ht) (mem_behind.mp hu)

theorem Path.Compatible.leavesBehind {leaves : List Leaf}
    (h : Path.Compatible (leaves.map Prod.fst)) (s : Segment) :
    Path.Compatible ((leavesBehind s leaves).map Prod.fst) := by
  rw [map_fst_leavesBehind]
  exact h.behind s

/-- A path that ends at once is the only one. -/
theorem Path.Compatible.eq_nil {paths : List Path} (h : Path.Compatible paths) (hnil : [] ∈ paths)
    {p : Path} (hp : p ∈ paths) : p = [] :=
  (h.ends [] hnil p hp (List.nil_prefix)).symm

theorem Path.Compatible.heads_alike {paths : List Path} (h : Path.Compatible paths) {s t : Segment}
    (hs : s ∈ Path.heads paths) (ht : t ∈ Path.heads paths) : s.isIndex = t.isIndex := by
  obtain ⟨rest, hs⟩ := mem_heads.mp hs
  obtain ⟨rest', ht⟩ := mem_heads.mp ht
  exact h.alike [] s t rest rest' hs ht

/-- The different paths, by their first segments. -/
theorem Path.perm_dedup {paths : List Path} (hne : ∀ p ∈ paths, p ≠ []) {segments : List Segment}
    (once : segments.Nodup) (hsegments : ∀ s, s ∈ segments ↔ s ∈ Path.heads paths) :
    (segments.flatMap fun s => (Path.behind s paths).dedup.map (s :: ·)).Perm paths.dedup := by
  refine (List.perm_ext_iff_of_nodup ?_ (List.nodup_dedup _)).mpr fun p => ?_
  · refine List.nodup_flatMap.mpr ⟨fun s _ => ?_, once.imp fun {s t} hst => ?_⟩
    · exact List.Nodup.map (List.cons_injective) (List.nodup_dedup _)
    · intro p hs ht
      obtain ⟨rest, -, rfl⟩ := List.mem_map.mp hs
      obtain ⟨rest', -, heq⟩ := List.mem_map.mp ht
      exact hst (List.cons.inj heq).1.symm
  · simp only [List.mem_flatMap, List.mem_map, List.mem_dedup, mem_behind]
    constructor
    · rintro ⟨s, -, rest, hp, rfl⟩
      exact hp
    · intro hp
      cases p with
      | nil => exact absurd rfl (hne [] hp)
      | cons s rest => exact ⟨s, (hsegments s).mpr (mem_heads.mpr ⟨rest, hp⟩), rest, hp, rfl⟩

/-! ## Closing ranked parts -/

namespace Document

/-- The parts of a list of increasing positions have the ranks of these. -/
theorem parts_list_of_sorted {sorted : List (Segment × Document)}
    (hindex : ∀ c ∈ sorted, c.1.isIndex = true)
    (hsorted : sorted.Pairwise fun a b => position a.1 < position b.1) :
    (Document.list (sorted.map Prod.snd)).parts =
      sorted.map fun c => (c.1.ranked (keys sorted), c.2) := by
  have hpositions : (keys sorted).filterMap Segment.position? =
      sorted.map fun c => position c.1 := by
    rw [keys, List.filterMap_map, ← List.filterMap_eq_map]
    refine List.filterMap_congr fun c hc => ?_
    have hi := hindex c hc
    obtain ⟨s, d⟩ := c
    cases s with
    | key name => cases hi
    | index n => rfl
  have hpairwise : (sorted.map fun c => position c.1).Pairwise (· < ·) :=
    List.pairwise_map.mpr hsorted
  have hranked : ∀ (i : Nat) (c : Segment × Document), sorted[i]? = some c →
      c.1.ranked (keys sorted) = .index i := by
    intro i c hc
    have hi := hindex c (List.mem_of_getElem? hc)
    obtain ⟨s, d⟩ := c
    cases s with
    | key name => cases hi
    | index n =>
      have hrank := length_filter_lt hpairwise (i := i) (n := n) (by simp [hc, position])
      have hnodup := hpairwise.imp (S := (· ≠ ·)) fun h => Int.ne_of_lt h
      rw [Segment.ranked, positionRank, hpositions, List.Nodup.dedup hnodup, hrank]
  refine List.ext_getElem? fun i => ?_
  rw [parts, List.getElem?_map, List.getElem?_map, List.getElem?_zipIdx, List.getElem?_map]
  cases hc : sorted[i]? with
  | none => rfl
  | some c => simp [hranked i c hc]

/-- Closing numbers positions anew, in their order, and keeps keys. -/
theorem parts_close_perm {children : List (Segment × Document)} (once : (keys children).Nodup)
    (alike : ∀ c ∈ children, ∀ c' ∈ children, c.1.isIndex = c'.1.isIndex) :
    (close children).parts.Perm
      (children.map fun c => (c.1.ranked (keys children), c.2)) := by
  by_cases hkeys : ∀ c ∈ children, c.1.isIndex = false
  · rw [close_of_keys hkeys, parts, List.map_map]
    refine List.Perm.of_eq (List.map_congr_left fun c hc => ?_)
    have hkey := hkeys c hc
    obtain ⟨s, d⟩ := c
    cases s with
    | key name => rfl
    | index n => cases hkey
  · obtain ⟨c, hc, hindex⟩ : ∃ c ∈ children, c.1.isIndex = true := by simpa using hkeys
    have hpositions : ∀ c' ∈ children, c'.1.isIndex = true :=
      fun c' hc' => (alike c' hc' c hc).trans hindex
    have hperm := byPosition_perm children
    have hsegments : (keys (byPosition children)).Perm (keys children) := hperm.map _
    rw [close_of_positions (List.ne_nil_of_mem hc) hpositions,
      parts_list_of_sorted (fun c' hc' => hpositions c' (hperm.mem_iff.mp hc'))
        (pairwise_byPosition once hpositions)]
    refine (hperm.map _).trans (List.Perm.of_eq (List.map_congr_left fun c' _ => ?_))
    rw [Segment.ranked_congr fun s => hsegments.mem_iff]

theorem isContainer_close (children : List (Segment × Document)) :
    (close children).isContainer = true := by
  unfold close
  split <;> rfl

/-- Children with different segments, all keys or all positions, close to a document with different
keys. -/
theorem keyed_close {children : List (Segment × Document)} (once : (keys children).Nodup)
    (alike : ∀ c ∈ children, ∀ c' ∈ children, c.1.isIndex = c'.1.isIndex)
    (each : ∀ c ∈ children, c.2.Keyed) : (close children).Keyed := by
  by_cases hkeys : ∀ c ∈ children, c.1.isIndex = false
  · rw [close_of_keys hkeys]
    refine .map ?_ ?_
    · have htext : keys (children.map fun c => (c.1.text, c.2)) =
          (keys children).map Segment.text := by
        simp [keys]
      rw [htext]
      refine List.Nodup.map_on (fun s hs t ht h => ?_) once
      obtain ⟨c, hc, rfl⟩ := List.mem_map.mp hs
      obtain ⟨c', hc', rfl⟩ := List.mem_map.mp ht
      exact Segment.eq_of_text_eq (hkeys c hc) (hkeys c' hc') h
    · rintro _ hf
      obtain ⟨c, hc, rfl⟩ := List.mem_map.mp hf
      exact each c hc
  · obtain ⟨c, hc, hindex⟩ : ∃ c ∈ children, c.1.isIndex = true := by simpa using hkeys
    have hpositions : ∀ c' ∈ children, c'.1.isIndex = true :=
      fun c' hc' => (alike c' hc' c hc).trans hindex
    rw [close_of_positions (List.ne_nil_of_mem hc) hpositions]
    refine .list fun d hd => ?_
    obtain ⟨c', hc', rfl⟩ := List.mem_map.mp hd
    exact each c' ((byPosition_perm children).mem_iff.mp hc')

/-! ## What leaves make -/

/-- The leaves that remain when leaves are set one after the other: each path once, ranked, with its
last value. -/
def lastLeaves (leaves : List Leaf) : List (Path × Option Document) :=
  (leaves.map Prod.fst).dedup.map fun p =>
    (Path.ranked (leaves.map Prod.fst) p, last? p leaves)

theorem lastLeaves_of_nil {leaves : List Leaf} (hne : leaves ≠ []) (h : ∀ l ∈ leaves, l.1 = []) :
    lastLeaves leaves = [([], last? [] leaves)] := by
  have hpaths : leaves.map Prod.fst = List.replicate leaves.length [] := by
    rw [← List.map_const']
    exact List.map_congr_left h
  rw [lastLeaves, hpaths, List.replicate_dedup (by simpa using hne)]
  simp [Path.ranked]

/-- What remains of leaves with paths, by their first segments. -/
theorem lastLeaves_perm {leaves : List Leaf} (hne : ∀ l ∈ leaves, l.1 ≠ [])
    {segments : List Segment} (once : segments.Nodup)
    (hsegments : ∀ s, s ∈ segments ↔ s ∈ Path.heads (leaves.map Prod.fst)) :
    (segments.flatMap fun s => (lastLeaves (leavesBehind s leaves)).map fun l =>
      (s.ranked segments :: l.1, l.2)).Perm (lastLeaves leaves) := by
  have hgroup : ∀ s ∈ segments, ((lastLeaves (leavesBehind s leaves)).map fun l =>
      (s.ranked segments :: l.1, l.2)) =
        ((Path.behind s (leaves.map Prod.fst)).dedup.map (s :: ·)).map fun p =>
          (Path.ranked (leaves.map Prod.fst) p, last? p leaves) := by
    intro s _
    rw [lastLeaves, map_fst_leavesBehind, List.map_map, List.map_map]
    refine List.map_congr_left fun p _ => ?_
    simp [Path.ranked, Segment.ranked_congr hsegments, last?_leavesBehind]
  have hpaths : ∀ p ∈ leaves.map Prod.fst, p ≠ [] := by
    intro p hp
    obtain ⟨l, hl, rfl⟩ := List.mem_map.mp hp
    exact hne l hl
  rw [List.flatMap_congr hgroup, ← List.map_flatMap]
  exact (Path.perm_dedup hpaths once hsegments).map _

/-- A part with these leaves: it has different keys at every depth, and each of the leaves once, at
its ranked path with its last value. -/
structure Holds (leaves : List Leaf) (d : Document) : Prop where
  keyed : d.Keyed
  leaves_perm : (d.leaves.map fun l => (l.1, some l.2)).Perm (lastLeaves leaves)

/-- Values in the place of a part leave the last of them. -/
theorem holds_of_nil {leaves : List Leaf} (hne : leaves ≠ []) (h : ∀ l ∈ leaves, l.1 = [])
    (scalars : OfScalars leaves) :
    ∃ d, made? leaves = some d ∧ Holds leaves d := by
  cases hlast : last? ([] : Path) leaves with
  | none =>
    obtain ⟨l, hl⟩ := List.exists_mem_of_ne_nil leaves hne
    exact absurd (h l hl) (last?_eq_none_iff.mp hlast l hl)
  | some value =>
    obtain ⟨v, rfl⟩ := scalars _ (mem_of_last? hlast)
    refine ⟨.scalar v, (made?_of_nil h).trans hlast, .scalar v, ?_⟩
    rw [lastLeaves_of_nil hne h, hlast]
    simp

/-- A container holds its leaves if its parts do. -/
theorem holds_close {leaves : List Leaf} {children : List (Segment × Document)}
    (hne : ∀ l ∈ leaves, l.1 ≠ []) (compatible : Path.Compatible (leaves.map Prod.fst))
    (once : (keys children).Nodup)
    (heads : ∀ s, s ∈ keys children ↔ s ∈ Path.heads (leaves.map Prod.fst))
    (each : ∀ c ∈ children, Holds (leavesBehind c.1 leaves) c.2) :
    Holds leaves (close children) := by
  have alike : ∀ c ∈ children, ∀ c' ∈ children, c.1.isIndex = c'.1.isIndex := fun c hc c' hc' =>
    compatible.heads_alike ((heads _).mp (List.mem_map_of_mem hc))
      ((heads _).mp (List.mem_map_of_mem hc'))
  have hgroup : ∀ c ∈ children,
      ((c.2.leaves.map (Leaf.under (c.1.ranked (keys children)))).map
        fun l => (l.1, some l.2)).Perm
      ((lastLeaves (leavesBehind c.1 leaves)).map fun l =>
        (c.1.ranked (keys children) :: l.1, l.2)) := by
    intro c hc
    have hmap := (each c hc).leaves_perm.map fun l => (c.1.ranked (keys children) :: l.1, l.2)
    rw [List.map_map] at hmap ⊢
    exact hmap
  refine ⟨keyed_close once alike fun c hc => (each c hc).keyed, ?_⟩
  rw [leaves_eq_flatMap (isContainer_close _)]
  refine (((parts_close_perm once alike).flatMap_right _).map _).trans ?_
  rw [List.flatMap_map, List.map_flatMap]
  refine (List.Perm.flatMap_left _ hgroup).trans ?_
  have hlast := lastLeaves_perm hne once heads
  rwa [keys, List.flatMap_map] at hlast

/-- Induction on leaves that can stand in one document: all of them end at once, or all of them go
on and the statement is there for what is behind each of their first segments. -/
theorem induct_compatible {motive : List Leaf → Prop}
    (value : ∀ leaves : List Leaf, leaves ≠ [] → (∀ l ∈ leaves, l.1 = []) → motive leaves)
    (container : ∀ leaves : List Leaf, leaves ≠ [] → (∀ l ∈ leaves, l.1 ≠ []) →
      Path.Compatible (leaves.map Prod.fst) →
      (∀ s ∈ Path.heads (leaves.map Prod.fst), motive (leavesBehind s leaves)) → motive leaves)
    {leaves : List Leaf} (hne : leaves ≠ []) (compatible : Path.Compatible (leaves.map Prod.fst)) :
    motive leaves := by
  -- The paths get shorter behind a segment.
  obtain ⟨n, hn⟩ : ∃ n, ∀ l ∈ leaves, l.1.length ≤ n :=
    ⟨(leaves.map fun l => l.1.length).foldr max 0, fun l hl =>
      List.le_max_of_le' 0 (List.mem_map_of_mem hl) (Nat.le_refl _)⟩
  induction n generalizing leaves with
  | zero => exact value leaves hne fun l hl => List.length_eq_zero_iff.mp (Nat.le_zero.mp (hn l hl))
  | succ n ih =>
    by_cases hnil : [] ∈ leaves.map Prod.fst
    · exact value leaves hne fun l hl => compatible.eq_nil hnil (List.mem_map_of_mem hl)
    · refine container leaves hne (fun l hl h => hnil (h ▸ List.mem_map_of_mem hl)) compatible ?_
      intro s hs
      refine ih (leavesBehind_ne_nil hs) (compatible.leavesBehind s) fun l hl => ?_
      have hlength := hn _ (mem_leavesBehind.mp hl)
      simpa [Leaf.under] using hlength

/-- The parts that leaves make hold them, if what is behind each of their first segments does. -/
theorem holds_madeParts {leaves : List Leaf} (hne : ∀ l ∈ leaves, l.1 ≠ [])
    (compatible : Path.Compatible (leaves.map Prod.fst))
    (each : ∀ s ∈ Path.heads (leaves.map Prod.fst),
      ∃ d, made? (leavesBehind s leaves) = some d ∧ Holds (leavesBehind s leaves) d) :
    Holds leaves (close (madeParts leaves)) := by
  refine holds_close hne compatible (nodup_madeParts leaves) (fun s => mem_keys_madeParts) ?_
  intro c hc
  obtain ⟨d, hd, hholds⟩ := each c.1 (mem_keys_madeParts.mp (List.mem_map_of_mem hc))
  have hget := get?_of_pair_mem (nodup_madeParts leaves) hc
  rw [get?_madeParts, hd] at hget
  rwa [← Option.some.inj hget]

/-- **Leaves that can stand in one document make a part that holds them.** -/
theorem holds_made {leaves : List Leaf} (hne : leaves ≠ [])
    (compatible : Path.Compatible (leaves.map Prod.fst))
    (scalars : OfScalars leaves) :
    ∃ d, made? leaves = some d ∧ Holds leaves d := by
  refine induct_compatible (motive := fun leaves => OfScalars leaves →
    ∃ d, made? leaves = some d ∧ Holds leaves d) ?_ ?_ hne compatible scalars
  · intro leaves hne hnil scalars
    exact holds_of_nil hne hnil scalars
  · intro leaves hne hpaths compatible ih scalars
    refine ⟨_, made?_of_ne_nil hpaths hne, holds_madeParts hpaths compatible fun s hs => ?_⟩
    exact ih s hs (scalars.behind s)

/-- The document of entries holds them. -/
theorem holds_ofEntries {entries : List Entry} (paths : ∀ e ∈ entries, e.path ≠ [])
    (compatible : Path.Compatible (entries.map Entry.path))
    (scalars : ∀ e ∈ entries, ∃ v, e.value = .scalar v) :
    Holds (entries.map Entry.leaf) (ofEntries entries) := by
  have hscalars : OfScalars (entries.map Entry.leaf) := List.forall_mem_map.mpr scalars
  rw [← map_fst_leaf] at compatible
  rw [ofEntries_eq_close]
  refine holds_madeParts (List.forall_mem_map.mpr paths) compatible fun s hs => ?_
  exact holds_made (leavesBehind_ne_nil hs) (compatible.leavesBehind s) (hscalars.behind s)

end Document

end Colourway
