import Colourway.Proofs.Document.Parts
import Mathlib.Data.List.Induction

/-!
# How documents grow from leaves

Leaves are set one after the other in a tree of open containers.  What stands under a segment in the
end depends on the leaves behind that segment only (**`get?_grow`**), and leaves that stand in groups
under different segments grow group by group (**`grow_groups`**).

`made?` is what leaves make of a part and `madeParts` what they make below a root: the same two
statements hold of the closed containers (`get?_madeParts`, `madeParts_groups`).
-/

namespace Colourway

open Assoc

namespace Growth

/-! ## Setting leaves -/

/-- The children of an open container after leaves are set one after the other. -/
def grow (cs : List (Segment × Growth)) (leaves : List Leaf) : List (Segment × Growth) :=
  leaves.foldl (fun cs l => insert l.2 l.1 cs) cs

/-- What a part becomes when a value is set in its place or at a path below it. -/
def grown (g? : Option Growth) (l : Leaf) : Growth :=
  match l.1 with
  | [] => .leaf l.2
  | _ :: _ => .branch (insert l.2 l.1 ((g?.map children).getD []))

/-- What a part becomes when leaves are set one after the other. -/
def grownAll (g? : Option Growth) (leaves : List Leaf) : Option Growth :=
  leaves.foldl (fun g? l => some (grown g? l)) g?

/-- Setting a value changes what stands under the first segment of its path. -/
theorem insert_cons (value : Document) (s : Segment) (rest : Path)
    (cs : List (Segment × Growth)) :
    insert value (s :: rest) cs = put s (grown (get? s cs) (rest, value)) cs := by
  cases rest <;> rfl

theorem ofEntries_eq_grow (entries : List Entry) :
    ofEntries entries = grow [] (entries.map Entry.leaf) := by
  rw [grow, List.foldl_map]
  rfl

/-- **Under a segment stands what the leaves behind it make.** -/
theorem get?_grow (s : Segment) (cs : List (Segment × Growth)) (leaves : List Leaf) :
    get? s (grow cs leaves) = grownAll (get? s cs) (leavesBehind s leaves) := by
  induction leaves generalizing cs with
  | nil => rfl
  | cons l leaves ih =>
    obtain ⟨path, value⟩ := l
    have hgrow : grow cs ((path, value) :: leaves) = grow (insert value path cs) leaves := rfl
    rw [hgrow, ih]
    cases path with
    | nil => rfl
    | cons t rest =>
      rw [insert_cons]
      by_cases h : t = s
      · subst h
        simp [leavesBehind, Path.behind?, grownAll]
      · rw [get?_put_of_ne (Ne.symm h)]
        simp [leavesBehind, Path.behind?, h]

theorem mem_keys_grow {s : Segment} {cs : List (Segment × Growth)} {leaves : List Leaf} :
    s ∈ keys (grow cs leaves) ↔ s ∈ keys cs ∨ s ∈ Path.heads (leaves.map Prod.fst) := by
  induction leaves generalizing cs with
  | nil => simp [grow, Path.heads]
  | cons l leaves ih =>
    obtain ⟨path, value⟩ := l
    have hgrow : grow cs ((path, value) :: leaves) = grow (insert value path cs) leaves := rfl
    rw [hgrow, ih]
    cases path with
    | nil => simp [insert, Path.heads]
    | cons t rest =>
      rw [insert_cons, mem_keys_put]
      simp [Path.heads, or_assoc, or_left_comm]

theorem nodup_keys_grow {cs : List (Segment × Growth)} (once : (keys cs).Nodup)
    (leaves : List Leaf) : (keys (grow cs leaves)).Nodup := by
  induction leaves generalizing cs with
  | nil => exact once
  | cons l leaves ih =>
    obtain ⟨path, value⟩ := l
    have honce : (keys (insert value path cs)).Nodup := by
      cases path with
      | nil => exact once
      | cons t rest =>
        rw [insert_cons]
        exact nodup_keys_put once
    exact ih honce

/-- Leaves with paths leave children. -/
theorem grow_ne_nil {leaves : List Leaf} (h : ∀ l ∈ leaves, l.1 ≠ []) (hne : leaves ≠ [])
    (cs : List (Segment × Growth)) : grow cs leaves ≠ [] := by
  obtain ⟨⟨path, value⟩, rest, rfl⟩ := List.exists_cons_of_ne_nil hne
  cases path with
  | nil => exact absurd rfl (h _ List.mem_cons_self)
  | cons s path =>
    have hs : s ∈ keys (grow cs ((s :: path, value) :: rest)) :=
      mem_keys_grow.mpr (Or.inr (by simp [Path.heads]))
    intro hnil
    simp [hnil, keys] at hs

/-! ## What a part becomes -/

/-- Values that are set in the place of a part follow one another. -/
theorem grownAll_of_nil {leaves : List Leaf} (h : ∀ l ∈ leaves, l.1 = []) :
    grownAll none leaves = (last? [] leaves).map .leaf := by
  induction leaves using List.reverseRecOn with
  | nil => rfl
  | append_singleton leaves l ih =>
    obtain ⟨path, value⟩ := l
    obtain rfl : path = [] := h (path, value) (by simp)
    simp [grownAll, grown, last?_append, last?]

/-- Leaves that are set below a part make it a container. -/
theorem grownAll_of_ne_nil {leaves : List Leaf} (h : ∀ l ∈ leaves, l.1 ≠ []) (hne : leaves ≠ [])
    (g? : Option Growth) :
    grownAll g? leaves = some (.branch (grow ((g?.map children).getD []) leaves)) := by
  induction leaves generalizing g? with
  | nil => exact absurd rfl hne
  | cons l leaves ih =>
    obtain ⟨hl, hrest⟩ := List.forall_mem_cons.mp h
    have hset : grown g? l = .branch (insert l.2 l.1 ((g?.map children).getD [])) := by
      obtain ⟨path, value⟩ := l
      cases path with
      | nil => exact absurd rfl hl
      | cons s rest => rfl
    by_cases hnil : leaves = []
    · simp [hnil, grownAll, hset, grow]
    · have hnext : grownAll g? (l :: leaves) = grownAll (some (grown g? l)) leaves := rfl
      rw [hnext, ih hrest hnil, hset]
      rfl

theorem grownAll_eq_none_iff {leaves : List Leaf} : grownAll none leaves = none ↔ leaves = [] := by
  induction leaves using List.reverseRecOn with
  | nil => simp [grownAll]
  | append_singleton leaves l ih => simp [grownAll]

/-- Leaves under one segment change the part under it. -/
theorem grow_under (s : Segment) (cs : List (Segment × Growth)) (leaves : List Leaf) :
    grow cs (leaves.map (Leaf.under s)) =
      ((grownAll (get? s cs) leaves).map fun g => put s g cs).getD cs := by
  induction leaves generalizing cs with
  | nil =>
    cases h : get? s cs with
    | none => rfl
    | some g => exact (put_of_get? h).symm
  | cons l leaves ih =>
    obtain ⟨path, value⟩ := l
    have hgrow : grow cs (((path, value) :: leaves).map (Leaf.under s)) =
        grow (put s (grown (get? s cs) (path, value)) cs) (leaves.map (Leaf.under s)) := by
      rw [← insert_cons]
      rfl
    have hnext : grownAll (get? s cs) ((path, value) :: leaves) =
        grownAll (some (grown (get? s cs) (path, value))) leaves := rfl
    rw [hgrow, ih, get?_put_self, hnext]
    cases hset : grownAll (some (grown (get? s cs) (path, value))) leaves with
    | some g => simp
    | none =>
      -- Something is there already, and setting leaves never takes it away.
      have hsome : ∀ (g : Growth) (leaves : List Leaf), grownAll (some g) leaves ≠ none := by
        intro g leaves
        induction leaves generalizing g with
        | nil => simp [grownAll]
        | cons l leaves ih => exact ih _
      exact absurd hset (hsome _ _)

/-- **Groups of leaves under different segments grow one by one.** -/
theorem grow_groups (groups : List (Segment × List Leaf)) (cs : List (Segment × Growth))
    (once : (keys cs ++ keys groups).Nodup) :
    grow cs (groups.flatMap fun c => c.2.map (Leaf.under c.1)) =
      cs ++ groups.filterMap fun c => (grownAll none c.2).map (c.1, ·) := by
  induction groups generalizing cs with
  | nil => simp [grow]
  | cons c groups ih =>
    obtain ⟨s, leaves⟩ := c
    have hs : s ∉ keys cs := by
      intro hmem
      exact (List.nodup_append.mp once).2.2 s hmem s (by simp [keys]) rfl
    have hsplit : grow cs (((s, leaves) :: groups).flatMap fun c => c.2.map (Leaf.under c.1)) =
        grow (grow cs (leaves.map (Leaf.under s)))
          (groups.flatMap fun c => c.2.map (Leaf.under c.1)) := by
      rw [grow, List.flatMap_cons, List.foldl_append]
      rfl
    rw [hsplit, grow_under, get?_eq_none_iff.mpr hs]
    cases hset : grownAll none leaves with
    | none =>
      have hrest : (keys cs ++ keys groups).Nodup := by
        refine once.sublist (List.Sublist.append_left ?_ _)
        exact List.sublist_cons_self s (keys groups)
      simpa [hset] using ih _ hrest
    | some g =>
      have hput : put s g cs = cs ++ [(s, g)] := put_of_not_mem hs
      have hrest : (keys (cs ++ [(s, g)]) ++ keys groups).Nodup := by
        simpa [keys] using once
      simpa [hset, hput] using ih _ hrest

/-! ## Closing containers -/

@[simp] theorem finish_branch (cs : List (Segment × Growth)) :
    (Growth.branch cs).finish = close (finishAll cs) := by
  rw [finish]

theorem finishAll_eq_map (cs : List (Segment × Growth)) :
    finishAll cs = cs.map fun c => (c.1, c.2.finish) := by
  induction cs with
  | nil => simp [finishAll]
  | cons c cs ih =>
    obtain ⟨s, g⟩ := c
    simp [finishAll, ih]

theorem close_of_keys {children : List (Segment × Document)}
    (h : ∀ c ∈ children, c.1.isIndex = false) :
    close children = .map (children.map fun c => (c.1.text, c.2)) := by
  cases children with
  | nil => rfl
  | cons c children => simp [close, h c List.mem_cons_self]

/-- Where all segments are keys, a text leads to what its key leads to. -/
theorem get?_map_text {children : List (Segment × Document)}
    (h : ∀ c ∈ children, c.1.isIndex = false) (name : Text) :
    get? name (children.map fun c => (c.1.text, c.2)) = get? (.key name) children := by
  induction children with
  | nil => rfl
  | cons c rest ih =>
    obtain ⟨hc, hrest⟩ := List.forall_mem_cons.mp h
    obtain ⟨s, d⟩ := c
    cases s with
    | index n => cases hc
    | key key =>
      have hrest := ih hrest
      by_cases hk : key = name
      · simp [get?, Segment.text, hk]
      · simpa [get?, Segment.text, hk] using hrest

/-- Children in the order of their positions. -/
def byPosition (children : List (Segment × Document)) : List (Segment × Document) :=
  children.mergeSort fun a b => position a.1 ≤ position b.1

theorem byPosition_perm (children : List (Segment × Document)) :
    (byPosition children).Perm children :=
  List.mergeSort_perm children _

theorem close_of_positions {children : List (Segment × Document)} (hne : children ≠ [])
    (h : ∀ c ∈ children, c.1.isIndex = true) :
    close children = .list ((byPosition children).map Prod.snd) := by
  have hall : (!children.isEmpty && children.all (·.1.isIndex)) = true := by
    simpa [hne] using h
  rw [close, if_pos hall]
  rfl

theorem eq_of_position_eq {s t : Segment} (hs : s.isIndex = true) (ht : t.isIndex = true)
    (h : position s = position t) : s = t := by
  cases s with
  | key name => cases hs
  | index n =>
    cases t with
    | key name => cases ht
    | index m => exact congrArg Segment.index h

/-- Different positions increase in their order. -/
theorem pairwise_byPosition {children : List (Segment × Document)} (once : (keys children).Nodup)
    (hindex : ∀ c ∈ children, c.1.isIndex = true) :
    (byPosition children).Pairwise fun a b => position a.1 < position b.1 := by
  have hperm := byPosition_perm children
  have hle : (byPosition children).Pairwise
      fun a b => decide (position a.1 ≤ position b.1) := by
    refine List.pairwise_mergeSort ?_ ?_ children
    · simpa using fun _ _ _ => Int.le_trans
    · simpa using fun _ _ => Int.le_total _ _
  have hne := List.pairwise_map.mp ((hperm.map Prod.fst).nodup_iff.mpr once)
  refine (hle.and hne).imp_of_mem fun {a b} ha hb h => ?_
  have hdiff : position a.1 ≠ position b.1 := fun heq => h.2 <|
    eq_of_position_eq (hindex a (hperm.mem_iff.mp ha)) (hindex b (hperm.mem_iff.mp hb)) heq
  have hab : position a.1 ≤ position b.1 := of_decide_eq_true h.1
  omega

/-! ## What leaves make -/

/-- What leaves make of a part, if there are any. -/
def made? (leaves : List Leaf) : Option Document := (grownAll none leaves).map finish

/-- The parts that leaves make below a root. -/
def madeParts (leaves : List Leaf) : List (Segment × Document) := finishAll (grow [] leaves)

theorem made?_eq_none_iff {leaves : List Leaf} : made? leaves = none ↔ leaves = [] := by
  rw [made?, Option.map_eq_none_iff, grownAll_eq_none_iff]

theorem made?_of_nil {leaves : List Leaf} (h : ∀ l ∈ leaves, l.1 = []) :
    made? leaves = last? [] leaves := by
  rw [made?, grownAll_of_nil h]
  cases last? [] leaves <;> simp [finish]

theorem made?_of_ne_nil {leaves : List Leaf} (h : ∀ l ∈ leaves, l.1 ≠ []) (hne : leaves ≠ []) :
    made? leaves = some (close (madeParts leaves)) := by
  rw [made?, grownAll_of_ne_nil h hne, Option.map_some, finish_branch]
  rfl

theorem keys_madeParts (leaves : List Leaf) : keys (madeParts leaves) = keys (grow [] leaves) := by
  rw [madeParts, finishAll_eq_map, keys, keys, List.map_map]
  rfl

theorem nodup_madeParts (leaves : List Leaf) : (keys (madeParts leaves)).Nodup := by
  rw [keys_madeParts]
  exact nodup_keys_grow (by simp [keys]) leaves

theorem mem_keys_madeParts {s : Segment} {leaves : List Leaf} :
    s ∈ keys (madeParts leaves) ↔ s ∈ Path.heads (leaves.map Prod.fst) := by
  rw [keys_madeParts, mem_keys_grow]
  simp [keys]

theorem get?_finishAll (s : Segment) (cs : List (Segment × Growth)) :
    get? s (finishAll cs) = (get? s cs).map finish := by
  induction cs with
  | nil => simp [finishAll, get?]
  | cons c cs ih =>
    obtain ⟨t, g⟩ := c
    by_cases h : t = s <;> simp [finishAll, get?, h, ih]

/-- **Under a segment stands what the leaves behind it make.** -/
theorem get?_madeParts (s : Segment) (leaves : List Leaf) :
    get? s (madeParts leaves) = made? (leavesBehind s leaves) := by
  rw [madeParts, get?_finishAll, get?_grow]
  rfl

/-- Groups of leaves under different segments make parts one by one. -/
theorem madeParts_groups (groups : List (Segment × List Leaf)) (once : (keys groups).Nodup) :
    madeParts (groups.flatMap fun c => c.2.map (Leaf.under c.1)) =
      groups.filterMap fun c => (made? c.2).map (c.1, ·) := by
  rw [madeParts, grow_groups groups [] once, List.nil_append, finishAll_eq_map,
    List.map_filterMap]
  refine List.filterMap_congr fun c _ => ?_
  rw [made?, Option.map_map, Option.map_map]
  rfl

theorem ofEntries_eq_close (entries : List Entry) :
    Document.ofEntries entries = close (madeParts (entries.map Entry.leaf)) := by
  rw [Document.ofEntries, finish_branch, ofEntries_eq_grow]
  rfl

end Growth

end Colourway
