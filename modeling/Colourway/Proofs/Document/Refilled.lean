import Colourway.Proofs.Document.Pruned

/-!
# Documents with other scalars

`Document.refill` puts other scalars in the places of those of a document.  Entries with the paths
of a document are the leaves of the document that is refilled with their values
(`leaves_refill_of_paths`), so what they describe has the shape of the document.

In a leafy document each item of a list holds a leaf.  Pruning such a document takes no leaf away
and moves none (`leaves_prune`), so its entries come out again as they went in
(**`leaves_made_of_paths`**).
-/

namespace Colourway

open Assoc Growth

namespace Document

/-! ## Refilling -/

mutual

/-- The document with the scalar that is given for each path in the place of the one there. -/
def refill (f : Path → Scalar) : Document → Document
  | .scalar _ => .scalar (f [])
  | .list items => .list (refillItems f 0 items)
  | .map fields => .map (refillFields f fields)

/-- The items from position `n` on, each refilled. -/
def refillItems (f : Path → Scalar) (n : Nat) : List Document → List Document
  | [] => []
  | d :: rest => refill (fun path => f (.index n :: path)) d :: refillItems f (n + 1) rest

/-- The fields, each with its value refilled. -/
def refillFields (f : Path → Scalar) : Fields → Fields
  | [] => []
  | (k, d) :: rest => (k, refill (fun path => f (.key k :: path)) d) :: refillFields f rest

end

variable (f : Path → Scalar)

theorem parts_refillItems (n : Nat) (items : List Document) :
    ((refillItems f n items).zipIdx n).map (fun p => ((.index p.2 : Segment), p.1)) =
      (items.zipIdx n).map fun p =>
        (.index p.2, refill (fun path => f (.index p.2 :: path)) p.1) := by
  induction items generalizing n with
  | nil => simp [refillItems]
  | cons d rest ih => simp [refillItems, ih]

theorem refillFields_eq_map (fields : Fields) :
    refillFields f fields =
      fields.map fun field => (field.1, refill (fun path => f (.key field.1 :: path)) field.2) := by
  induction fields with
  | nil => simp [refillFields]
  | cons field rest ih =>
    obtain ⟨k, d⟩ := field
    simp [refillFields, ih]

@[simp] theorem isContainer_refill (d : Document) : (refill f d).isContainer = d.isContainer := by
  cases d <;> simp [refill, isContainer]

/-- The parts of the refilled document are refilled parts. -/
theorem parts_refill (d : Document) :
    (refill f d).parts = d.parts.map fun c => (c.1, refill (fun path => f (c.1 :: path)) c.2) := by
  cases d with
  | scalar v => simp [refill, parts]
  | list items =>
    rw [refill, parts, parts, List.map_map, parts_refillItems]
    rfl
  | map fields =>
    rw [refill, parts, parts, refillFields_eq_map, List.map_map, List.map_map]
    rfl

/-- **The leaves of the refilled document are at the same paths, with the given scalars.** -/
theorem leaves_refill (d : Document) :
    (refill f d).leaves = d.leaves.map fun l => (l.1, .scalar (f l.1)) := by
  induction d using induct_parts generalizing f with
  | scalar v => simp [refill]
  | container d container ih =>
    rw [leaves_eq_flatMap (by simpa using container), leaves_eq_flatMap container, parts_refill,
      List.flatMap_map, List.map_flatMap]
    refine List.flatMap_congr fun c hc => ?_
    rw [ih c hc, List.map_map, List.map_map]
    rfl

theorem mem_refillItems {n : Nat} {items : List Document} {e : Document}
    (h : e ∈ refillItems f n items) : ∃ d ∈ items, ∃ g, e = refill g d := by
  induction items generalizing n with
  | nil => simp [refillItems] at h
  | cons d rest ih =>
    rw [refillItems, List.mem_cons] at h
    rcases h with rfl | h
    · exact ⟨d, List.mem_cons_self, _, rfl⟩
    · obtain ⟨d', hd', hg⟩ := ih h
      exact ⟨d', List.mem_cons_of_mem _ hd', hg⟩

theorem keyed_refill {d : Document} (keyed : d.Keyed) : (refill f d).Keyed := by
  induction d using Document.induct generalizing f with
  | scalar v =>
    rw [refill]
    exact .scalar _
  | list items ih =>
    rw [refill]
    refine .list fun e he => ?_
    obtain ⟨d, hd, g, rfl⟩ := mem_refillItems f he
    exact ih d hd g (keyed.item hd)
  | map fields ih =>
    rw [refill, refillFields_eq_map]
    refine .map ?_ fun field hfield => ?_
    · have hkeys : keys (fields.map fun field =>
          (field.1, refill (fun path => f (.key field.1 :: path)) field.2)) = keys fields := by
        rw [keys, List.map_map]
        rfl
      rw [hkeys]
      exact keyed.once
    · obtain ⟨field, hmem, rfl⟩ := List.mem_map.mp hfield
      exact ih field hmem _ (keyed.each field hmem)

/-- The scalar of the leaf at a path. -/
def scalarAt (leaves : List Leaf) (path : Path) : Scalar :=
  match get? path leaves with
  | some (.scalar v) => v
  | _ => .null

/-- Scalars at the paths of a document are the leaves of the document that is refilled with them. -/
theorem leaves_refill_of_paths {d : Document} (keyed : d.Keyed) {leaves : List Leaf}
    (paths : leaves.map Prod.fst = d.leaves.map Prod.fst) (scalars : OfScalars leaves) :
    (refill (scalarAt leaves) d).leaves = leaves := by
  have once : (leaves.map Prod.fst).Nodup := paths ▸ nodup_leaves keyed
  have hscalar : ∀ l ∈ leaves, (l.1, Document.scalar (scalarAt leaves l.1)) = l := by
    intro l hl
    obtain ⟨path, value⟩ := l
    obtain ⟨v, rfl⟩ := scalars _ hl
    rw [scalarAt, get?_of_pair_mem once hl]
  calc (refill (scalarAt leaves) d).leaves
      = (d.leaves.map Prod.fst).map fun path => (path, .scalar (scalarAt leaves path)) := by
        rw [leaves_refill, List.map_map]
        rfl
    _ = leaves.map fun l => (l.1, .scalar (scalarAt leaves l.1)) := by
        rw [← paths, List.map_map]
        rfl
    _ = leaves := (List.map_congr_left hscalar).trans (List.map_id _)

/-! ## Leafy documents -/

/-- Each item of a list holds a leaf. -/
inductive Leafy : Document → Prop
  /-- A scalar holds no lists. -/
  | scalar (v : Scalar) : Leafy (.scalar v)
  /-- The items hold leaves, and so do those of the lists in them. -/
  | list {items : List Document} (held : ∀ d ∈ items, d.leaves ≠ [])
      (each : ∀ d ∈ items, Leafy d) : Leafy (.list items)
  /-- So do the items of the lists in a map. -/
  | map {fields : Fields} (each : ∀ field ∈ fields, Leafy field.2) : Leafy (.map fields)

theorem Leafy.refill {d : Document} (h : d.Leafy) : (d.refill f).Leafy := by
  induction h generalizing f with
  | scalar v =>
    rw [Document.refill]
    exact .scalar _
  | list held each ih =>
    rw [Document.refill]
    refine .list (fun e he => ?_) fun e he => ?_
    · obtain ⟨d, hd, g, rfl⟩ := mem_refillItems f he
      rw [leaves_refill]
      simpa using held d hd
    · obtain ⟨d, hd, g, rfl⟩ := mem_refillItems f he
      exact ih d hd g
  | map each ih =>
    rw [Document.refill, refillFields_eq_map]
    refine .map fun field hfield => ?_
    obtain ⟨field, hmem, rfl⟩ := List.mem_map.mp hfield
    exact ih field hmem _

mutual

/-- Decides whether each item of a list holds a leaf. -/
def isLeafy : Document → Bool
  | .scalar _ => true
  | .list items => itemsLeafy items
  | .map fields => fieldsLeafy fields

/-- Decides whether all items hold leaves and are leafy. -/
def itemsLeafy : List Document → Bool
  | [] => true
  | d :: rest => !d.leaves.isEmpty && isLeafy d && itemsLeafy rest

/-- Decides whether the values of all fields are leafy. -/
def fieldsLeafy : Fields → Bool
  | [] => true
  | (_, d) :: rest => isLeafy d && fieldsLeafy rest

end

theorem itemsLeafy_iff {items : List Document} :
    itemsLeafy items = true ↔ ∀ d ∈ items, d.leaves ≠ [] ∧ d.isLeafy = true := by
  induction items with
  | nil => simp [itemsLeafy]
  | cons d rest ih => simp [itemsLeafy, ih]

theorem fieldsLeafy_iff {fields : Fields} :
    fieldsLeafy fields = true ↔ ∀ field ∈ fields, field.2.isLeafy = true := by
  induction fields with
  | nil => simp [fieldsLeafy]
  | cons field rest ih =>
    obtain ⟨k, d⟩ := field
    simp [fieldsLeafy, ih]

theorem isLeafy_iff {d : Document} : d.isLeafy = true ↔ d.Leafy := by
  induction d using Document.induct with
  | scalar v => simpa [isLeafy] using Leafy.scalar v
  | list items ih =>
    rw [isLeafy, itemsLeafy_iff]
    constructor
    · exact fun h => .list (fun d hd => (h d hd).1) fun d hd => (ih d hd).mp (h d hd).2
    · rintro (_ | ⟨held, each⟩)
      exact fun d hd => ⟨held d hd, (ih d hd).mpr (each d hd)⟩
  | map fields ih =>
    rw [isLeafy, fieldsLeafy_iff]
    constructor
    · exact fun h => .map fun field hfield => (ih field hfield).mp (h field hfield)
    · rintro (_ | _ | each)
      exact fun field hfield => (ih field hfield).mpr (each field hfield)

instance : DecidablePred Leafy := fun _ => decidable_of_iff _ isLeafy_iff

theorem Leafy.part {d : Document} (h : d.Leafy) {c : Segment × Document} (hc : c ∈ d.parts) :
    c.2.Leafy := by
  cases h with
  | scalar v => cases hc
  | list held each =>
    obtain ⟨p, hp, rfl⟩ := List.mem_map.mp hc
    exact each p.1 (List.fst_mem_of_mem_zipIdx hp)
  | map each =>
    obtain ⟨field, hfield, rfl⟩ := List.mem_map.mp hc
    exact each field hfield

theorem leaves_of_hollow {d : Document} (h : d.isHollow = true) : d.leaves = [] := by
  cases d with
  | scalar v => cases h
  | list items =>
    obtain rfl : items = [] := by simpa [isHollow] using h
    rfl
  | map fields =>
    obtain rfl : fields = [] := by simpa [isHollow] using h
    rfl

theorem leaves_kept? {d : Document} (h : d.prune.leaves = d.leaves) :
    (d.kept?.map leaves).getD [] = d.leaves := by
  rw [kept?]
  split
  · next hhollow => rw [← h, leaves_of_hollow hhollow, Option.map_none, Option.getD_none]
  · rw [Option.map_some, Option.getD_some, h]

/-- Pruning a leafy document keeps its leaves where they are. -/
theorem leaves_prune {d : Document} (h : d.Leafy) : d.prune.leaves = d.leaves := by
  induction h with
  | scalar v => rfl
  | @list items held each ih =>
    have hkept : items.filterMap kept? = items.map prune := by
      rw [← List.filterMap_eq_map]
      refine List.filterMap_congr fun d hd => ?_
      have hhollow : ¬ d.prune.isHollow = true := fun hhollow =>
        held d hd ((ih d hd).symm.trans (leaves_of_hollow hhollow))
      simp [kept?, hhollow]
    rw [prune, filter_pruneItems, hkept, leaves_eq_flatMap rfl, leaves_eq_flatMap rfl, parts,
      parts, List.zipIdx_map, List.map_map, List.flatMap_map, List.flatMap_map]
    refine List.flatMap_congr fun p hp => ?_
    simp [ih p.1 (List.fst_mem_of_mem_zipIdx hp)]
  | @map fields each ih =>
    rw [prune, filter_pruneFields, leaves_eq_flatMap rfl, leaves_eq_flatMap rfl, parts, parts,
      List.flatMap_map, List.flatMap_map, List.filterMap_eq_flatMap_toList, List.flatMap_assoc]
    refine List.flatMap_congr fun field hfield => ?_
    rw [← leaves_kept? (ih field hfield)]
    cases field.2.kept? <;> simp

/-- **What scalars at the paths of a leafy document make has them as its leaves.** -/
theorem leaves_made_of_paths {d : Document} (keyed : d.Keyed) (leafy : d.Leafy)
    {leaves : List Leaf} (paths : leaves.map Prod.fst = d.leaves.map Prod.fst)
    (scalars : OfScalars leaves) {part : Document} (h : made? leaves = some part) :
    part.leaves = leaves := by
  have hrefill := leaves_refill_of_paths keyed paths scalars
  rw [← hrefill, made?_leaves (keyed_refill _ keyed)] at h
  obtain ⟨-, rfl⟩ := isHollow_of_kept? h
  rw [leaves_prune (leafy.refill _), hrefill]

end Document

end Colourway
