import Colourway.Proofs.Layer.Sections
import Mathlib.Data.List.DropRight

/-!
# Appended sections

A section of the theme that a layer binds to a list goes on where the layers before it stopped: if
they came to a list too, the items are appended to it, and otherwise the list begins anew.  So a
section that ends as a list holds the lists that were bound to it since it was last anything else,
one behind the other, with every item as its layer wrote it (**`themeList_compose`**).

What counts is the row of values that layers bind to the section (`themeBindings`).
`items_laidInOrder` follows the items through that row.
-/

namespace Colourway

open Assoc Document

/-- Whether a document is a list. -/
def Document.isList : Document → Bool
  | .list _ => true
  | _ => false

/-- The items of a list; anything else has none. -/
def Document.items : Document → List Document
  | .list items => items
  | _ => []

/-- The values that layers bind to a section of the theme, in the order of the layers. -/
def SectionNames.themeBindings (n : SectionNames) (name : Text) (layers : List Layer) :
    List Document :=
  layers.filterMap fun layer => n.themePart name layer.fields

/-! ## One value behind another -/

/-- The items of what a section held, none if it held no list. -/
def itemsBefore (prior : Option Document) : List Document := (prior.map items).getD []

/-- A list goes on where an earlier list stopped. -/
theorem laidThemeValue_list (mark : Text) (prior : Option Document) (items : List Document) :
    laidThemeValue mark prior (.list items) = .list (itemsBefore prior ++ items) := by
  cases prior with
  | none => rfl
  | some d => cases d <;> rfl

/-- Nothing but a list makes a section a list. -/
theorem items_laidThemeValue_of_not_list (mark : Text) (prior : Option Document) {d : Document}
    (h : d.isList = false) : (laidThemeValue mark prior d).items = [] := by
  cases d with
  | list items => cases h
  | map fields => rfl
  | scalar v =>
    change (carriedLeaf mark prior (.scalar v)).items = []
    unfold carriedLeaf
    split
    · split
      · split <;> rfl
      · rfl
    · rfl

/-! ## All values in order -/

/-- A section of the theme once values were laid over one another, from nothing on. -/
def laidInOrder (mark : Text) (values : List Document) : Option Document :=
  values.foldl (fun prior d => some (laidThemeValue mark prior d)) none

theorem laidInOrder_append (mark : Text) (values : List Document) (d : Document) :
    laidInOrder mark (values ++ [d]) = some (laidThemeValue mark (laidInOrder mark values) d) := by
  rw [laidInOrder, List.foldl_append]
  rfl

/-- **Items are appended since the section was last no list.** -/
theorem items_laidInOrder (mark : Text) (values : List Document) :
    itemsBefore (laidInOrder mark values) = (values.rtakeWhile isList).flatMap items := by
  induction values using List.reverseRecOn with
  | nil => rfl
  | append_singleton values d ih =>
    rw [laidInOrder_append, List.rtakeWhile_concat]
    cases hd : d.isList with
    | true =>
      obtain ⟨items, rfl⟩ : ∃ items, d = .list items := by
        cases d with
        | list items => exact ⟨items, rfl⟩
        | _ => cases hd
      rw [laidThemeValue_list, if_pos rfl, List.flatMap_append, ← ih, List.flatMap_singleton]
      rfl
    | false => exact items_laidThemeValue_of_not_list mark _ hd

/-- A section that a list was bound to last is a list. -/
theorem laidInOrder_of_last (mark : Text) {values : List Document} {last : List Document}
    (h : values.getLast? = some (.list last)) :
    laidInOrder mark values = some (.list ((values.rtakeWhile isList).flatMap items)) := by
  obtain ⟨before, rfl⟩ := List.getLast?_eq_some_iff.mp h
  rw [laidInOrder_append, laidThemeValue_list, ← items_laidInOrder mark, laidInOrder_append,
    laidThemeValue_list]
  rfl

/-! ## Composed sections -/

/-- A section of the theme is what the layers that bind it make of it. -/
theorem themeSection_eq_laidInOrder {n : SectionNames} {layers : List Layer}
    (keyed : ∀ layer ∈ layers, (Document.map layer.fields).Keyed) (name : Text) :
    n.themeSection layers name = laidInOrder n.carryMark (n.themeBindings name layers) := by
  induction layers using List.reverseRecOn with
  | nil => rfl
  | append_singleton layers layer ih =>
    obtain ⟨hlayers, hlayer⟩ := List.forall_mem_append.mp keyed
    rw [themeSection_append (hlayer layer List.mem_cons_self), ih hlayers,
      SectionNames.themeBindings, SectionNames.themeBindings, List.filterMap_append]
    cases hpart : n.themePart name layer.fields with
    | none => simp [hpart]
    | some d => simp [hpart, laidInOrder_append]

/-- **A list section holds all that was appended to it.**  If the last layer that binds a section of
the theme binds it to a list, then the composed theme has there, one behind the other in the order
of the layers, the lists that were bound to the section since a layer last bound it to anything
else.  Layers that do not bind it are passed over, and no carry mark inside an item is
replaced. -/
theorem themeList_compose {n : SectionNames} (palette : n.theme ≠ n.palette)
    (vars : n.theme ≠ n.vars) {imports : List Layer} {main : Fields}
    (keyed : ∀ layer ∈ allLayers imports main, (Document.map layer.fields).Keyed) {name : Text}
    {last : List Document}
    (list : (n.themeBindings name (allLayers imports main)).getLast? = some (.list last))
    {c : Composition} (composed : compose n imports main = .ok c) :
    n.themePart name c.fields =
      some (.list (((n.themeBindings name (allLayers imports main)).rtakeWhile isList).flatMap
        items)) := by
  calc n.themePart name c.fields
      = n.themeSection (allLayers imports main) name := by
        rw [SectionNames.themePart, get?_compose_theme palette vars composed,
          SectionNames.themeSection]
    _ = laidInOrder n.carryMark (n.themeBindings name (allLayers imports main)) :=
        themeSection_eq_laidInOrder keyed name
    _ = _ := laidInOrder_of_last n.carryMark list

/-- Four layers: a list, a text in its place, a list anew, and a layer without a theme. -/
def ruleImports : List Layer :=
  [⟨"base", [("theme", .map [("rules", .list [.text "a"])])]⟩,
    ⟨"plain", [("theme", .map [("rules", .text "none")])]⟩,
    ⟨"dark", [("theme", .map [("rules", .list [.text "b", .map [("scope", .text "^ b")]])])]⟩,
    ⟨"blank", [("theme", .null)]⟩]

/-- A main document that appends to the rules. -/
def ruleMain : Fields := [("theme", .map [("rules", .list [.text "^"])])]

/-- The rules begin anew behind the text, and carry marks in them stay. -/
theorem rules_since_text :
    (∀ layer ∈ allLayers ruleImports ruleMain, (Document.map layer.fields).Keyed) ∧
      (({} : SectionNames).themeBindings "rules" (allLayers ruleImports ruleMain)).getLast? =
        some (.list [.text "^"]) ∧
      ∃ c, compose {} ruleImports ruleMain = .ok c ∧
        ({} : SectionNames).themePart "rules" c.fields =
          some (.list [.text "b", .map [("scope", .text "^ b")], .text "^"]) := by
  have keyed : ∀ layer ∈ allLayers ruleImports ruleMain,
      (Document.map layer.fields).Keyed := by decide
  have list : (({} : SectionNames).themeBindings "rules"
      (allLayers ruleImports ruleMain)).getLast? = some (.list [.text "^"]) := rfl
  obtain ⟨c, composed⟩ : ∃ c, compose {} ruleImports ruleMain = .ok c := ⟨_, rfl⟩
  exact ⟨keyed, list, c, composed,
    (themeList_compose (by decide) (by decide) keyed list composed).trans rfl⟩

end Colourway
