import Colourway.Proofs.Layer.Origins
import Colourway.Proofs.Layer.Pointwise
import Colourway.Proofs.Layer.Staged
import Colourway.Proofs.Resolve.Settled
import Colourway.Proofs.Theme.Assembled

/-!
# Which layer's colours are emitted

A flat section of the output joins what layers wrote under one flat path, be it one key with dots
or maps in maps.  Of one path the last layer counts (`last?_of_leafAt?`).  Of different paths with
one flat form the one that comes last in the composed document counts, and that order is the order
in which the keys were first written.  So the last layer wins wherever the layers spell a flat path
in one way (**`emitted_section`**), and can lose where they do not
(`later_spelling_loses`).
-/

namespace Colourway

open Assoc Document Text Syntax

/-! ## A section of the theme, layer by layer -/

namespace SectionNames

/-- The leaves of a section of a document's theme, with their paths below the section. -/
def themeLeaves (n : SectionNames) (name : Text) (fields : Fields) : List Entry :=
  ((n.themePart name fields).map Document.entries).getD []

/-- A document without the section, or one that has colours there: a map whose leaves are hex
literals of six or eight digits, without the carry mark, under keys. -/
structure Colours (n : SectionNames) (name : Text) (fields : Fields) : Prop where
  map : ∀ d, n.themePart name fields = some d → ∃ below, d = .map below
  key : ∀ e ∈ n.themeLeaves name fields, ∀ s ∈ e.path, s.isIndex = false
  colour : ∀ e ∈ n.themeLeaves name fields,
    ∃ v, e.value = .text v ∧ isLongHex v = true ∧ occursIn n.carryMark v = false

/-- Decides whether a document has colours in a section of its theme. -/
def isColours (n : SectionNames) (name : Text) (fields : Fields) : Bool :=
  ((n.themePart name fields).all fun d => d.fields?.isSome) &&
    (n.themeLeaves name fields).all fun e =>
      e.path.all (fun s => !s.isIndex) &&
        e.value.text?.any fun v => isLongHex v && !occursIn n.carryMark v

theorem isColours_iff {n : SectionNames} {name : Text} {fields : Fields} :
    n.isColours name fields = true ↔ n.Colours name fields := by
  have hcolour : ∀ e : Entry,
      e.value.text?.any (fun v => isLongHex v && !occursIn n.carryMark v) = true ↔
        ∃ v, e.value = .text v ∧ isLongHex v = true ∧ occursIn n.carryMark v = false := by
    intro e
    rw [Option.any_eq_true]
    refine exists_congr fun v => ?_
    rw [Bool.and_eq_true, Bool.not_eq_true']
    refine and_congr_left fun _ => ⟨eq_text_of_text?, fun h => ?_⟩
    rw [h]
    rfl
  simp only [isColours, Bool.and_eq_true, List.all_eq_true, Bool.not_eq_true', hcolour,
    Option.all_eq_true]
  constructor
  · rintro ⟨hmap, hleaves⟩
    refine ⟨fun d hd => ?_, fun e he => (hleaves e he).1, fun e he => (hleaves e he).2⟩
    rcases d.map_or_not with hfields | hnone
    · exact hfields
    · have hsome := hmap d hd
      rw [hnone] at hsome
      cases hsome
  · rintro ⟨hmap, hkey, hcolours⟩
    refine ⟨fun d hd => ?_, fun e he => ⟨hkey e he, hcolours e he⟩⟩
    obtain ⟨below, rfl⟩ := hmap d hd
    rfl

instance (n : SectionNames) (name : Text) (fields : Fields) : Decidable (n.Colours name fields) :=
  decidable_of_iff _ isColours_iff

/-- All leaves that layers have in a section of the theme, in the order of the layers. -/
def writtenLeaves (n : SectionNames) (name : Text) (layers : List Layer) : List Entry :=
  layers.flatMap fun layer => n.themeLeaves name layer.fields

end SectionNames

/-- A layer with colours merges them over what was there. -/
theorem SectionNames.Colours.themeSection_append {n : SectionNames} {name : Text}
    {layers : List Layer} {layer : Layer} (keyed : (Document.map layer.fields).Keyed)
    (h : n.Colours name layer.fields) :
    n.themeSection (layers ++ [layer]) name =
      match n.themePart name layer.fields with
      | none => n.themeSection layers name
      | some d => some (laid n.carryMark (n.themeSection layers name) d) := by
  rw [Colourway.themeSection_append keyed]
  cases hd : n.themePart name layer.fields with
  | none => rfl
  | some d =>
    obtain ⟨fields, rfl⟩ := h.map d hd
    have hfields : (Document.map (fieldsOf (get? n.theme layer.fields))).Keyed :=
      Keyed.fieldsOf fun _ hd => keyed.field hd
    simp only [laidThemeValue_eq_laid (hfields.field hd) (by simp)]

theorem Document.leafAt?_eq_scalar {d : Document} {keys : List Text} {v : Scalar} :
    d.leafAt? keys = some (.scalar v) ↔ d.at? (keys.map .key) = some (.scalar v) := by
  unfold leafAt?
  cases d.at? (keys.map .key) with
  | none => simp
  | some found => cases found <;> simp [fields?]

/-- What a document says about a place, and what it holds there. -/
theorem Document.verdict_cases {d : Document} (keyed : d.Keyed) (keys : List Text) :
    (d.verdict keys = .silent ∧ d.leafAt? keys = none) ∨
      (d.verdict keys = .clears ∧ d.leafAt? keys = none) ∨
      ∃ leaf, d.verdict keys = .sets leaf ∧ d.leafAt? keys = some leaf := by
  have hleaf : (d.verdict keys).settle [] none = .ok (d.leafAt? keys) := by
    simpa [laid] using leafAt?_laid keys keyed (not_carryStops_none : ¬ CarryStops [] none d)
  cases hverdict : d.verdict keys with
  | silent =>
    rw [hverdict] at hleaf
    exact Or.inl ⟨rfl, (Except.ok.inj hleaf).symm⟩
  | clears =>
    rw [hverdict] at hleaf
    exact Or.inr (Or.inl ⟨rfl, (Except.ok.inj hleaf).symm⟩)
  | sets leaf =>
    rw [hverdict] at hleaf
    refine Or.inr (Or.inr ⟨leaf, rfl, ?_⟩)
    cases h : leaf.text? <;> simpa [Verdict.settle, h] using hleaf.symm

theorem Path.eq_map_key {path : Path} (h : ∀ s ∈ path, s.isIndex = false) :
    ∃ names : List Text, path = names.map Segment.key := by
  induction path with
  | nil => exact ⟨[], rfl⟩
  | cons s rest ih =>
    obtain ⟨hs, hrest⟩ := List.forall_mem_cons.mp h
    obtain ⟨keys, rfl⟩ := ih hrest
    cases s with
    | key name => exact ⟨name :: keys, rfl⟩
    | index position => cases hs

section Layers

variable {n : SectionNames} {name : Text}

theorem keyed_themePart {fields : Fields} (keyed : (Document.map fields).Keyed) {d : Document}
    (h : n.themePart name fields = some d) : d.Keyed := by
  have htheme : (Document.map (fieldsOf (get? n.theme fields))).Keyed :=
    Keyed.fieldsOf fun _ hd => keyed.field hd
  exact htheme.field h

/-- The leaves of a document with colours are the scalars of its section. -/
theorem SectionNames.Colours.lists_themeLeaves {fields : Fields}
    (keyed : (Document.map fields).Keyed) (h : n.Colours name fields) {d : Document}
    (hd : n.themePart name fields = some d) {path : Path} {value : Document} :
    Lists (n.themeLeaves name fields) path value ↔
      ∃ v, d.at? path = some (.scalar v) ∧ value = .scalar v := by
  obtain ⟨below, rfl⟩ := h.map d hd
  rw [SectionNames.themeLeaves, hd]
  exact lists_entries (keyed_themePart keyed hd) rfl

/-- Nothing stops a layer with colours: they hold no carry mark. -/
theorem SectionNames.Colours.goes {fields : Fields} (keyed : (Document.map fields).Keyed)
    (h : n.Colours name fields) {d : Document} (hd : n.themePart name fields = some d)
    {prior : Option Document} : ¬ CarryStops n.carryMark prior d := by
  intro hstops
  obtain ⟨path, v, p, hleaf, hmark, -⟩ := (carryStops_iff (keyed_themePart keyed hd)).mp hstops
  obtain ⟨e, he, -, hvalue⟩ :=
    (h.lists_themeLeaves keyed hd).mpr ⟨_, leafAt?_eq_scalar.mp hleaf, rfl⟩
  obtain ⟨colour, hcolour, -, hunmarked⟩ := h.colour e he
  rw [hvalue] at hcolour
  obtain rfl : v = colour := Scalar.text.inj (Document.scalar.inj hcolour)
  rw [hmark] at hunmarked
  cases hunmarked

/-- What a document with colours says about a place, and the leaf it has there. -/
theorem SectionNames.Colours.settle_verdict {fields : Fields}
    (keyed : (Document.map fields).Keyed) (h : n.Colours name fields) {d : Document}
    (hd : n.themePart name fields = some d) {keys : List Text} {before : Option Document} {v : Scalar}
    (hafter : (d.verdict keys).settle n.carryMark before = .ok (some (.scalar v))) :
    (d.at? (keys.map .key) = some (.scalar v)) ∨
      ((∀ w, d.at? (keys.map .key) ≠ some (.scalar w)) ∧ before = some (.scalar v)) := by
  rcases verdict_cases (keyed_themePart keyed hd) keys with
    ⟨hverdict, hleaf⟩ | ⟨hverdict, -⟩ | ⟨leaf, hverdict, hleaf⟩
  · rw [hverdict] at hafter
    refine Or.inr ⟨fun w hw => ?_, Except.ok.inj hafter⟩
    rw [leafAt?_eq_scalar.mpr hw] at hleaf
    cases hleaf
  · rw [hverdict] at hafter
    cases hafter
  · rw [hverdict] at hafter
    refine Or.inl (leafAt?_eq_scalar.mp ?_)
    rw [hleaf]
    cases leaf with
    | map fields => simp [Verdict.settle, text?] at hafter
    | list items => simp [Verdict.settle, text?] at hafter
    | scalar w =>
      -- The leaf is a colour without the carry mark, so nothing is carried into it.
      have hat := leafAt?_eq_scalar.mp hleaf
      obtain ⟨e, he, -, hvalue⟩ := (h.lists_themeLeaves keyed hd).mpr ⟨w, hat, rfl⟩
      obtain ⟨colour, hcolour, -, hmark⟩ := h.colour e he
      obtain rfl : w = .text colour := by
        rw [hvalue] at hcolour
        exact Document.scalar.inj hcolour
      cases before with
      | none => simpa [Verdict.settle, text?] using hafter
      | some prior => cases prior <;> simpa [Verdict.settle, text?, hmark] using hafter

variable {layers : List Layer} (keyed : ∀ layer ∈ layers, (Document.map layer.fields).Keyed)
  (colours : ∀ layer ∈ layers, n.Colours name layer.fields)

include keyed colours

/-- Colours make a keyed map of colours under keys. -/
theorem themeSection_colours {d : Document} (h : n.themeSection layers name = some d) :
    (∃ fields, d = .map fields) ∧ d.Keyed ∧
      ∀ path, d.HasLeaf path → ∀ s ∈ path, s.isIndex = false := by
  induction layers using List.reverseRecOn generalizing d with
  | nil => simp [SectionNames.themeSection, get?] at h
  | append_singleton layers layer ih =>
    have hlayer : (Document.map layer.fields).Keyed := keyed layer (by simp)
    have hcolours : n.Colours name layer.fields := colours layer (by simp)
    have ih := fun {d} => ih (fun l hl => keyed l (List.mem_append_left _ hl))
      (fun l hl => colours l (List.mem_append_left _ hl)) (d := d)
    rw [hcolours.themeSection_append hlayer] at h
    cases hsection : n.themePart name layer.fields with
    | none =>
      rw [hsection] at h
      exact ih h
    | some later =>
      rw [hsection] at h
      obtain rfl := Option.some.inj h
      obtain ⟨fields, rfl⟩ := hcolours.map later hsection
      have hlater : (Document.map fields).Keyed := keyed_themePart hlayer hsection
      refine ⟨⟨_, laid_map n.carryMark hlater.once _⟩, ?_, ?_⟩
      · exact hlater.laid n.carryMark fun p hp => (ih hp).2.1
      · intro path hleaf
        rcases hasLeaf_of_laid n.carryMark hlater hleaf with ⟨p, hp, hbefore⟩ | hnew
        · exact (ih hp).2.2 path hbefore
        · obtain ⟨v, hat⟩ := hasLeaf_iff_at?.mp hnew
          obtain ⟨e, he, rfl, -⟩ := (hcolours.lists_themeLeaves hlayer hsection).mpr ⟨v, hat, rfl⟩
          exact hcolours.key e he

/-- Of what layers write at one path the last is kept. -/
theorem last?_of_leafAt? {keys : List Text} {v : Scalar}
    (h : (n.themeSection layers name).bind (leafAt? keys) = some (.scalar v)) :
    last? (keys.map .key)
      ((n.writtenLeaves name layers).map fun e => (e.path, e.value)) = some (.scalar v) := by
  induction layers using List.reverseRecOn with
  | nil => simp [SectionNames.themeSection, get?] at h
  | append_singleton layers layer ih =>
    have hlayer : (Document.map layer.fields).Keyed := keyed layer (by simp)
    have hcolours : n.Colours name layer.fields := colours layer (by simp)
    have ih := ih (fun l hl => keyed l (List.mem_append_left _ hl))
      (fun l hl => colours l (List.mem_append_left _ hl))
    rw [SectionNames.writtenLeaves, List.flatMap_append, List.map_append, last?_append,
      List.flatMap_singleton]
    rw [hcolours.themeSection_append hlayer] at h
    cases hsection : n.themePart name layer.fields with
    | none =>
      rw [hsection] at h
      have hnone : n.themeLeaves name layer.fields = [] := by
        simp [SectionNames.themeLeaves, hsection]
      rw [hnone]
      exact ih h
    | some d =>
      rw [hsection] at h
      have hd : d.Keyed := keyed_themePart hlayer hsection
      have hlists : ∀ {path value}, Lists (n.themeLeaves name layer.fields) path value ↔
          ∃ v, d.at? path = some (.scalar v) ∧ value = .scalar v :=
        hcolours.lists_themeLeaves hlayer hsection
      have hgoes : ¬ CarryStops n.carryMark (n.themeSection layers name) d :=
        hcolours.goes hlayer hsection
      have hsettled := leafAt?_laid keys hd hgoes
      simp only [Option.bind_some] at h
      rw [h] at hsettled
      rcases hcolours.settle_verdict hlayer hsection hsettled with hat | ⟨hnone, hbefore⟩
      · have hnew : last? (keys.map .key) ((n.themeLeaves name layer.fields).map fun e =>
            (e.path, e.value)) = some (.scalar v) := by
          refine last?_of_forall ?_ ?_
          · obtain ⟨e, he, hpath, hvalue⟩ := hlists.mpr ⟨v, hat, rfl⟩
            exact List.mem_map.mpr ⟨e, he, by rw [hpath, hvalue]⟩
          · rintro p hp hkey
            obtain ⟨e, he, rfl⟩ := List.mem_map.mp hp
            obtain ⟨w, hw, hvalue⟩ := hlists.mp ⟨e, he, hkey, rfl⟩
            rw [hat] at hw
            cases hw
            exact hvalue
        rw [hnew]
        rfl
      · rw [last?_eq_none_iff.mpr]
        · exact ih hbefore
        · rintro p hp hkey
          obtain ⟨e, he, rfl⟩ := List.mem_map.mp hp
          obtain ⟨w, hw, -⟩ := hlists.mp ⟨e, he, hkey, rfl⟩
          exact hnone w hw

variable {d : Document} (h : n.themeSection layers name = some d)

include h

/-- Each leaf that is left is the last one that was written at its path. -/
theorem last?_of_mem_entries {e : Entry} (he : e ∈ d.entries) :
    last? e.path ((n.writtenLeaves name layers).map fun e => (e.path, e.value)) =
      some e.value := by
  obtain ⟨⟨below, rfl⟩, hkeyed, hkeys⟩ := themeSection_colours keyed colours h
  obtain ⟨v, hat, hvalue⟩ := (lists_entries hkeyed rfl).mp ⟨e, he, rfl, rfl⟩
  obtain ⟨keys, hpath⟩ := Path.eq_map_key (hkeys e.path (hasLeaf_iff_at?.mpr ⟨v, hat⟩))
  rw [hvalue, hpath]
  refine last?_of_leafAt? keyed colours ?_
  rw [h, Option.bind_some, leafAt?_eq_scalar, ← hpath]
  exact hat

/-- What is left are colours, so resolving leaves them alone. -/
theorem settled_of_mem_entries {e : Entry} (he : e ∈ d.entries) : e.value.Settled := by
  obtain ⟨w, hw, heq⟩ := List.mem_map.mp (mem_of_last? (last?_of_mem_entries keyed colours h he))
  obtain ⟨layer, hlayer, hleaf⟩ := List.mem_flatMap.mp hw
  obtain ⟨v, hv, hlong, -⟩ := (colours layer hlayer).colour w hleaf
  rw [← (Prod.mk.inj heq).2, hv]
  exact settled_of_long hlong

/-- What is left stands under a key of the section. -/
theorem keyBelowSection_of_mem_entries {e : Entry} (he : e ∈ d.entries) (lead : Segment) :
    keyBelowSection (e.below [lead]) = true := by
  obtain ⟨⟨below, rfl⟩, hkeyed, hkeys⟩ := themeSection_colours keyed colours h
  obtain ⟨v, hat, -⟩ := (lists_entries hkeyed rfl).mp ⟨e, he, rfl, rfl⟩
  have hkey := hkeys e.path (hasLeaf_iff_at?.mpr ⟨v, hat⟩)
  cases hp : e.path with
  | nil => simp [hp, at?] at hat
  | cons s rest =>
    cases s with
    | index position => simpa [Segment.isIndex] using hkey (.index position) (by simp [hp])
    | key first => simp [keyBelowSection, Entry.below, hp]

end Layers

/-! ## A compilation -/

/-- Resolving that succeeds resolved the theme and assembled what came out. -/
theorem CompilerOptions.resolve_ok {o : CompilerOptions} {composed : Composition} {c : Compilation}
    (h : o.resolve composed = .ok c) :
    c.composition = composed ∧
    ∃ (r : Resolver) (s : Store) (config : Fields) (entries : List Entry),
      (r.evaluate s .theme (sectionEntries [] composed.fields o.names.theme)).outcome =
        .ok entries ∧
      assemble o.flatSections config entries = .ok c.output := by
  unfold resolve at h
  obtain ⟨r, -, h⟩ := bind_eq_ok_iff.mp h
  obtain ⟨palette, -, h⟩ := bind_eq_ok_iff.mp h
  obtain ⟨vars, -, h⟩ := bind_eq_ok_iff.mp h
  obtain ⟨entries, hentries, h⟩ := bind_eq_ok_iff.mp h
  obtain ⟨output, hassemble, h⟩ := bind_eq_ok_iff.mp h
  obtain rfl := Except.ok.inj h
  exact ⟨rfl, r, _, _, entries, hentries, mapError_eq_ok_iff.mp hassemble⟩

/-- A compilation that succeeds composed the layers and resolved what came out. -/
theorem CompilerOptions.compile_ok {o : CompilerOptions} {imports : List Layer} {main : Fields}
    {c : Compilation} (h : o.compile imports main = .ok c) :
    o.compose imports main = .ok c.composition ∧ o.resolve c.composition = .ok c := by
  obtain ⟨composed, hcompose, hresolve⟩ := bind_eq_ok_iff.mp h
  rw [(resolve_ok hresolve).1]
  exact ⟨mapError_eq_ok_iff.mp hcompose, hresolve⟩

section Emitted

variable {o : CompilerOptions} (distinct : o.names.Distinct) {imports : List Layer} {main : Fields}
  {composed : Composition} (hcompose : compose o.names imports main = .ok composed)

include distinct hcompose

/-- The entries of a section of the composed theme. -/
theorem filter_sectionEntries {name : Text} {d : Document}
    (h : o.names.themeSection (allLayers imports main) name = some d)
    (container : d.isContainer = true) :
    (sectionEntries [] composed.fields o.names.theme).filter (Entry.isIn name) =
      d.entries.map (Entry.below [.key name]) := by
  have htheme : get? o.names.theme composed.fields =
      o.names.sections (allLayers imports main) o.names.theme :=
    get?_compose distinct (by simp [SectionNames.all]) hcompose
  have hsettled := SectionNames.settled_sections (n := o.names) (allLayers imports main) o.names.theme
  rw [SectionNames.Settled, if_pos rfl] at hsettled
  cases ht : o.names.sections (allLayers imports main) o.names.theme with
  | none => simp [SectionNames.themeSection, ht, get?] at h
  | some theme =>
    obtain ⟨f, fields, rfl, hfields⟩ := hsettled theme ht
    rw [SectionNames.themeSection, ht, fieldsOf_map] at h
    have hentries : sectionEntries [] composed.fields o.names.theme =
        fieldEntries [] (f :: fields) := by
      simp [sectionEntries, Fields.get?, htheme, ht, entriesBelow]
    have hbelow : entriesAt [.key name] none d = d.entries.map (Entry.below [.key name]) := by
      rw [entriesAt_of_container container, entriesBelow_eq]
    rw [hentries, filter_fieldEntries hfields.once, h]
    exact hbelow

/-- The part of the composed theme under the name of a section. -/
theorem themePart_compose (name : Text) :
    o.names.themePart name composed.fields =
      o.names.themeSection (allLayers imports main) name := by
  have htheme : get? o.names.theme composed.fields =
      o.names.sections (allLayers imports main) o.names.theme :=
    get?_compose distinct (by simp [SectionNames.all]) hcompose
  rw [SectionNames.themePart, htheme, SectionNames.themeSection]

/-- Resolving leaves a section of settled entries as it was composed. -/
theorem filter_resolved {name : Text} {d : Document}
    (h : o.names.themeSection (allLayers imports main) name = some d)
    (container : d.isContainer = true) (settled : ∀ e ∈ d.entries, e.value.Settled)
    {r : Resolver} {s : Store} {entries : List Entry}
    (hentries : (r.evaluate s .theme (sectionEntries [] composed.fields
      o.names.theme)).outcome = .ok entries) :
    entries.filter (Entry.isIn name) = d.entries.map (Entry.below [.key name]) := by
  have hin := filter_sectionEntries distinct hcompose h container
  rw [← hin]
  refine Resolver.evaluate_filter (Entry.isIn_withValue name) (fun e he hname => ?_) hentries
  have hmem : e ∈ d.entries.map (Entry.below [.key name]) := by
    rw [← hin]
    exact List.mem_filter.mpr ⟨he, hname⟩
  obtain ⟨inner, hinner, rfl⟩ := List.mem_map.mp hmem
  exact settled inner hinner

end Emitted

/-- **Which layer's colour is emitted.**  Let layers have colours in a flat section of the theme,
and let some be left in the composed document.  If the compilation succeeds, the output holds under
each flat path the last leaf of the composed section with that flat path, and each leaf there is the
last that the layers wrote at its path.  So where the layers write a flat path at one path only, the
output holds what the last of them wrote. -/
theorem emitted_section {o : CompilerOptions} (distinct : o.names.Distinct) {imports : List Layer}
    {main : Fields} (keyed : ∀ layer ∈ allLayers imports main, (Document.map layer.fields).Keyed)
    {name : Text} (hflat : name ∈ o.flatSections)
    (colours : ∀ layer ∈ allLayers imports main, o.names.Colours name layer.fields)
    {c : Compilation} (h : o.compile imports main = .ok c)
    (left : o.names.themeLeaves name c.composition.fields ≠ []) :
    ∃ fields, get? name c.output = some (.map fields) ∧
      (∀ x, get? x fields = last? x
        ((o.names.themeLeaves name c.composition.fields).map fun e =>
          (e.flat, e.value))) ∧
      (∀ e ∈ o.names.themeLeaves name c.composition.fields,
        last? e.path ((o.names.writtenLeaves name (allLayers imports main)).map fun e =>
          (e.path, e.value)) = some e.value) ∧
      (∀ x v, get? x fields = some v →
        (∀ e ∈ o.names.writtenLeaves name (allLayers imports main),
          ∀ e' ∈ o.names.writtenLeaves name (allLayers imports main),
            e.flat = x → e'.flat = x → e.path = e'.path) →
        last? x ((o.names.writtenLeaves name (allLayers imports main)).map fun e =>
          (e.flat, e.value)) = some v) := by
  obtain ⟨hcompose, hresolve⟩ := CompilerOptions.compile_ok h
  obtain ⟨-, r, s, config, entries, hentries, hassemble⟩ := CompilerOptions.resolve_ok hresolve
  unfold SectionNames.themeLeaves at left ⊢
  rw [themePart_compose distinct hcompose] at left ⊢
  cases hd : o.names.themeSection (allLayers imports main) name with
  | none => simp [hd] at left
  | some d =>
    simp only [hd, Option.map_some, Option.getD_some] at left ⊢
    have hlast := fun e he => last?_of_mem_entries keyed colours hd (e := e) he
    have hcontainer : d.isContainer = true := by
      obtain ⟨⟨below, rfl⟩, -⟩ := themeSection_colours keyed colours hd
      rfl
    have hfilter := filter_resolved distinct hcompose hd hcontainer
      (fun e he => settled_of_mem_entries keyed colours hd he) hentries
    have hbelow : ∀ e ∈ entries.filter (Entry.isIn name), keyBelowSection e = true := by
      rw [hfilter]
      rintro _ he
      obtain ⟨inner, hinner, rfl⟩ := List.mem_map.mp he
      exact keyBelowSection_of_mem_entries keyed colours hd hinner _
    obtain ⟨fields, hout, hassembled⟩ := assemble_flat hassemble hflat
      (by simpa [hfilter] using left) hbelow
    have hget : ∀ x, get? x fields = last? x (d.entries.map fun e => (e.flat, e.value)) := by
      intro x
      rw [hassembled, hfilter, List.map_map]
      rfl
    refine ⟨fields, hout, hget, hlast, fun x v hx agree => ?_⟩
    rw [hget] at hx
    obtain ⟨e, he, heq⟩ := List.mem_map.mp (mem_of_last? hx)
    obtain ⟨rfl, rfl⟩ := Prod.mk.inj heq
    obtain ⟨w, hw, hsame⟩ := List.mem_map.mp (mem_of_last? (hlast e he))
    have hwpath : w.path = e.path := (Prod.mk.inj hsame).1
    rw [← hlast e he]
    refine last?_map_congr fun e' he' => ⟨fun hflat' => ?_, fun hpath => by simp [Entry.flat, hpath]⟩
    rw [← hwpath]
    exact agree e' he' w hw hflat' (by simp [Entry.flat, hwpath])

/-- A layer that writes a colour under a key with a dot. -/
def dottedKey : Layer :=
  ⟨"base", [("theme", .map [("colors",
    .map [("a", .map [("c", .text "#000000")]), ("a.b", .text "#111111")])])]⟩

/-- A main document that writes a colour under the same key. -/
def dottedAgain : Fields := [("theme", .map [("colors", .map [("a.b", .text "#222222")])])]

/-- A main document that writes a colour with the same flat path, as a map in a map. -/
def nestedAgain : Fields :=
  [("theme", .map [("colors", .map [("a", .map [("b", .text "#222222")])])])]

set_option maxRecDepth 10000 in
theorem output_dottedAgain :
    (({} : CompilerOptions).compile [dottedKey] dottedAgain).map Compilation.output =
      .ok [("colors", .map [("a.c", .text "#000000"), ("a.b", .text "#222222")])] := by
  with_unfolding_all rfl

set_option maxRecDepth 10000 in
theorem output_nestedAgain :
    (({} : CompilerOptions).compile [dottedKey] nestedAgain).map Compilation.output =
      .ok [("colors", .map [("a.c", .text "#000000"), ("a.b", .text "#111111")])] := by
  with_unfolding_all rfl

/-- Where the layers spell the flat path in one way, the last of them wins. -/
theorem same_spelling_wins :
    SectionNames.Distinct {} ∧
      (∀ layer ∈ allLayers [dottedKey] dottedAgain, (Document.map layer.fields).Keyed) ∧
      (∀ layer ∈ allLayers [dottedKey] dottedAgain,
        SectionNames.Colours {} "colors" layer.fields) ∧
      ∃ c fields, ({} : CompilerOptions).compile [dottedKey] dottedAgain = .ok c ∧
        get? ("colors" : Text) c.output = some (.map fields) ∧
        get? ("a.b" : Text) fields = some (.text "#222222") ∧
        last? ("a.b" : Text) ((SectionNames.writtenLeaves {} "colors"
          (allLayers [dottedKey] dottedAgain)).map fun e => (e.flat, e.value)) =
            some (.text "#222222") := by
  have distinct : SectionNames.Distinct {} := ⟨by decide, by decide, by decide⟩
  have hflat : ("colors" : Text) ∈ ({} : CompilerOptions).flatSections := by decide
  have keyed : ∀ layer ∈ allLayers [dottedKey] dottedAgain,
      (Document.map layer.fields).Keyed := by decide
  have colours : ∀ layer ∈ allLayers [dottedKey] dottedAgain,
      SectionNames.Colours {} "colors" layer.fields := by decide
  cases hc : ({} : CompilerOptions).compile [dottedKey] dottedAgain with
  | error f =>
    have hout := output_dottedAgain
    rw [hc] at hout
    cases hout
  | ok c =>
    have hleaves : SectionNames.themeLeaves {} "colors" c.composition.fields =
        [⟨[.key "a", .key "c"], .text "#000000", none⟩, ⟨[.key "a.b"], .text "#222222", none⟩] := by
      have hcompose := (CompilerOptions.compile_ok hc).1
      rw [SectionNames.themeLeaves]
      exact congrArg (fun part => (Option.map Document.entries part).getD [])
        (themePart_compose distinct hcompose "colors")
    obtain ⟨fields, hfields, hget, -, hlast⟩ := emitted_section distinct keyed hflat
      colours hc (by rw [hleaves]; exact List.cons_ne_nil _ _)
    have hvalue : get? ("a.b" : Text) fields = some (.text "#222222") := by
      rw [hget, show SectionNames.themeLeaves _ _ _ = _ from hleaves]
      rfl
    have agree := hlast "a.b" (.text "#222222") hvalue (by decide)
    exact ⟨distinct, keyed, colours, c, fields, rfl, hfields, hvalue, agree⟩

/-- **A later layer can lose to an earlier one.**  The base writes `a.b` as one key behind the map
under `a`; the main document writes it into that map.  The key of the base comes last in the
composed section, so the output holds the colour of the base. -/
theorem later_spelling_loses :
    ¬ ∀ (imports : List Layer) (main : Fields) (name : Text) (c : Compilation) (fields : Fields)
      (x : Text) (v : Document),
      (∀ layer ∈ allLayers imports main, (Document.map layer.fields).Keyed) →
      name ∈ ({} : CompilerOptions).flatSections →
      (∀ layer ∈ allLayers imports main, SectionNames.Colours {} name layer.fields) →
      (∀ layer ∈ allLayers imports main,
        ((SectionNames.themeLeaves {} name layer.fields).map Entry.flat).Nodup) →
      ({} : CompilerOptions).compile imports main = .ok c →
      get? name c.output = some (.map fields) → get? x fields = some v →
      last? x ((SectionNames.writtenLeaves {} name (allLayers imports main)).map fun e =>
        (e.flat, e.value)) = some v := by
  intro h
  have hout := output_nestedAgain
  cases hc : ({} : CompilerOptions).compile [dottedKey] nestedAgain with
  | error f =>
    rw [hc] at hout
    cases hout
  | ok c =>
    rw [hc] at hout
    have hcolors : get? ("colors" : Text) c.output =
        some (.map [("a.c", .text "#000000"), ("a.b", .text "#111111")]) := by
      rw [Except.ok.inj hout]
      rfl
    have hlast := h [dottedKey] nestedAgain "colors" c _ "a.b" (.text "#111111") (by decide)
      (by decide) (by decide) (by decide) hc hcolors rfl
    have hwritten : last? ("a.b" : Text) ((SectionNames.writtenLeaves {} "colors"
        (allLayers [dottedKey] nestedAgain)).map fun e => (e.flat, e.value)) =
          some (.text "#222222") := rfl
    rw [hwritten] at hlast
    have hsame : ("#222222" : Text) = "#111111" :=
      Scalar.text.inj (Document.scalar.inj (Option.some.inj hlast))
    exact absurd hsame (by decide)

end Colourway
