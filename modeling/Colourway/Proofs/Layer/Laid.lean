import Colourway.Proofs.Document.Merge
import Mathlib.Data.List.Induction

/-!
# One layer

A layer writes to the palette, to the variables and to the theme.  What it makes of the palette or
the variables is `sectionAfter`, what it makes of the theme is `themeAfter`; each looks at what the
section held before and at what the layer has there.  The one thing that stops a layer is a carry
mark that stands for an integer of too many digits (`Stack.lay_error_iff`).
-/

namespace Colourway

open Assoc Document Text

/-! ## What a layer makes of a section -/

/-- The palette or the variables after a layer: kept if the layer has nothing there, merged if it
has a map, else replaced. -/
def sectionAfter (mark : Text) (prior : Option Document) : Option Document → Option Document
  | none => prior
  | some d =>
    if d.isVoid then prior
    else
      match d with
      | .map fields => some (.merge (fieldsOf prior) (carriedFields mark (fieldsOf prior) fields))
      | d => some d

/-- The value of one section of the theme after a layer wrote to it. -/
def laidThemeValue (mark : Text) (prior : Option Document) : Document → Document
  | .list items =>
    match prior with
    | some (.list earlier) => .list (earlier ++ items)
    | _ => .list items
  | .map fields => .merge (fieldsOf prior) (carriedFields mark (fieldsOf prior) fields)
  | d => carriedLeaf mark prior d

/-- The sections of the theme after one of them was laid. -/
def layField (mark : Text) (target : Fields) (field : Text × Document) : Fields :=
  Assoc.put field.1 (laidThemeValue mark (get? field.1 target) field.2) target

/-- The theme after a layer. -/
def themeAfter (mark : Text) (prior : Option Document) : Option Document → Option Document
  | some (.map (f :: fields)) =>
    some (.map ((f :: fields).foldl (layField mark) (fieldsOf prior)))
  | _ => prior

theorem themeAfter_of_nil {mark : Text} {prior incoming : Option Document}
    (h : fieldsOf incoming = []) : themeAfter mark prior incoming = prior := by
  unfold themeAfter
  split
  · simp at h
  · rfl

theorem themeAfter_of_ne_nil {mark : Text} {prior incoming : Option Document}
    (h : fieldsOf incoming ≠ []) :
    themeAfter mark prior incoming =
      some (.map ((fieldsOf incoming).foldl (layField mark) (fieldsOf prior))) := by
  obtain ⟨f, fields, hf⟩ := List.exists_cons_of_ne_nil h
  rw [eq_map_of_fieldsOf h, hf]
  rfl

/-- What stops a layer at the palette or the variables. -/
def SectionStops (mark : Text) (prior incoming : Option Document) : Prop :=
  ∃ fields, incoming = some (.map fields) ∧ CarryStops mark prior (.map fields)

/-- What stops a layer at the theme: it is laid section by section. -/
def ThemeStops (mark : Text) (prior incoming : Option Document) : Prop :=
  ∃ before field after, fieldsOf incoming = before ++ field :: after ∧
    CarryStops mark (get? field.1 (before.foldl (layField mark) (fieldsOf prior))) field.2

theorem eq_laidThemeValue {mark : Text} {prior : Option Document} {d value : Document}
    (h : layThemeValue mark prior d = .ok value) : value = laidThemeValue mark prior d := by
  cases d with
  | scalar v =>
    rw [laidThemeValue]
    · exact eq_carriedLeaf h
    all_goals simp
  | list items =>
    cases prior with
    | none => exact (Except.ok.inj h).symm
    | some earlier => cases earlier <;> exact (Except.ok.inj h).symm
  | map fields =>
    obtain ⟨carried, hfields, hd⟩ := bind_eq_ok_iff.mp h
    rw [laidThemeValue, fieldsOf, ← eq_carriedFields hfields]
    exact (Except.ok.inj hd).symm

theorem layThemeValue_error_iff {mark : Text} {prior : Option Document} {d : Document}
    {f : Fault} :
    layThemeValue mark prior d = .error f ↔ f = .longInteger ∧ CarryStops mark prior d := by
  cases d with
  | scalar v => exact carryLeaf_error_iff rfl
  | list items =>
    constructor
    · intro h
      simp only [layThemeValue] at h
      split at h <;> cases h
    · rintro ⟨-, ⟨⟩⟩
  | map fields =>
    rw [carryStops_map_iff, ← carryFields_error_iff]
    constructor
    · intro h
      rcases bind_eq_error_iff.mp h with hfields | ⟨_, _, hd⟩
      · exact hfields
      · cases hd
    · exact fun h => bind_eq_error_iff.mpr (.inl h)

namespace Stack

section Laid

variable {mark : Text} {s s' : Stack} {layer : Layer}

/-- What laying the palette or the variables of a layer comes to: the layer is silent, its fields
are carried and merged, or its value takes the place of what was there. -/
theorem laySection_cases {name : Text} (h : s.laySection mark name layer = .ok s') :
    (s' = s ∧ ∀ d, get? name layer.fields = some d → d.isVoid = true) ∨
    (∃ fields, get? name layer.fields = some (.map fields) ∧ (Document.map fields).isVoid = false ∧
      s' = {
        merged := put name
          (.merge (fieldsOf (get? name s.merged))
            (carriedFields mark (fieldsOf (get? name s.merged)) fields)) s.merged
        origins := recordOrigins s.origins [.key name]
          (.map (carriedFields mark (fieldsOf (get? name s.merged)) fields)) layer.name }) ∨
    (∃ d, get? name layer.fields = some d ∧ d.isVoid = false ∧ d.fields? = none ∧
      s' = {
        merged := put name d s.merged
        origins := recordOrigins s.origins [.key name] d layer.name }) := by
  unfold laySection at h
  split at h
  · next hnone => exact .inl ⟨(Except.ok.inj h).symm, by simp [hnone]⟩
  · next incoming hsome =>
    split at h
    · next hvoid =>
      refine .inl ⟨(Except.ok.inj h).symm, fun d hd => ?_⟩
      rwa [← Option.some.inj (hsome.symm.trans hd)]
    · next hvoid =>
      have hv : incoming.isVoid = false := by simpa using hvoid
      split at h
      · next fields =>
        obtain ⟨carried, hfields, hs⟩ := bind_eq_ok_iff.mp h
        refine .inr (.inl ⟨fields, hsome, hv, ?_⟩)
        rw [fieldsOf, ← eq_carriedFields hfields]
        exact (Except.ok.inj hs).symm
      · next hmap =>
        have hnot : incoming.fields? = none := by
          refine incoming.map_or_not.resolve_left ?_
          rintro ⟨fields, hf⟩
          exact hmap fields hf
        exact .inr (.inr ⟨incoming, hsome, hv, hnot, (Except.ok.inj h).symm⟩)

theorem get?_laySection_self {name : Text} (h : s.laySection mark name layer = .ok s') :
    get? name s'.merged = sectionAfter mark (get? name s.merged) (get? name layer.fields) := by
  rcases laySection_cases h with ⟨rfl, hvoid⟩ | ⟨fields, hget, hv, rfl⟩ | ⟨d, hget, hv, hd, rfl⟩
  · cases hget : get? name layer.fields with
    | none => rfl
    | some d => simp [sectionAfter, hvoid d hget]
  · simp [sectionAfter, hget, hv]
  · cases d with
    | map fields => cases hd
    | scalar v => simp [sectionAfter, hget, hv]
    | list items => simp [sectionAfter, hget, hv]

theorem get?_laySection_of_ne {name other : Text} (hne : other ≠ name)
    (h : s.laySection mark name layer = .ok s') : get? other s'.merged = get? other s.merged := by
  rcases laySection_cases h with ⟨rfl, -⟩ | ⟨_, -, -, rfl⟩ | ⟨_, -, -, -, rfl⟩
  · rfl
  · exact get?_put_of_ne hne _ _
  · exact get?_put_of_ne hne _ _

theorem laySection_error_iff {name : Text} {f : Fault} :
    s.laySection mark name layer = .error f ↔
      f = .longInteger ∧ SectionStops mark (get? name s.merged) (get? name layer.fields) := by
  unfold laySection SectionStops
  split
  · next hnone => simp [hnone]
  · next incoming hsome =>
    rw [hsome]
    rcases incoming.map_or_not with ⟨fields, rfl⟩ | hd
    · simp only [Option.some.injEq, map.injEq, exists_eq_left', carryStops_map_iff,
        ← carryFields_error_iff]
      split
      · next hvoid =>
        obtain rfl : fields = [] := by simpa [isVoid] using hvoid
        simp [carryFields]
      · rw [bind_eq_error_iff]
        simp [pure, Except.pure, fieldsOf]
    · have hno : ¬ ∃ fields, some incoming = some (Document.map fields) ∧
          CarryStops mark (get? name s.merged) (.map fields) := by
        rintro ⟨fields, hf, -⟩
        obtain rfl := Option.some.inj hf
        cases hd
      simp only [hno, and_false, iff_false]
      split
      · simp
      · split
        · cases hd
        · simp

theorem layThemeSection_eq {theme name : Text} {field : Text × Document}
    (h : s.layThemeSection mark theme name field = .ok s') :
    s' = {
      merged := put theme (.map (layField mark (fieldsOf (get? theme s.merged)) field)) s.merged
      origins :=
        match field.2 with
        | .list items => recordItems s.origins [.key theme, .key field.1]
            (itemCount (get? field.1 (fieldsOf (get? theme s.merged)))) name items
        | d => recordOrigins s.origins [.key theme, .key field.1] d name } := by
  obtain ⟨value, hvalue, hs⟩ := bind_eq_ok_iff.mp h
  rw [layField, fieldsOf, ← eq_laidThemeValue hvalue]
  exact (Except.ok.inj hs).symm

theorem layThemeSection_error_iff {theme name : Text} {field : Text × Document} {f : Fault} :
    s.layThemeSection mark theme name field = .error f ↔ f = .longInteger ∧
      CarryStops mark (get? field.1 (fieldsOf (get? theme s.merged))) field.2 := by
  rw [← layThemeValue_error_iff, layThemeSection, bind_eq_error_iff]
  simp [pure, Except.pure, fieldsOf]

theorem get?_layThemeSections_self {theme name : Text} {fields : Fields}
    (h : fields.foldlM (layThemeSection mark theme name) s = .ok s') :
    fieldsOf (get? theme s'.merged) =
        fields.foldl (layField mark) (fieldsOf (get? theme s.merged)) ∧
      (fields ≠ [] → get? theme s'.merged = some (.map (fieldsOf (get? theme s'.merged)))) := by
  induction fields using List.reverseRecOn generalizing s' with
  | nil =>
    cases h
    exact ⟨rfl, fun hne => absurd rfl hne⟩
  | append_singleton fields field ih =>
    obtain ⟨middle, hmiddle, hlast⟩ := foldlM_append_eq_ok_iff.mp h
    rw [foldlM_singleton] at hlast
    rw [layThemeSection_eq hlast, get?_put_self, fieldsOf_map, (ih hmiddle).1, List.foldl_append]
    exact ⟨rfl, fun _ => rfl⟩

theorem get?_layThemeSections_of_ne {theme other : Text} (hne : other ≠ theme) {name : Text}
    {fields : Fields} (h : fields.foldlM (layThemeSection mark theme name) s = .ok s') :
    get? other s'.merged = get? other s.merged := by
  induction fields generalizing s with
  | nil =>
    cases h
    rfl
  | cons field rest ih =>
    obtain ⟨middle, hfirst, hrest⟩ := bind_eq_ok_iff.mp h
    rw [ih hrest, layThemeSection_eq hfirst, get?_put_of_ne hne]

/-- The theme is laid section by section; a theme without fields lays nothing. -/
theorem layTheme_eq (theme : Text) :
    s.layTheme mark theme layer =
      (fieldsOf (get? theme layer.fields)).foldlM (layThemeSection mark theme layer.name) s := by
  unfold layTheme
  split
  · next hget => rw [hget, fieldsOf_map]
  · next hno =>
    have hnil : fieldsOf (get? theme layer.fields) = [] := by
      by_contra hne
      obtain ⟨f, fields, hf⟩ := List.exists_cons_of_ne_nil hne
      exact hno f fields (by rw [eq_map_of_fieldsOf hne, hf])
    rw [hnil]
    rfl

theorem get?_layTheme_self {theme : Text} (h : s.layTheme mark theme layer = .ok s') :
    get? theme s'.merged = themeAfter mark (get? theme s.merged) (get? theme layer.fields) := by
  rw [layTheme_eq] at h
  by_cases hne : fieldsOf (get? theme layer.fields) = []
  · rw [hne] at h
    rw [themeAfter_of_nil hne, ← Except.ok.inj h]
  · obtain ⟨hfields, hmap⟩ := get?_layThemeSections_self h
    rw [themeAfter_of_ne_nil hne, hmap hne, hfields]

theorem get?_layTheme_of_ne {theme other : Text} (hne : other ≠ theme)
    (h : s.layTheme mark theme layer = .ok s') : get? other s'.merged = get? other s.merged := by
  rw [layTheme_eq] at h
  exact get?_layThemeSections_of_ne hne h

theorem layThemeSections_error_iff {theme name : Text} {fields : Fields} {f : Fault} :
    fields.foldlM (layThemeSection mark theme name) s = .error f ↔ f = .longInteger ∧
      ∃ before field after, fields = before ++ field :: after ∧
        CarryStops mark
          (get? field.1 (before.foldl (layField mark) (fieldsOf (get? theme s.merged))))
          field.2 := by
  have stopped : ∀ {f : Fault}, fields.foldlM (layThemeSection mark theme name) s = .error f →
      f = .longInteger ∧ ∃ before field after, fields = before ++ field :: after ∧
        CarryStops mark
          (get? field.1 (before.foldl (layField mark) (fieldsOf (get? theme s.merged))))
          field.2 := by
    intro f h
    obtain ⟨before, field, after, middle, hsplit, hbefore, hfield⟩ :=
      (foldlM_eq_error_iff fields).mp h
    obtain ⟨hf, hstops⟩ := layThemeSection_error_iff.mp hfield
    rw [(get?_layThemeSections_self hbefore).1] at hstops
    exact ⟨hf, before, field, after, hsplit, hstops⟩
  refine ⟨stopped, ?_⟩
  rintro ⟨rfl, before, field, after, rfl, hstops⟩
  -- if the section is not reached, an earlier one stopped over an integer of this kind
  cases hrun : (before ++ field :: after).foldlM (layThemeSection mark theme name) s with
  | error e => rw [(stopped hrun).1]
  | ok s' =>
    obtain ⟨middle, hbefore, hrest⟩ := foldlM_append_eq_ok_iff.mp hrun
    obtain ⟨later, hfield, -⟩ := bind_eq_ok_iff.mp hrest
    rw [← (get?_layThemeSections_self hbefore).1] at hstops
    cases hfield.symm.trans (layThemeSection_error_iff.mpr ⟨rfl, hstops⟩)

theorem layTheme_error_iff {theme : Text} {f : Fault} :
    s.layTheme mark theme layer = .error f ↔
      f = .longInteger ∧ ThemeStops mark (get? theme s.merged) (get? theme layer.fields) := by
  rw [layTheme_eq]
  exact layThemeSections_error_iff

end Laid

/-! ## One layer -/

section Lay

variable {n : SectionNames} {s s' : Stack} {layer : Layer}

theorem lay_eq_ok_iff : s.lay n layer = .ok s' ↔
    ∃ s₁, s.laySection n.carryMark n.palette layer = .ok s₁ ∧
      ∃ s₂, s₁.laySection n.carryMark n.vars layer = .ok s₂ ∧
        s₂.layTheme n.carryMark n.theme layer = .ok s' := by
  rw [lay, bind_eq_ok_iff]
  simp only [bind_eq_ok_iff]

/-- What stops a layer at the palette, at the variables or at the theme, each as the sections
before it left it. -/
def Stops (n : SectionNames) (s : Stack) (layer : Layer) : Prop :=
  SectionStops n.carryMark (get? n.palette s.merged) (get? n.palette layer.fields) ∨
  ∃ s₁, s.laySection n.carryMark n.palette layer = .ok s₁ ∧
    (SectionStops n.carryMark (get? n.vars s₁.merged) (get? n.vars layer.fields) ∨
    ∃ s₂, s₁.laySection n.carryMark n.vars layer = .ok s₂ ∧
      ThemeStops n.carryMark (get? n.theme s₂.merged) (get? n.theme layer.fields))

/-- **A layer stops over an integer of too many digits, and over nothing else.** -/
theorem lay_error_iff {f : Fault} :
    s.lay n layer = .error f ↔ f = .longInteger ∧ s.Stops n layer := by
  unfold lay Stops
  by_cases hf : f = .longInteger
  · simp [bind_eq_error_iff, laySection_error_iff, layTheme_error_iff, hf]
  · simp [bind_eq_error_iff, laySection_error_iff, layTheme_error_iff, hf]

end Lay

end Stack

end Colourway
