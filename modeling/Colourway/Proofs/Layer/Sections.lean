import Colourway.Proofs.Layer.Laid

/-!
# Composition, section by section

Layers meet only inside a section: what a composed section holds is a fold, over the layers, of
what each of them has to say about that section (`sections`, `get?_compose`).

* `get?_merged_lay` — one layer.
* `get?_merged_foldlM` — a run over layers.
* `compose_error_iff` — what stops a composition.
* `compose_fields` — the composed document: what the main document holds besides the sections, and
  then the sections in their order.
-/

namespace Colourway

open Assoc Document Text

/-- The names of the composed sections differ from one another. -/
structure SectionNames.Distinct (n : SectionNames) : Prop where
  palette_vars : n.palette ≠ n.vars
  palette_theme : n.palette ≠ n.theme
  vars_theme : n.vars ≠ n.theme

/-- The layers of a composition in order, the main document last. -/
def allLayers (imports : List Layer) (main : Fields) : List Layer :=
  imports ++ [⟨Layer.mainName, main⟩]

/-! ## What layers make of a section -/

/-- A composed section after a layer. -/
def SectionNames.after (n : SectionNames) (name : Text) (prior incoming : Option Document) :
    Option Document :=
  if name = n.theme then themeAfter n.carryMark prior incoming
  else sectionAfter n.carryMark prior incoming

/-- What stops a layer at a composed section. -/
def SectionNames.Stops (n : SectionNames) (name : Text) (prior incoming : Option Document) : Prop :=
  if name = n.theme then ThemeStops n.carryMark prior incoming
  else SectionStops n.carryMark prior incoming

/-- A composed section after layers in order, from nothing on. -/
def SectionNames.sections (n : SectionNames) (layers : List Layer) (name : Text) :
    Option Document :=
  layers.foldl (fun prior layer => n.after name prior (get? name layer.fields)) none

@[simp] theorem SectionNames.sections_nil (n : SectionNames) (name : Text) :
    n.sections [] name = none := rfl

@[simp] theorem SectionNames.sections_append (n : SectionNames) (layers : List Layer)
    (layer : Layer) (name : Text) :
    n.sections (layers ++ [layer]) name =
      n.after name (n.sections layers name) (get? name layer.fields) := by
  simp [sections]

/-- What the main document holds outside the composed sections. -/
def SectionNames.kept (n : SectionNames) (main : Fields) : Fields :=
  main.filter fun f => !n.all.contains f.1

/-- Fields with a section in its place, if there is one. -/
def placed (section? : Text → Option Document) (fields : Fields) (name : Text) : Fields :=
  match section? name with
  | some d => Assoc.put name d fields
  | none => fields

theorem foldl_placed_congr {section? other? : Text → Option Document} {names : List Text}
    (h : ∀ name ∈ names, section? name = other? name) (fields : Fields) :
    names.foldl (placed section?) fields = names.foldl (placed other?) fields := by
  induction names generalizing fields with
  | nil => rfl
  | cons name rest ih =>
    obtain ⟨hname, hrest⟩ := List.forall_mem_cons.mp h
    rw [List.foldl_cons, List.foldl_cons, ih hrest, placed, placed, hname]

/-! ## One layer and all layers -/

/-- A layer writes to the theme by itself, where the theme has a name of its own. -/
theorem get?_merged_lay_theme {n : SectionNames} (palette : n.theme ≠ n.palette)
    (vars : n.theme ≠ n.vars) {s s' : Stack} {layer : Layer} (h : s.lay n layer = .ok s') :
    get? n.theme s'.merged =
      themeAfter n.carryMark (get? n.theme s.merged) (get? n.theme layer.fields) := by
  obtain ⟨s₁, hpalette, s₂, hvars, htheme⟩ := Stack.lay_eq_ok_iff.mp h
  rw [Stack.get?_layTheme_self htheme, Stack.get?_laySection_of_ne vars hvars,
    Stack.get?_laySection_of_ne palette hpalette]

section Runs

variable {n : SectionNames} (distinct : n.Distinct)

include distinct

/-- **A layer writes to each section by itself.**  A composed section after a layer depends on
nothing but that section, in the stack and in the layer. -/
theorem get?_merged_lay {name : Text} (hm : name ∈ n.all) {s s' : Stack} {layer : Layer}
    (h : s.lay n layer = .ok s') :
    get? name s'.merged = n.after name (get? name s.merged) (get? name layer.fields) := by
  obtain ⟨hpv, hpt, hvt⟩ := distinct
  obtain ⟨s₁, hpalette, s₂, hvars, htheme⟩ := Stack.lay_eq_ok_iff.mp h
  have hcases : name = n.palette ∨ name = n.vars ∨ name = n.theme := by
    simpa [SectionNames.all] using hm
  unfold SectionNames.after
  rcases hcases with rfl | rfl | rfl
  · rw [Stack.get?_layTheme_of_ne hpt htheme, Stack.get?_laySection_of_ne hpv hvars,
      Stack.get?_laySection_self hpalette, if_neg hpt]
  · rw [Stack.get?_layTheme_of_ne hvt htheme, Stack.get?_laySection_self hvars,
      Stack.get?_laySection_of_ne (Ne.symm hpv) hpalette, if_neg hvt]
  · rw [if_pos rfl]
    exact get?_merged_lay_theme (Ne.symm hpt) (Ne.symm hvt) h

/-- A layer stops at one of the sections, and none of them depends on another one. -/
theorem stops_iff {s : Stack} {layer : Layer} :
    s.Stops n layer ↔
      ∃ name ∈ n.all, n.Stops name (get? name s.merged) (get? name layer.fields) := by
  obtain ⟨hpv, hpt, hvt⟩ := distinct
  have hpalette : n.Stops n.palette = SectionStops n.carryMark := by
    funext prior incoming
    rw [SectionNames.Stops, if_neg hpt]
  have hvars : n.Stops n.vars = SectionStops n.carryMark := by
    funext prior incoming
    rw [SectionNames.Stops, if_neg hvt]
  have htheme : n.Stops n.theme = ThemeStops n.carryMark := by
    funext prior incoming
    rw [SectionNames.Stops, if_pos rfl]
  simp only [SectionNames.all, List.exists_mem_cons_iff, List.not_mem_nil, false_and,
    exists_false, or_false, hpalette, hvars, htheme]
  constructor
  · rintro (h | ⟨s₁, h₁, h | ⟨s₂, h₂, h⟩⟩)
    · exact .inl h
    · rw [Stack.get?_laySection_of_ne (Ne.symm hpv) h₁] at h
      exact .inr (.inl h)
    · rw [Stack.get?_laySection_of_ne (Ne.symm hvt) h₂,
        Stack.get?_laySection_of_ne (Ne.symm hpt) h₁] at h
      exact .inr (.inr h)
  · intro h
    -- a section is reached unless an earlier one stopped
    cases h₁ : s.laySection n.carryMark n.palette layer with
    | error f => exact .inl (Stack.laySection_error_iff.mp h₁).2
    | ok s₁ =>
      rw [← Stack.get?_laySection_of_ne (Ne.symm hpv) h₁,
        ← Stack.get?_laySection_of_ne (Ne.symm hpt) h₁] at h
      cases h₂ : s₁.laySection n.carryMark n.vars layer with
      | error f => exact .inr ⟨s₁, h₁, .inl (Stack.laySection_error_iff.mp h₂).2⟩
      | ok s₂ =>
        rw [← Stack.get?_laySection_of_ne (Ne.symm hvt) h₂] at h
        rcases h with h | h | h
        · exact .inl h
        · exact .inr ⟨s₁, h₁, .inl h⟩
        · exact .inr ⟨s₁, h₁, .inr ⟨s₂, h₂, h⟩⟩

theorem get?_merged_foldlM {name : Text} (hm : name ∈ n.all) {layers : List Layer}
    {s s' : Stack} (h : layers.foldlM (Stack.lay n) s = .ok s') :
    get? name s'.merged =
      layers.foldl (fun prior layer => n.after name prior (get? name layer.fields))
        (get? name s.merged) := by
  induction layers generalizing s with
  | nil =>
    cases h
    rfl
  | cons layer rest ih =>
    obtain ⟨middle, hfirst, hrest⟩ := bind_eq_ok_iff.mp h
    rw [ih hrest, get?_merged_lay distinct hm hfirst, List.foldl_cons]

theorem get?_stack {name : Text} (hm : name ∈ n.all) {layers : List Layer} {s : Stack}
    (h : layers.foldlM (Stack.lay n) {} = .ok s) : get? name s.merged = n.sections layers name :=
  get?_merged_foldlM distinct hm h

end Runs

/-! ## Layers over sections that are the same -/

variable {n : SectionNames}

/-- The sections that a stack holds. -/
def Stack.sections (n : SectionNames) (s : Stack) : List (Option Document) :=
  n.all.map fun name => get? name s.merged

theorem Stack.sections_eq_iff {s t : Stack} :
    s.sections n = t.sections n ↔ ∀ name ∈ n.all, get? name s.merged = get? name t.merged :=
  List.map_inj_left

/-- Stacks with the same sections are laid over alike, whatever the layer is called. -/
theorem sections_lay_congr (distinct : n.Distinct) {s t : Stack}
    (same : s.sections n = t.sections n) {layer other : Layer}
    (fields : layer.fields = other.fields) :
    Stack.sections n <$> s.lay n layer = Stack.sections n <$> t.lay n other := by
  rw [Stack.sections_eq_iff] at same
  have hstops : s.Stops n layer ↔ t.Stops n other := by
    rw [stops_iff distinct, stops_iff distinct, fields]
    exact exists_congr fun name => and_congr_right fun hm => by rw [same name hm]
  cases hs : s.lay n layer with
  | error f =>
    obtain ⟨rfl, hstop⟩ := Stack.lay_error_iff.mp hs
    rw [Stack.lay_error_iff.mpr ⟨rfl, hstops.mp hstop⟩]
  | ok s' =>
    cases ht : t.lay n other with
    | error f =>
      obtain ⟨rfl, hstop⟩ := Stack.lay_error_iff.mp ht
      cases hs.symm.trans (Stack.lay_error_iff.mpr ⟨rfl, hstops.mpr hstop⟩)
    | ok t' =>
      refine congrArg Except.ok (Stack.sections_eq_iff.mpr fun name hm => ?_)
      rw [get?_merged_lay distinct hm hs, get?_merged_lay distinct hm ht, same name hm, fields]

theorem sections_foldlM_congr (distinct : n.Distinct) {s t : Stack}
    (same : s.sections n = t.sections n) (layers : List Layer) :
    Stack.sections n <$> layers.foldlM (Stack.lay n) s =
      Stack.sections n <$> layers.foldlM (Stack.lay n) t := by
  have hlay : ∀ (s t : Stack) (layer : Layer), s.sections n = t.sections n →
      Stack.sections n <$> s.lay n layer = Stack.sections n <$> t.lay n layer :=
    fun _ _ _ h => sections_lay_congr distinct h rfl
  exact foldlM_congr hlay layers same

/-- As a main document a layer does what it does among the imports. -/
theorem sections_allLayers (distinct : n.Distinct) (earlier : List Layer) (last : Layer) :
    Stack.sections n <$> (allLayers earlier last.fields).foldlM (Stack.lay n) {} =
      Stack.sections n <$> (earlier ++ [last]).foldlM (Stack.lay n) {} := by
  rw [allLayers, List.foldlM_append, List.foldlM_append]
  cases earlier.foldlM (Stack.lay n) {} with
  | error f => rfl
  | ok below =>
    change Stack.sections n <$> [_].foldlM (Stack.lay n) below =
      Stack.sections n <$> [_].foldlM (Stack.lay n) below
    rw [foldlM_singleton, foldlM_singleton]
    exact sections_lay_congr distinct rfl rfl

/-! ## The composed document -/

section Composed

variable {n : SectionNames} {imports : List Layer} {main : Fields} {c : Composition}

/-- A composed document is what the main document keeps with the sections of the stack. -/
theorem exists_stack (h : compose n imports main = .ok c) :
    ∃ s, (allLayers imports main).foldlM (Stack.lay n) {} = .ok s ∧ c = {
      fields := n.all.foldl (placed fun name => get? name s.merged) (n.kept main)
      origins := s.origins
      layers := (allLayers imports main).map Layer.name } := by
  obtain ⟨s, hs, hc⟩ := bind_eq_ok_iff.mp h
  exact ⟨s, hs, (Except.ok.inj hc).symm⟩

/-- **What composing stops over**: a layer with a carry mark that stands for an integer of too many
digits, which the layers under it came to. -/
theorem compose_error_iff {f : Fault} :
    compose n imports main = .error f ↔ f = .longInteger ∧
      ∃ earlier layer later s, allLayers imports main = earlier ++ layer :: later ∧
        earlier.foldlM (Stack.lay n) {} = .ok s ∧ s.Stops n layer := by
  have hstack : compose n imports main = .error f ↔
      (allLayers imports main).foldlM (Stack.lay n) {} = .error f := by
    rw [compose, bind_eq_error_iff]
    simp [pure, Except.pure, allLayers]
  rw [hstack, foldlM_eq_error_iff]
  constructor
  · rintro ⟨earlier, layer, later, s, hsplit, hearlier, hlayer⟩
    obtain ⟨hf, hstops⟩ := Stack.lay_error_iff.mp hlayer
    exact ⟨hf, earlier, layer, later, s, hsplit, hearlier, hstops⟩
  · rintro ⟨hf, earlier, layer, later, s, hsplit, hearlier, hstops⟩
    exact ⟨earlier, layer, later, s, hsplit, hearlier, Stack.lay_error_iff.mpr ⟨hf, hstops⟩⟩

/-- The composed document: what the main document keeps, and then the sections. -/
theorem compose_fields (distinct : n.Distinct) (h : compose n imports main = .ok c) :
    c.fields = n.all.foldl (placed (n.sections (allLayers imports main))) (n.kept main) := by
  obtain ⟨s, hs, rfl⟩ := exists_stack h
  exact foldl_placed_congr (fun _ hm => get?_stack distinct hm hs) (n.kept main)

end Composed

theorem get?_placed (section? : Text → Option Document) (fields : Fields) (name other : Text) :
    get? other (placed section? fields name) =
      if other = name then (section? name).or (get? name fields) else get? other fields := by
  unfold placed
  by_cases h : other = name
  · subst h
    cases section? other <;> simp
  · cases section? name <;> simp [h, get?_put_of_ne h]

theorem get?_foldl_placed (section? : Text → Option Document) (names : List Text)
    (fields : Fields) (name : Text) :
    get? name (names.foldl (placed section?) fields) =
      if name ∈ names then (section? name).or (get? name fields) else get? name fields := by
  induction names generalizing fields with
  | nil => simp
  | cons first rest ih =>
    rw [List.foldl_cons, ih, get?_placed]
    by_cases h : name = first
    · subst h
      cases section? name <;> simp
    · simp [h]

theorem SectionNames.get?_kept {n : SectionNames} {name : Text} (hm : name ∈ n.all)
    (main : Fields) : get? name (n.kept main) = none := by
  refine get?_eq_none_iff.mpr fun hk => ?_
  obtain ⟨f, hf, rfl⟩ := List.mem_map.mp hk
  have := (List.mem_filter.mp hf).2
  simp [hm] at this

section Composed

variable {n : SectionNames} {imports : List Layer} {main : Fields} {c : Composition}

/-- The composed document holds in its sections what the stack of its layers holds. -/
theorem get?_compose_eq_merged {name : Text} (hm : name ∈ n.all)
    (h : compose n imports main = .ok c) :
    ∃ s, (allLayers imports main).foldlM (Stack.lay n) {} = .ok s ∧
      get? name c.fields = get? name s.merged := by
  obtain ⟨s, hs, rfl⟩ := exists_stack h
  refine ⟨s, hs, ?_⟩
  rw [get?_foldl_placed, if_pos hm, SectionNames.get?_kept hm, Option.or_none]

/-- The first layers of a composition compose to a document of their own. -/
theorem exists_stage (distinct : n.Distinct) (h : compose n imports main = .ok c)
    {earlier later : List Layer} {last : Layer}
    (split : allLayers imports main = earlier ++ last :: later) :
    ∃ stage, compose n earlier last.fields = .ok stage := by
  obtain ⟨s, hs, -⟩ := exists_stack h
  rw [split, List.append_cons] at hs
  obtain ⟨below, hbelow, -⟩ := foldlM_append_eq_ok_iff.mp hs
  have hstage := sections_allLayers distinct earlier last
  rw [hbelow] at hstage
  obtain ⟨stack, hstack, -⟩ := map_eq_ok_iff.mp hstage
  exact ⟨_, bind_eq_ok_iff.mpr ⟨stack, hstack, rfl⟩⟩

/-- A composed section holds what the layers make of it one after the other. -/
theorem get?_compose (distinct : n.Distinct) {name : Text} (hm : name ∈ n.all)
    (h : compose n imports main = .ok c) :
    get? name c.fields = n.sections (allLayers imports main) name := by
  obtain ⟨s, hs, hmerged⟩ := get?_compose_eq_merged hm h
  rw [hmerged, get?_stack distinct hm hs]

/-- The composed theme is what the layers make of it, where it has a name of its own. -/
theorem get?_compose_theme (palette : n.theme ≠ n.palette) (vars : n.theme ≠ n.vars)
    (h : compose n imports main = .ok c) :
    get? n.theme c.fields = n.sections (allLayers imports main) n.theme := by
  have hm : n.theme ∈ n.all := by simp [SectionNames.all]
  obtain ⟨s, hs, hmerged⟩ := get?_compose_eq_merged hm h
  rw [hmerged]
  clear hmerged h
  generalize allLayers imports main = layers at hs ⊢
  induction layers using List.reverseRecOn generalizing s with
  | nil =>
    cases hs
    rfl
  | append_singleton layers layer ih =>
    obtain ⟨middle, hlayers, hlayer⟩ := foldlM_append_eq_ok_iff.mp hs
    rw [foldlM_singleton] at hlayer
    rw [SectionNames.sections_append, ← ih middle hlayers, SectionNames.after, if_pos rfl]
    exact get?_merged_lay_theme palette vars hlayer

end Composed

/-! ## The sections of the theme -/

/-- A layer that binds each section of its theme once lays each over what it held before. -/
theorem get?_foldl_layField (mark : Text) {fields : Fields} (once : (keys fields).Nodup)
    (target : Fields) (key : Text) :
    get? key (fields.foldl (layField mark) target) =
      match get? key fields with
      | none => get? key target
      | some d => some (laidThemeValue mark (get? key target) d) := by
  induction fields generalizing target with
  | nil => simp [get?]
  | cons f rest ih =>
    obtain ⟨k, d⟩ := f
    obtain ⟨hk, hrest⟩ : k ∉ keys rest ∧ (keys rest).Nodup := by simpa [keys] using once
    rw [List.foldl_cons, ih hrest]
    by_cases he : k = key
    · subst he
      simp [get?, get?_eq_none_iff.mpr hk, layField]
    · simp [get?, he, layField, get?_put_of_ne (Ne.symm he)]

/-- What a document holds in its theme under the name of a section. -/
def SectionNames.themePart (n : SectionNames) (name : Text) (fields : Fields) : Option Document :=
  get? name (fieldsOf (get? n.theme fields))

/-- What layers make of a section of the theme. -/
def SectionNames.themeSection (n : SectionNames) (layers : List Layer) (name : Text) :
    Option Document :=
  get? name (fieldsOf (n.sections layers n.theme))

/-- **A section of the theme after a layer**: kept if the layer does not bind it. -/
theorem themeSection_append {n : SectionNames} {layers : List Layer} {layer : Layer}
    (keyed : (Document.map layer.fields).Keyed) (name : Text) :
    n.themeSection (layers ++ [layer]) name =
      match n.themePart name layer.fields with
      | none => n.themeSection layers name
      | some d => some (laidThemeValue n.carryMark (n.themeSection layers name) d) := by
  have hfields : (Document.map (fieldsOf (get? n.theme layer.fields))).Keyed :=
    Keyed.fieldsOf fun _ hd => keyed.field hd
  rw [SectionNames.themeSection, SectionNames.sections_append, SectionNames.after, if_pos rfl]
  by_cases hne : fieldsOf (get? n.theme layer.fields) = []
  · simp [themeAfter_of_nil hne, SectionNames.themePart, hne, get?, SectionNames.themeSection]
  · rw [themeAfter_of_ne_nil hne, fieldsOf_map, get?_foldl_layField n.carryMark hfields.once]
    rfl

end Colourway
