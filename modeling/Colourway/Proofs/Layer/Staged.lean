import Colourway.Proofs.Layer.Sections
import Colourway.Theme.Compile

/-!
# Composing in stages

The document that some layers compose to can stand for these layers: laid as one layer, with others
over it, it gives what the layers themselves give, be it that composing stops
(`composed_in_stages`).  A second composition of a composed document changes nothing, so neither
does a second compilation.

What makes this work is an invariant of the sections, `SectionNames.Settled`: whatever layers made
of a section, laying the section over nothing gives it back (`SectionNames.Settled.replay`).  Carry
marks that are left in it find nothing to stand for, its keys are bound once, and it is not one of
the values that a layer is silent with.  From there on both compositions go alike, since a layer
looks at nothing but the sections (`sections_lay_congr`).
-/

namespace Colourway

open Assoc Document Text

/-! ## Settled sections -/

/-- A document that binds each key once, if it is a map. -/
def Document.OnceOnTop (d : Document) : Prop := ∀ fields, d = .map fields → (keys fields).Nodup

/-- A palette or variables that layers can have made. -/
def SettledSection (section? : Option Document) : Prop :=
  ∀ d, section? = some d → d.isVoid = false ∧ d.OnceOnTop

/-- Sections of a theme that layers can have made. -/
structure SettledFields (fields : Fields) : Prop where
  once : (keys fields).Nodup
  each : ∀ f ∈ fields, f.2.OnceOnTop

/-- A theme that layers can have made. -/
def SettledTheme (theme? : Option Document) : Prop :=
  ∀ d, theme? = some d → ∃ f fields, d = .map (f :: fields) ∧ SettledFields (f :: fields)

/-- A composed section that layers can have made. -/
def SectionNames.Settled (n : SectionNames) (name : Text) (section? : Option Document) : Prop :=
  if name = n.theme then SettledTheme section? else SettledSection section?

theorem nodup_fieldsOf {prior : Option Document} (h : ∀ d, prior = some d → d.OnceOnTop) :
    (keys (fieldsOf prior)).Nodup := by
  by_cases hp : fieldsOf prior = []
  · simp [hp, keys]
  · exact h _ (eq_map_of_fieldsOf hp) _ rfl

theorem onceOnTop_of_not_map {d : Document} (h : d.fields? = none) : d.OnceOnTop := by
  rintro fields rfl
  simp [fields?] at h

/-! ## Layers keep sections settled -/

section Kept

variable {mark : Text}

theorem settled_sectionAfter {prior : Option Document} (h : SettledSection prior)
    (incoming : Option Document) : SettledSection (sectionAfter mark prior incoming) := by
  unfold sectionAfter
  cases incoming with
  | none => exact h
  | some d =>
    by_cases hv : d.isVoid = true
    · simpa [hv] using h
    · have hv' : d.isVoid = false := by simpa using hv
      rcases d.map_or_not with ⟨fields, rfl⟩ | hd
      · have hbase : (keys (fieldsOf prior)).Nodup := nodup_fieldsOf fun d hd => (h d hd).2
        have hfields : carriedFields mark (fieldsOf prior) fields ≠ [] := by
          cases fields with
          | nil => simp [isVoid] at hv
          | cons f rest => simp [carriedFields]
        simp only [hv']
        rintro _ ⟨⟩
        constructor
        · simpa [merge, isVoid] using mergeFields_ne_nil hfields _
        · rintro _ ⟨⟩
          exact nodup_mergeFields hbase _
      · have same : SettledSection (some d) := by
          rintro _ ⟨⟩
          exact ⟨hv', onceOnTop_of_not_map hd⟩
        cases d with
        | map fields => simp [fields?] at hd
        | scalar v => simpa [hv'] using same
        | list items => simpa [hv'] using same

theorem onceOnTop_laidThemeValue {prior : Option Document}
    (h : ∀ d, prior = some d → d.OnceOnTop) (d : Document) :
    (laidThemeValue mark prior d).OnceOnTop := by
  cases d with
  | map fields =>
    rintro _ ⟨⟩
    exact nodup_mergeFields (nodup_fieldsOf h) _
  | list items =>
    have hlist : (laidThemeValue mark prior (.list items)).fields? = none := by
      simp only [laidThemeValue]
      split <;> rfl
    exact onceOnTop_of_not_map hlist
  | scalar v => exact onceOnTop_of_not_map (fields?_carriedLeaf mark rfl prior)

theorem settled_layField {target : Fields} (h : SettledFields target) (field : Text × Document) :
    SettledFields (layField mark target field) := by
  refine ⟨nodup_keys_put h.once, fun f hf => ?_⟩
  rcases mem_of_mem_put hf with rfl | hf
  · exact onceOnTop_laidThemeValue (fun d hd => h.each _ (pair_mem_of_get? hd)) field.2
  · exact h.each f hf

theorem settled_foldl_layField (mark : Text) {target : Fields} (h : SettledFields target)
    (fields : Fields) : SettledFields (fields.foldl (layField mark) target) := by
  induction fields generalizing target with
  | nil => exact h
  | cons f rest ih => exact ih (settled_layField h f)

theorem foldl_layField_ne_nil (mark : Text) (target : Fields) (f : Text × Document)
    (fields : Fields) : (f :: fields).foldl (layField mark) target ≠ [] := by
  induction fields generalizing target f with
  | nil => simpa [layField] using put_ne_nil f.1 _ target
  | cons next rest ih => exact ih (layField mark target f) next

theorem settled_themeAfter {prior : Option Document} (h : SettledTheme prior)
    (incoming : Option Document) : SettledTheme (themeAfter mark prior incoming) := by
  have hbase : SettledFields (fieldsOf prior) := by
    cases prior with
    | none => exact ⟨by simp [keys], by simp⟩
    | some d =>
      obtain ⟨f, fields, rfl, hs⟩ := h d rfl
      exact hs
  by_cases hne : fieldsOf incoming = []
  · rwa [themeAfter_of_nil hne]
  · obtain ⟨f, fields, hf⟩ := List.exists_cons_of_ne_nil hne
    have hs := settled_foldl_layField mark hbase (fieldsOf incoming)
    obtain ⟨g, rest, hg⟩ := List.exists_cons_of_ne_nil
      (foldl_layField_ne_nil mark (fieldsOf prior) f fields)
    rw [themeAfter_of_ne_nil hne]
    rw [hf, hg] at hs ⊢
    rintro _ ⟨⟩
    exact ⟨g, rest, rfl, hs⟩

end Kept

/-! ## Laying a settled section over nothing -/

section Replay

variable {mark : Text}

theorem replay_section {section? : Option Document} (h : SettledSection section?) :
    sectionAfter mark none section? = section? := by
  cases section? with
  | none => rfl
  | some d =>
    obtain ⟨hv, once⟩ := h d rfl
    cases d with
    | scalar v => simp [sectionAfter, hv]
    | list items => simp [sectionAfter, hv]
    | map fields => simp [sectionAfter, hv, merge, mergeFields_nil (once fields rfl)]

theorem replay_themeValue {d : Document} (once : d.OnceOnTop) : laidThemeValue mark none d = d := by
  cases d with
  | scalar v => simp [laidThemeValue]
  | list items => simp [laidThemeValue]
  | map fields => simp [laidThemeValue, merge, mergeFields_nil (once fields rfl)]

theorem replay_fields {base later : Fields} (once : (keys (base ++ later)).Nodup)
    (each : ∀ f ∈ later, f.2.OnceOnTop) :
    later.foldl (layField mark) base = base ++ later := by
  induction later generalizing base with
  | nil => simp
  | cons f rest ih =>
    obtain ⟨k, d⟩ := f
    obtain ⟨hd, hrest⟩ := List.forall_mem_cons.mp each
    have hk : k ∉ keys base := not_mem_keys_of_nodup once
    have hlay : layField mark base (k, d) = base ++ [(k, d)] := by
      rw [layField, get?_eq_none_iff.mpr hk, replay_themeValue hd, put_of_not_mem hk]
    rw [List.foldl_cons, hlay, ih (by simpa using once) hrest]
    simp

theorem replay_theme {theme? : Option Document} (h : SettledTheme theme?) :
    themeAfter mark none theme? = theme? := by
  cases theme? with
  | none => rfl
  | some d =>
    obtain ⟨f, fields, rfl, hs⟩ := h d rfl
    have hr : (f :: fields).foldl (layField mark) [] = [] ++ f :: fields :=
      replay_fields hs.once hs.each
    simpa [themeAfter] using hr

end Replay

namespace SectionNames

variable {n : SectionNames}

theorem settled_none (name : Text) : n.Settled name none := by
  unfold Settled SettledTheme SettledSection
  split <;> simp

theorem Settled.after {name : Text} {prior : Option Document} (h : n.Settled name prior)
    (incoming : Option Document) : n.Settled name (n.after name prior incoming) := by
  unfold Settled SectionNames.after at *
  by_cases ht : name = n.theme
  · simp only [ht, if_true] at h ⊢
    exact settled_themeAfter h incoming
  · simp only [ht, if_false] at h ⊢
    exact settled_sectionAfter h incoming

/-- Whatever layers made of a section is settled. -/
theorem settled_sections (layers : List Layer) (name : Text) :
    n.Settled name (n.sections layers name) := by
  induction layers using List.reverseRecOn with
  | nil => exact settled_none name
  | append_singleton layers layer ih =>
    rw [sections_append]
    exact ih.after _

/-- A settled section laid over nothing is itself. -/
theorem Settled.replay {name : Text} {section? : Option Document} (h : n.Settled name section?) :
    n.after name none section? = section? := by
  unfold Settled at h
  unfold SectionNames.after
  by_cases ht : name = n.theme
  · simp only [ht, if_true] at h ⊢
    exact replay_theme h
  · simp only [ht, if_false] at h ⊢
    exact replay_section h

end SectionNames

/-! ## Composed documents as layers -/

variable {n : SectionNames}

/-- A settled section laid over nothing stops nothing. -/
theorem SectionNames.Settled.goes {name : Text} {section? : Option Document}
    (h : n.Settled name section?) : ¬ n.Stops name none section? := by
  unfold Settled at h
  unfold Stops
  by_cases ht : name = n.theme
  · simp only [ht, if_true] at h ⊢
    rintro ⟨before, field, after, hsplit, hstops⟩
    have once : (keys (before ++ field :: after)).Nodup := by
      rw [← hsplit]
      refine nodup_fieldsOf fun d hd => ?_
      obtain ⟨f, fields, rfl, hs⟩ := h d hd
      rintro _ ⟨⟩
      exact hs.once
    have hbefore : (keys before).Nodup := by
      rw [keys, List.map_append] at once
      exact (List.nodup_append.mp once).1
    rw [get?_foldl_layField _ hbefore, get?_eq_none_iff.mpr (not_mem_keys_of_nodup once)] at hstops
    exact not_carryStops_none hstops
  · simp only [ht, if_false]
    rintro ⟨fields, -, hstops⟩
    exact not_carryStops_none hstops

/-- What the main document keeps, with the sections of a stack. -/
def SectionNames.assembled (n : SectionNames) (main : Fields) (sections : List (Option Document)) :
    Fields :=
  (n.all.zip sections).foldl
    (fun fields part =>
      match part.2 with
      | some d => Assoc.put part.1 d fields
      | none => fields)
    (n.kept main)

/-- A composed document is told by the sections of the stack. -/
theorem map_fields_compose (imports : List Layer) (main : Fields) :
    Composition.fields <$> compose n imports main =
      n.assembled main <$> Stack.sections n <$>
        (allLayers imports main).foldlM (Stack.lay n) {} := by
  have hstack : compose n imports main = (allLayers imports main).foldlM (Stack.lay n) {} >>=
      fun s => .ok {
        fields := n.all.foldl (placed fun name => get? name s.merged) (n.kept main)
        origins := s.origins
        layers := (allLayers imports main).map Layer.name } := rfl
  rw [hstack]
  cases (allLayers imports main).foldlM (Stack.lay n) {} with
  | error f => rfl
  | ok s => rfl

/-- A layer that holds what earlier layers composed to is laid as they were. -/
theorem sections_lay_composed (distinct : n.Distinct) {imports : List Layer} {main : Fields}
    {c : Composition} (composed : compose n imports main = .ok c) (layer : Text) :
    Stack.sections n <$> Stack.lay n {} ⟨layer, c.fields⟩ =
      Stack.sections n <$> (allLayers imports main).foldlM (Stack.lay n) {} := by
  have hsettled := SectionNames.settled_sections (n := n) (allLayers imports main)
  have hsections : ∀ name ∈ n.all,
      get? name c.fields = n.sections (allLayers imports main) name :=
    fun name hm => get?_compose distinct hm composed
  obtain ⟨s, hs, -⟩ := exists_stack composed
  rw [hs]
  cases hlaid : Stack.lay n {} ⟨layer, c.fields⟩ with
  | error f =>
    obtain ⟨name, hm, hstops⟩ := (stops_iff distinct).mp (Stack.lay_error_iff.mp hlaid).2
    rw [hsections name hm] at hstops
    exact absurd hstops (hsettled name).goes
  | ok s' =>
    refine congrArg Except.ok (Stack.sections_eq_iff.mpr fun name hm => ?_)
    rw [get?_stack distinct hm hs, get?_merged_lay distinct hm hlaid, hsections name hm]
    exact (hsettled name).replay

theorem kept_placed {section? : Text → Option Document} {name : Text} (hm : name ∈ n.all)
    (fields : Fields) : n.kept (placed section? fields name) = n.kept fields := by
  unfold placed
  cases section? name with
  | none => rfl
  | some d =>
    let keep (key : Text) : Bool := !n.all.contains key
    have hdrop : keep name = false := by simp [keep, hm]
    exact filter_put hdrop fields

theorem kept_foldl_placed {section? : Text → Option Document} {names : List Text}
    (h : ∀ name ∈ names, name ∈ n.all) (fields : Fields) :
    n.kept (names.foldl (placed section?) fields) = n.kept fields := by
  induction names generalizing fields with
  | nil => rfl
  | cons name rest ih =>
    obtain ⟨hname, hrest⟩ := List.forall_mem_cons.mp h
    rw [List.foldl_cons, ih hrest, kept_placed hname]

/-- What a composed document keeps of the main document is kept again. -/
theorem kept_compose {imports : List Layer} {main : Fields} {c : Composition}
    (composed : compose n imports main = .ok c) : n.kept c.fields = n.kept main := by
  obtain ⟨s, -, rfl⟩ := exists_stack composed
  rw [kept_foldl_placed fun _ h => h]
  simp [SectionNames.kept]

theorem compose_composed_layer (distinct : n.Distinct) (earlier later : List Layer) (last : Layer)
    (layer : Text) (main : Fields) :
    (do
      let c ← compose n earlier last.fields
      Composition.fields <$> compose n (⟨layer, c.fields⟩ :: later) main) =
      Composition.fields <$> compose n (earlier ++ last :: later) main := by
  have hsplit : allLayers (earlier ++ last :: later) main =
      (earlier ++ [last]) ++ allLayers later main := by simp [allLayers]
  have hlast := sections_allLayers distinct earlier last
  rw [map_fields_compose (earlier ++ last :: later), hsplit, List.foldlM_append]
  cases composed : compose n earlier last.fields with
  | error f =>
    -- what stops the first stage stops the layers of that stage
    have hfirst : (allLayers earlier last.fields).foldlM (Stack.lay n) {} = .error f := by
      rcases bind_eq_error_iff.mp composed with h | ⟨_, -, h⟩
      · exact h
      · cases h
    rw [hfirst] at hlast
    cases hstack : (earlier ++ [last]).foldlM (Stack.lay n) {} with
    | error f' =>
      rw [hstack] at hlast
      cases hlast
      rfl
    | ok s =>
      rw [hstack] at hlast
      cases hlast
  | ok c =>
    have hlaid := (sections_lay_composed distinct composed layer).trans hlast
    change Composition.fields <$> compose n (⟨layer, c.fields⟩ :: later) main = _
    rw [map_fields_compose, allLayers, List.cons_append, List.foldlM_cons]
    refine congrArg _ ?_
    revert hlaid
    cases Stack.lay n {} ⟨layer, c.fields⟩ with
    | error f =>
      cases (earlier ++ [last]).foldlM (Stack.lay n) {} with
      | error f' =>
        rintro ⟨⟩
        rfl
      | ok s => rintro ⟨⟩
    | ok s' =>
      cases (earlier ++ [last]).foldlM (Stack.lay n) {} with
      | error f' => rintro ⟨⟩
      | ok s =>
        intro hlaid
        exact sections_foldlM_congr distinct (Except.ok.inj hlaid) (allLayers later main)

theorem compose_composed (distinct : n.Distinct) (imports : List Layer) (main : Fields) :
    (do
      let c ← compose n imports main
      Composition.fields <$> compose n [] c.fields) =
      Composition.fields <$> compose n imports main := by
  rw [map_fields_compose imports main]
  cases composed : compose n imports main with
  | error f =>
    rw [← map_fields_compose, composed]
    rfl
  | ok c =>
    have hassembled : n.assembled c.fields = n.assembled main := by
      funext sections
      rw [SectionNames.assembled, SectionNames.assembled, kept_compose composed]
    change Composition.fields <$> compose n [] c.fields = _
    rw [map_fields_compose, allLayers, List.nil_append, foldlM_singleton,
      sections_lay_composed distinct composed Layer.mainName, hassembled]

/-! ## Compiling composed documents -/

/-- What a compilation gives besides the composition that it started from. -/
def Compilation.results (c : Compilation) : Store × Fields × Fields × Fields × Document × Fields :=
  (c.store, c.palette, c.vars, c.theme, c.themeDocument, c.output)

namespace CompilerOptions

variable (o : CompilerOptions)

/-- Resolving looks at the composed document alone. -/
theorem resolve_congr {c c' : Composition} (h : c.fields = c'.fields) :
    Compilation.results <$> o.resolve c = Compilation.results <$> o.resolve c' := by
  simp [resolve, Compilation.results, h]

/-- **Composing in stages is composing at once.**  The document that some layers compose to, laid
as one layer with others over it, gives the document that all the layers give, and composing stops
in one way where it stops in the other.  So a composed document is composed to itself, and compiling
it gives what compiling its layers gives, be it a failure. -/
theorem composed_in_stages (distinct : o.names.Distinct) :
    (∀ (earlier later : List Layer) (last : Layer) (staged : Text) (main : Fields),
      (do
        let c ← o.compose earlier last.fields
        Composition.fields <$> o.compose (⟨staged, c.fields⟩ :: later) main) =
        Composition.fields <$> o.compose (earlier ++ last :: later) main) ∧
    (∀ (imports : List Layer) (main : Fields),
      (do
        let c ← o.compose imports main
        Composition.fields <$> o.compose [] c.fields) =
        Composition.fields <$> o.compose imports main) ∧
    (∀ (imports : List Layer) (main : Fields),
      (do
        let c ← (o.compose imports main).mapError Failure.fault
        Compilation.results <$> o.compile [] c.fields) =
        Compilation.results <$> o.compile imports main) := by
  refine ⟨?staged, ?again, ?compiled⟩
  case staged =>
    exact fun earlier later last staged main =>
      compose_composed_layer distinct earlier later last staged main
  case again => exact compose_composed distinct
  case compiled =>
    intro imports main
    have hagain := compose_composed distinct imports main
    unfold compile
    change _ = Compilation.results <$> ((o.compose imports main).mapError Failure.fault >>= _)
    unfold CompilerOptions.compose
    cases composed : Colourway.compose o.names imports main with
    | error f => rfl
    | ok c =>
      rw [composed] at hagain
      change Composition.fields <$> Colourway.compose o.names [] c.fields = .ok c.fields at hagain
      obtain ⟨c', hc', hfields⟩ := map_eq_ok_iff.mp hagain
      change Compilation.results <$>
        ((Colourway.compose o.names [] c.fields).mapError Failure.fault >>= o.resolve) = _
      rw [hc']
      exact o.resolve_congr hfields

end CompilerOptions

/-- A layer with a carry mark that nothing stands behind, a list section and an empty section. -/
def plainLayer : Layer :=
  ⟨"plain", [("palette", .map [("accent", .text "^")]),
    ("theme", .map [("rules", .list [.text "a"]), ("colors", .null)])]⟩

/-- A layer that replaces nothing and appends to the list section. -/
def darkLayer : Layer := ⟨"dark", [("theme", .map [("rules", .list [.text "b"])])]⟩

/-- A main document that appends to the list section. -/
def lastMain : Fields :=
  [("theme", .map [("rules", .list [.text "c"])]), ("name", .text "last")]

/-- What the three of them compose to. -/
def rulesAppended : Fields :=
  [("name", .text "last"), ("palette", .map [("accent", .text "^")]),
    ("theme", .map [("rules", .list [.text "a", .text "b", .text "c"]), ("colors", .null)])]

/-- The list section is appended to in both stages, and the mark that was left stays. -/
theorem rules_appended_in_stages :
    SectionNames.Distinct {} ∧
      (do
        let c ← compose {} [plainLayer] darkLayer.fields
        Composition.fields <$> compose {} [⟨"staged", c.fields⟩] lastMain) = .ok rulesAppended := by
  have distinct : SectionNames.Distinct {} := ⟨by decide, by decide, by decide⟩
  have staged := (CompilerOptions.composed_in_stages {} distinct).1 [plainLayer] [] darkLayer
    "staged" lastMain
  exact ⟨distinct, staged.trans rfl⟩

end Colourway
