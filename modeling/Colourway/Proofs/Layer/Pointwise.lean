import Colourway.Proofs.Document.Untold
import Colourway.Proofs.Layer.Sections

/-!
# Composition, place by place

The palette and the variables are composed one place at a time.  Under a path of keys each layer
has a verdict (`Layer.verdict`): it is silent, it clears the place, or it sets a leaf there.  What
the composed document holds under the path is what is left when the verdicts are applied in the
order of the layers, with the carry mark in a leaf replaced by the leaf that was there before.  No
place is looked at to settle another one.  There is no composed document exactly if at some place a
carry mark stands for an integer of too many digits (**`leafAt?_compose`**).

* `leafAt?_laid` — one value laid over another, by induction on the path.
* `carryStops_iff` — the places that stop a value, by the same recursion.
-/

namespace Colourway

open Assoc Document Text

/-! ## Verdicts -/

/-- What a layer says about a place. -/
inductive Verdict where
  /-- Nothing: what was there stays. -/
  | silent
  /-- That no leaf is there. -/
  | clears
  /-- That this leaf is there. -/
  | sets (leaf : Document)

/-- What a document says about the place under a path of keys. -/
def Document.verdict : List Text → Document → Verdict
  | [], .map _ => .clears
  | [], d => .sets d
  | key :: rest, .map fields =>
    match get? key fields with
    | none => .silent
    | some d => verdict rest d
  | _ :: _, _ => .clears

/-- What a layer says about the place under a path of keys of a section. -/
def Layer.verdict (name : Text) (path : List Text) (layer : Layer) : Verdict :=
  match get? name layer.fields with
  | none => .silent
  | some d => if d.isVoid then .silent else d.verdict path

/-- The leaf at a place after a verdict on it.  In a text the carry mark stands for the scalar that
was there, if that can be told; where there was none, the text stays as it is. -/
def Verdict.settle (mark : Text) (before : Option Document) :
    Verdict → Except Fault (Option Document)
  | .silent => .ok before
  | .clears => .ok none
  | .sets leaf =>
    match leaf.text?, before with
    | some v, some (.scalar p) =>
      if p ≠ .null ∧ occursIn mark v then
        match p.spliced? with
        | some s => .ok (some (.text (replaceAll mark s v)))
        | none => .error .longInteger
      else .ok (some leaf)
    | _, _ => .ok (some leaf)

/-- What a document holds under a path of keys, if that is no map. -/
def Document.leafAt? (path : List Text) (d : Document) : Option Document :=
  (d.at? (path.map .key)).filter fun d => d.fields?.isNone

/-! ## Reading a leaf -/

namespace Document

theorem leafAt?_nil {d : Document} (h : d.fields? = none) : d.leafAt? [] = some d := by
  simp [leafAt?, at?, h]

@[simp] theorem leafAt?_nil_map (fields : Fields) : (Document.map fields).leafAt? [] = none := by
  simp [leafAt?, at?, fields?]

@[simp] theorem leafAt?_cons_map (key : Text) (path : List Text) (fields : Fields) :
    (Document.map fields).leafAt? (key :: path) = (get? key fields).bind (leafAt? path) := by
  simp only [leafAt?, List.map_cons, at?]
  cases get? key fields <;> rfl

theorem leafAt?_cons_of_not_map {d : Document} (h : d.fields? = none) (key : Text)
    (path : List Text) : d.leafAt? (key :: path) = none := by
  cases d with
  | map fields => simp [fields?] at h
  | scalar v => rfl
  | list items => rfl

/-- Below a key there is what the fields hold under it. -/
theorem bind_leafAt?_cons (key : Text) (path : List Text) (prior : Option Document) :
    prior.bind (leafAt? (key :: path)) = (get? key (fieldsOf prior)).bind (leafAt? path) := by
  cases prior with
  | none => rfl
  | some d =>
    cases d with
    | map fields => simp
    | scalar v => rfl
    | list items => rfl

@[simp] theorem verdict_cons_map (key : Text) (path : List Text) (fields : Fields) :
    (Document.map fields).verdict (key :: path) =
      ((get? key fields).map (verdict path)).getD .silent := by
  rw [verdict]
  cases get? key fields <;> rfl

theorem verdict_nil_of_not_map {d : Document} (h : d.fields? = none) : d.verdict [] = .sets d := by
  cases d with
  | map fields => simp [fields?] at h
  | scalar v => rfl
  | list items => rfl

theorem verdict_cons_of_not_map {d : Document} (h : d.fields? = none) (key : Text)
    (path : List Text) : d.verdict (key :: path) = .clears := by
  cases d with
  | map fields => simp [fields?] at h
  | scalar v => rfl
  | list items => rfl

/-! ## One value laid over another -/

variable {mark : Text} {prior : Option Document}

theorem bind_leafAt?_nil_eq_scalar {p : Scalar} :
    prior.bind (leafAt? []) = some (.scalar p) ↔ prior = some (.scalar p) := by
  cases prior with
  | none => simp
  | some d => cases d <;> simp [leafAt?, at?, fields?]

/-- A leaf is carried forward from the leaf that was in its place. -/
theorem settle_sets {d : Document} (h : d.fields? = none) (goes : ¬ CarryStops mark prior d) :
    (Verdict.sets d).settle mark (prior.bind (leafAt? [])) =
      .ok (some (carriedLeaf mark prior d)) := by
  cases d with
  | map fields => simp [fields?] at h
  | list items => simp [Verdict.settle, text?, carriedLeaf]
  | scalar v =>
    cases v with
    | text v =>
      cases prior with
      | none => simp [Verdict.settle, text?, carriedLeaf, Document.text]
      | some before =>
        cases before with
        | map fields => simp [Verdict.settle, text?, carriedLeaf, Document.text]
        | list items =>
          have hl : leafAt? [] (.list items) = some (.list items) := leafAt?_nil rfl
          simp [Verdict.settle, text?, carriedLeaf, Document.text, hl]
        | scalar p =>
          have hp : leafAt? [] (.scalar p) = some (.scalar p) := leafAt?_nil rfl
          by_cases hc : p ≠ .null ∧ occursIn mark v
          · cases hs : p.spliced? with
            | some s => simp [Verdict.settle, text?, carriedLeaf, hp, hc, hs]
            | none => exact absurd (.leaf hc.2 hs) goes
          · simp [Verdict.settle, text?, carriedLeaf, Document.text, hp, hc]
    | _ => simp [Verdict.settle, text?, carriedLeaf]

/-- A value laid over another leaves at each place what its verdict makes of the leaf there. -/
theorem leafAt?_laid (path : List Text) {d : Document} (keyed : d.Keyed)
    (goes : ¬ CarryStops mark prior d) :
    (d.verdict path).settle mark (prior.bind (leafAt? path)) =
      .ok ((laid mark prior d).leafAt? path) := by
  induction path generalizing d prior with
  | nil =>
    rcases d.map_or_not with ⟨fields, rfl⟩ | h
    · rw [laid_map mark keyed.once, leafAt?_nil_map]
      rfl
    · rw [laid_of_not_map mark h, verdict_nil_of_not_map h, settle_sets h goes,
        leafAt?_nil (fields?_carriedLeaf mark h prior)]
  | cons key rest ih =>
    rcases d.map_or_not with ⟨fields, rfl⟩ | h
    · rw [laid_map mark keyed.once, leafAt?_cons_map, get?_merge_carry mark keyed.once,
        verdict_cons_map, bind_leafAt?_cons]
      cases hk : get? key fields with
      | none => rfl
      | some below =>
        exact ih (keyed.field hk) fun hstops => goes (.field (pair_mem_of_get? hk) hstops)
    · rw [laid_of_not_map mark h, leafAt?_cons_of_not_map (fields?_carriedLeaf mark h prior),
        verdict_cons_of_not_map h]
      rfl

/-- What stops a value are places: a text with the mark, over an integer of too many digits. -/
theorem carryStops_iff {d : Document} (keyed : d.Keyed) :
    CarryStops mark prior d ↔ ∃ path v p, d.leafAt? path = some (.text v) ∧
      occursIn mark v = true ∧ prior.bind (leafAt? path) = some (.scalar p) ∧
        p.spliced? = none := by
  constructor
  · intro h
    induction h with
    | leaf marked long => exact ⟨[], _, _, rfl, marked, rfl, long⟩
    | @field prior fields field mem below ih =>
      obtain ⟨path, v, p, hv, hmark, hp, hlong⟩ := ih (keyed.each field mem)
      refine ⟨field.1 :: path, v, p, ?_, hmark, ?_, hlong⟩
      · rw [leafAt?_cons_map, get?_of_pair_mem keyed.once mem]
        exact hv
      · rwa [bind_leafAt?_cons]
  · rintro ⟨path, v, p, hv, hmark, hp, hlong⟩
    induction path generalizing d prior with
    | nil =>
      have hvalue : (some d).bind (Document.leafAt? []) = some (.scalar (.text v)) := hv
      obtain rfl : d = .text v := Option.some.inj (bind_leafAt?_nil_eq_scalar.mp hvalue)
      obtain rfl := bind_leafAt?_nil_eq_scalar.mp hp
      exact .leaf hmark hlong
    | cons key rest ih =>
      rcases d.map_or_not with ⟨fields, rfl⟩ | h
      · rw [leafAt?_cons_map] at hv
        obtain ⟨d, hd, hv⟩ := Option.bind_eq_some_iff.mp hv
        rw [bind_leafAt?_cons] at hp
        exact .field (pair_mem_of_get? hd) (ih (keyed.field hd) hv hp)
      · rw [leafAt?_cons_of_not_map h] at hv
        cases hv

end Document

/-! ## One layer -/

section Layers

variable {mark : Text} {prior incoming : Option Document}

/-- A layer leaves at each place of a section what its verdict makes of the leaf there. -/
theorem bind_leafAt?_sectionAfter {name : Text} {path : List Text} (hp : path ≠ [])
    {layer : Layer} (keyed : (Document.map layer.fields).Keyed)
    (goes : ¬ SectionStops mark prior (get? name layer.fields)) :
    (layer.verdict name path).settle mark (prior.bind (leafAt? path)) =
      .ok ((sectionAfter mark prior (get? name layer.fields)).bind (leafAt? path)) := by
  obtain ⟨key, rest, rfl⟩ := List.exists_cons_of_ne_nil hp
  unfold sectionAfter Layer.verdict
  cases h : get? name layer.fields with
  | none => rfl
  | some d =>
    by_cases hv : d.isVoid = true
    · simp [hv, Verdict.settle]
    · have hd : d.Keyed := keyed.field h
      cases d with
      | map fields =>
        have hlaid := leafAt?_laid (key :: rest) hd fun hstops => goes ⟨fields, h, hstops⟩
        rw [laid_map mark hd.once] at hlaid
        simpa [hv, merge] using hlaid
      | scalar v => simp [hv, leafAt?, at?, verdict, Verdict.settle]
      | list items => simp [hv, leafAt?, at?, verdict, Verdict.settle]

/-- Sections of a theme that are bound once stop a layer as the fields of one map do. -/
theorem themeStops_iff (keyed : ∀ d, incoming = some d → d.Keyed) :
    ThemeStops mark prior incoming ↔ SectionStops mark prior incoming := by
  have hfields := Keyed.fieldsOf keyed
  have before_iff : ∀ before field after, fieldsOf incoming = before ++ field :: after →
      get? field.1 (before.foldl (layField mark) (fieldsOf prior)) =
        get? field.1 (fieldsOf prior) := by
    intro before field after hsplit
    have once : (keys (before ++ field :: after)).Nodup := hsplit ▸ hfields.once
    have hbefore : (keys before).Nodup := by
      rw [keys, List.map_append] at once
      exact (List.nodup_append.mp once).1
    rw [get?_foldl_layField mark hbefore, get?_eq_none_iff.mpr (not_mem_keys_of_nodup once)]
  constructor
  · rintro ⟨before, field, after, hsplit, hstops⟩
    rw [before_iff before field after hsplit] at hstops
    have hne : fieldsOf incoming ≠ [] := by simp [hsplit]
    exact ⟨_, eq_map_of_fieldsOf hne, .field (by simp [hsplit]) hstops⟩
  · rintro ⟨fields, rfl, hstops⟩
    obtain ⟨field, hmem, hstops⟩ := carryStops_map_iff.mp hstops
    obtain ⟨before, after, hsplit⟩ := List.append_of_mem hmem
    refine ⟨before, field, after, hsplit, ?_⟩
    rwa [before_iff before field after hsplit]

variable {n : SectionNames}

/-- What stops a layer at a section are places below it. -/
theorem sectionStops_iff (keyed : ∀ d, incoming = some d → d.Keyed) (name : Text) :
    n.Stops name prior incoming ↔ ∃ path v p, path ≠ [] ∧
      incoming.bind (leafAt? path) = some (.text v) ∧ occursIn n.carryMark v = true ∧
        prior.bind (leafAt? path) = some (.scalar p) ∧ p.spliced? = none := by
  have hsection : n.Stops name prior incoming ↔ SectionStops n.carryMark prior incoming := by
    unfold SectionNames.Stops
    split
    · exact themeStops_iff keyed
    · rfl
  rw [hsection]
  constructor
  · rintro ⟨fields, rfl, hstops⟩
    obtain ⟨path, v, p, hv, hrest⟩ := (carryStops_iff (keyed _ rfl)).mp hstops
    refine ⟨path, v, p, ?_, hv, hrest⟩
    rintro rfl
    simp at hv
  · rintro ⟨path, v, p, hne, hv, hrest⟩
    obtain ⟨key, rest, rfl⟩ := List.exists_cons_of_ne_nil hne
    obtain ⟨d, rfl, hleaf⟩ := Option.bind_eq_some_iff.mp hv
    rcases d.map_or_not with ⟨fields, rfl⟩ | h
    · exact ⟨fields, rfl, (carryStops_iff (keyed _ rfl)).mpr ⟨_, v, p, hleaf, hrest⟩⟩
    · rw [leafAt?_cons_of_not_map h] at hleaf
      cases hleaf

end Layers

/-! ## All layers -/

variable {n : SectionNames}

theorem bind_leafAt?_sections (distinct : n.Distinct) {name : Text}
    (hname : name = n.palette ∨ name = n.vars) {path : List Text} (hp : path ≠ [])
    {layers : List Layer} (keyed : ∀ layer ∈ layers, (Document.map layer.fields).Keyed)
    {s : Stack} (laid : layers.foldlM (Stack.lay n) {} = .ok s) :
    layers.foldlM (fun leaf layer => (layer.verdict name path).settle n.carryMark leaf) none =
      .ok ((n.sections layers name).bind (leafAt? path)) := by
  have hm : name ∈ n.all := by
    rcases hname with rfl | rfl <;> simp [SectionNames.all]
  have htheme : name ≠ n.theme := by
    rcases hname with rfl | rfl
    · exact distinct.palette_theme
    · exact distinct.vars_theme
  induction layers using List.reverseRecOn generalizing s with
  | nil => rfl
  | append_singleton layers layer ih =>
    obtain ⟨hlayers, hlayer⟩ := List.forall_mem_append.mp keyed
    obtain ⟨below, hbelow, hlast⟩ := foldlM_append_eq_ok_iff.mp laid
    rw [foldlM_singleton] at hlast
    -- the layer was laid, so it did not stop at this section
    have goes : ¬ SectionStops n.carryMark (n.sections layers name) (get? name layer.fields) := by
      intro hstops
      rw [← get?_stack distinct hm hbelow] at hstops
      have hsection : n.Stops name (get? name below.merged) (get? name layer.fields) := by
        rwa [SectionNames.Stops, if_neg htheme]
      have hlay : below.Stops n layer := (stops_iff distinct).mpr ⟨name, hm, hsection⟩
      cases hlast.symm.trans (Stack.lay_error_iff.mpr ⟨rfl, hlay⟩)
    rw [foldlM_append_eq_ok_iff]
    refine ⟨_, ih hlayers hbelow, ?_⟩
    rw [foldlM_singleton, SectionNames.sections_append, SectionNames.after, if_neg htheme]
    exact bind_leafAt?_sectionAfter hp (hlayer layer List.mem_cons_self) goes

/-- **Composition is a pointwise fold over the layers, where it does not stop.**  Below the palette
and below the variables the composed document holds a value other than a map at just the places
where the verdicts of the layers, applied in order from nothing on, leave one, and it holds that
value.  Composing stops over one thing only: a layer has a text with the carry mark in one of its
sections where the layers under it came to an integer of too many digits. -/
theorem leafAt?_compose (distinct : n.Distinct) {imports : List Layer} {main : Fields}
    (keyed : ∀ layer ∈ allLayers imports main, (Document.map layer.fields).Keyed) :
    (∀ c, compose n imports main = .ok c →
      ∀ name, name = n.palette ∨ name = n.vars → ∀ path ≠ [],
        (allLayers imports main).foldlM
            (fun leaf layer => (layer.verdict name path).settle n.carryMark leaf) none =
          .ok ((Document.map c.fields).leafAt? (name :: path))) ∧
    (∀ f, compose n imports main = .error f ↔ f = .longInteger ∧
      ∃ earlier layer later s, allLayers imports main = earlier ++ layer :: later ∧
        earlier.foldlM (Stack.lay n) {} = .ok s ∧
        ∃ name ∈ n.all, ∃ path v p, path ≠ [] ∧
          (get? name layer.fields).bind (leafAt? path) = some (.text v) ∧
          occursIn n.carryMark v = true ∧
          (get? name s.merged).bind (leafAt? path) = some (.scalar p) ∧ p.spliced? = none) := by
  refine ⟨fun c composed name hname path hp => ?composed, fun f => ?stopped⟩
  case composed =>
    have hm : name ∈ n.all := by
      rcases hname with rfl | rfl <;> simp [SectionNames.all]
    obtain ⟨s, hs, -⟩ := exists_stack composed
    rw [leafAt?_cons_map, get?_compose distinct hm composed]
    exact bind_leafAt?_sections distinct hname hp keyed hs
  case stopped =>
    rw [compose_error_iff]
    refine and_congr_right fun _ => exists_congr fun earlier => exists_congr fun layer =>
      exists_congr fun later => exists_congr fun s => and_congr_right fun hsplit =>
      and_congr_right fun _ => ?_
    have hlayer : (Document.map layer.fields).Keyed := keyed layer (by simp [hsplit])
    rw [stops_iff distinct]
    exact exists_congr fun name => and_congr_right fun _ =>
      sectionStops_iff (fun _ hd => hlayer.field hd) name

/-- Three layers, of which the first and the second bind an accent, and the third is empty. -/
def accentImports : List Layer :=
  [⟨"base", [("palette", .map [("ui", .map [("accent", .text "blue")])])]⟩,
    ⟨"dark", [("palette", .map [("ui", .map [("accent", .text "dark ^")])])]⟩,
    ⟨"blank", [("palette", .map [])]⟩]

/-- A main document that takes the accent up once more. -/
def accentMain : Fields := [("palette", .map [("ui", .map [("accent", .text "^ (^)")])])]

/-- Each carry mark stands for what the layers before have made of the place. -/
theorem accent_carried_forward :
    SectionNames.Distinct {} ∧
      (∀ layer ∈ allLayers accentImports accentMain, (Document.map layer.fields).Keyed) ∧
      ∃ c, compose {} accentImports accentMain = .ok c ∧
        (Document.map c.fields).leafAt? ["palette", "ui", "accent"] =
          some (.text "dark blue (dark blue)") := by
  have distinct : SectionNames.Distinct {} := ⟨by decide, by decide, by decide⟩
  have keyed : ∀ layer ∈ allLayers accentImports accentMain,
      (Document.map layer.fields).Keyed := by decide
  obtain ⟨c, composed⟩ : ∃ c, compose {} accentImports accentMain = .ok c := ⟨_, rfl⟩
  have hfold := (leafAt?_compose distinct keyed).1 c composed "palette" (.inl rfl)
    ["ui", "accent"] (by simp)
  exact ⟨distinct, keyed, c, composed, (Except.ok.inj (hfold.symm.trans rfl))⟩

/-- A layer whose palette holds an integer of too many digits. -/
def longAccent : Layer := ⟨"base", [("palette", .map [("accent", .scalar (.int longInteger))])]⟩

/-- A main document that takes it up with a carry mark. -/
def longAccentMain : Fields := [("palette", .map [("accent", .text "^")])]

/-- **A layer can make composing impossible by an integer.**  The integer is a scalar that is not
null, and the text over it holds the mark, yet there is no text for the mark to stand for. -/
theorem long_accent_not_carried :
    SectionNames.Distinct {} ∧
      (∀ layer ∈ allLayers [longAccent] longAccentMain, (Document.map layer.fields).Keyed) ∧
      compose {} [longAccent] longAccentMain = .error .longInteger := by
  have distinct : SectionNames.Distinct {} := ⟨by decide, by decide, by decide⟩
  have keyed : ∀ layer ∈ allLayers [longAccent] longAccentMain,
      (Document.map layer.fields).Keyed := by
    intro layer hlayer
    rcases List.mem_cons.mp hlayer with rfl | hmain
    · exact isKeyed_iff.mp rfl
    · rw [List.mem_singleton.mp hmain]
      exact isKeyed_iff.mp rfl
  obtain ⟨below, hbelow, hpalette⟩ : ∃ s, [longAccent].foldlM (Stack.lay {}) {} = .ok s ∧
      get? ("palette" : Text) s.merged =
        some (.map [("accent", .scalar (.int longInteger))]) := ⟨_, rfl, rfl⟩
  have hstops : SectionStops "^" (get? ("palette" : Text) below.merged)
      (some (.map [("accent", .text "^")])) := by
    rw [hpalette]
    exact ⟨_, rfl, .field List.mem_cons_self (.leaf rfl spliced?_longInteger)⟩
  exact ⟨distinct, keyed, compose_error_iff.mpr ⟨rfl, [longAccent],
    ⟨Layer.mainName, longAccentMain⟩, [], below, rfl, hbelow, .inl hstops⟩⟩

end Colourway
