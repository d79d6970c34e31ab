import Colourway.Proofs.Document.Leaves
import Colourway.Proofs.Layer.Sections

/-!
# What has an origin

Each layer notes where it wrote a leaf, and no note is ever taken back.  So a flat path has an
origin exactly if it was the path of a leaf at some stage of the composition
(`mem_origins_iff`): every leaf of the composed document has one, and so has each leaf of an
earlier stage that a later layer replaced (`replaced_leaf_keeps_origin`).

`SectionNames.Written` are the paths that one layer notes (`noted_lay`).  They are leaves afterwards
(`hasLeaf_of_written`), and no other leaf is new (`written_of_hasLeaf`); `mem_keys_foldl` carries
this through a run.
-/

namespace Colourway

open Assoc Document Text

/-! ## Noting -/

/-- Between two states of the origins a layer noted the flat paths of `W`, and no others. -/
def Noted (layer : Text) (W : Text → Prop) (before after : List (Text × Text)) : Prop :=
  ∀ x, W x ∧ get? x after = some layer ∨ ¬ W x ∧ get? x after = get? x before

namespace Noted

variable {layer : Text} {W V : Text → Prop} {before middle after : List (Text × Text)}

theorem nothing (origins : List (Text × Text)) : Noted layer (fun _ => False) origins origins :=
  fun _ => Or.inr ⟨not_false, rfl⟩

theorem put (x : Text) (origins : List (Text × Text)) :
    Noted layer (fun y => y = x) origins (Assoc.put x layer origins) := by
  intro y
  by_cases h : y = x
  · subst h
    exact Or.inl ⟨rfl, get?_put_self y layer origins⟩
  · exact Or.inr ⟨h, get?_put_of_ne h layer origins⟩

theorem trans (first : Noted layer W before middle) (second : Noted layer V middle after) :
    Noted layer (fun x => W x ∨ V x) before after := by
  intro x
  rcases second x with ⟨hv, hafter⟩ | ⟨hv, hafter⟩
  · exact Or.inl ⟨Or.inr hv, hafter⟩
  · rcases first x with ⟨hw, hmiddle⟩ | ⟨hw, hmiddle⟩
    · exact Or.inl ⟨Or.inl hw, hafter.trans hmiddle⟩
    · exact Or.inr ⟨fun h => h.elim hw hv, hafter.trans hmiddle⟩

theorem congr (h : Noted layer W before after) (same : ∀ x, V x ↔ W x) :
    Noted layer V before after := by
  intro x
  rw [same]
  exact h x

theorem get?_eq (h : Noted layer W before after) {x : Text} (hx : W x) :
    get? x after = some layer := by
  rcases h x with ⟨-, hafter⟩ | ⟨hno, -⟩
  · exact hafter
  · exact absurd hx hno

theorem get?_eq_of_not (h : Noted layer W before after) {x : Text} (hx : ¬ W x) :
    get? x after = get? x before := by
  rcases h x with ⟨hw, -⟩ | ⟨-, hafter⟩
  · exact absurd hw hx
  · exact hafter

/-- What is noted stays, and what a layer noted is new. -/
theorem mem_keys_iff (h : Noted layer W before after) (x : Text) :
    x ∈ keys after ↔ x ∈ keys before ∨ W x := by
  by_cases hx : W x
  · have hsome : x ∈ keys after := by
      by_contra hno
      rw [← get?_eq_none_iff, h.get?_eq hx] at hno
      cases hno
    simp [hx, hsome]
  · have hsame := h.get?_eq_of_not hx
    simp only [hx, or_false]
    rw [← not_iff_not, ← get?_eq_none_iff, ← get?_eq_none_iff, hsame]

end Noted

theorem noted_foldl_put (layer : Text) (entries : List Entry) (origins : List (Text × Text)) :
    Noted layer (fun x => ∃ path ∈ entries.map Entry.path, x = Path.flat path) origins
      (entries.foldl (fun o e => Assoc.put e.flat layer o) origins) := by
  induction entries generalizing origins with
  | nil => exact (Noted.nothing origins).congr (by simp)
  | cons e rest ih =>
    rw [List.foldl_cons]
    refine ((Noted.put e.flat origins).trans (ih _)).congr ?_
    simp [Entry.flat]

theorem noted_leafPaths (layer : Text) (origins : List (Text × Text)) (path : Path)
    (d : Document) :
    Noted layer (fun x => ∃ q ∈ d.leafPaths path, x = Path.flat q) origins
      (recordOrigins origins path d layer) := by
  cases d with
  | scalar v => exact (Noted.put (Path.flat path) origins).congr (by simp [leafPaths])
  | list items => exact noted_foldl_put layer _ origins
  | map fields => exact noted_foldl_put layer _ origins

/-- A layer notes the leaves of what it writes. -/
theorem noted_recordOrigins (layer : Text) (origins : List (Text × Text)) (path : Path)
    {d : Document} (keyed : d.Keyed) :
    Noted layer (fun x => ∃ rest, d.HasLeaf rest ∧ x = Path.flat (path ++ rest)) origins
      (recordOrigins origins path d layer) := by
  refine (noted_leafPaths layer origins path d).congr fun x => ?_
  constructor
  · rintro ⟨rest, hleaf, rfl⟩
    exact ⟨path ++ rest, (mem_leafPaths keyed).mpr ⟨rest, hleaf, rfl⟩, rfl⟩
  · rintro ⟨q, hq, rfl⟩
    obtain ⟨rest, hleaf, rfl⟩ := (mem_leafPaths keyed).mp hq
    exact ⟨rest, hleaf, rfl⟩

theorem noted_recordItems (layer : Text) (path : Path) {items : List Document}
    (keyed : ∀ d ∈ items, d.Keyed) (origins : List (Text × Text)) (start : Nat) :
    Noted layer (fun x => ∃ (i : Nat) (rest : Path), HasLeaf? items[i]? rest ∧
        x = Path.flat (path ++ .index (start + i : Nat) :: rest)) origins
      (recordItems origins path start layer items) := by
  induction items generalizing origins start with
  | nil => exact (Noted.nothing origins).congr (by simp)
  | cons d later ih =>
    obtain ⟨hd, hlater⟩ := List.forall_mem_cons.mp keyed
    rw [recordItems]
    refine ((noted_recordOrigins layer origins _ hd).trans (ih hlater _ _)).congr fun x => ?_
    constructor
    · rintro ⟨i, rest, hleaf, rfl⟩
      cases i with
      | zero => exact Or.inl ⟨rest, hasLeaf?_some.mp hleaf, by simp⟩
      | succ i =>
        refine Or.inr ⟨i, rest, by simpa using hleaf, ?_⟩
        rw [show start + 1 + i = start + (i + 1) by omega]
    · rintro (⟨rest, hleaf, rfl⟩ | ⟨i, rest, hleaf, rfl⟩)
      · exact ⟨0, rest, hasLeaf?_some.mpr hleaf, by simp⟩
      · refine ⟨i + 1, rest, by simpa using hleaf, ?_⟩
        rw [show start + (i + 1) = start + 1 + i by omega]

/-! ## What one layer writes -/

/-- The paths at which a layer writes leaves to the palette or the variables. -/
def SectionWritten (incoming : Option Document) (path : Path) : Prop :=
  ∃ d, incoming = some d ∧ d.isVoid = false ∧ d.HasLeaf path

/-- The paths at which a section of a theme writes leaves.  A list writes behind the items that
are there. -/
def FieldWritten (prior : Option Document) : Document → Path → Prop
  | .list items, path =>
    ∃ (i : Nat) (rest : Path), HasLeaf? items[i]? rest ∧
      path = .index (itemCount prior + i : Nat) :: rest
  | d, path => d.HasLeaf path

/-- The paths at which a layer writes leaves to the theme. -/
def ThemeWritten (prior incoming : Option Document) (path : Path) : Prop :=
  ∃ key d rest, get? key (fieldsOf incoming) = some d ∧
    FieldWritten (get? key (fieldsOf prior)) d rest ∧ path = .key key :: rest

/-- The paths at which a layer writes leaves to a composed section. -/
def SectionNames.Written (n : SectionNames) (name : Text) (prior incoming : Option Document)
    (path : Path) : Prop :=
  if name = n.theme then ThemeWritten prior incoming path else SectionWritten incoming path

section Leaves

variable {mark : Text} {prior incoming : Option Document} {path : Path}

theorem hasLeaf_sectionAfter_of_written (keyed : ∀ d, incoming = some d → d.Keyed)
    (h : SectionWritten incoming path) : HasLeaf? (sectionAfter mark prior incoming) path := by
  obtain ⟨d, rfl, hv, hleaf⟩ := h
  have hd : d.Keyed := keyed d rfl
  cases d with
  | scalar v => simpa [sectionAfter, hv] using hleaf
  | list items => simpa [sectionAfter, hv] using hleaf
  | map fields =>
    have hlaid := hleaf.laid mark hd prior
    rw [laid_map mark hd.once] at hlaid
    simpa [sectionAfter, hv, merge] using hlaid

theorem written_of_hasLeaf_sectionAfter (keyed : ∀ d, incoming = some d → d.Keyed)
    (h : HasLeaf? (sectionAfter mark prior incoming) path) :
    HasLeaf? prior path ∨ SectionWritten incoming path := by
  cases incoming with
  | none => exact Or.inl h
  | some d =>
    by_cases hv : d.isVoid = true
    · simp only [sectionAfter, hv, if_true] at h
      exact Or.inl h
    · have hv' : d.isVoid = false := by simpa using hv
      have hd : d.Keyed := keyed d rfl
      cases d with
      | scalar v =>
        simp only [sectionAfter, hv'] at h
        exact Or.inr ⟨_, rfl, hv', by simpa using h⟩
      | list items =>
        simp only [sectionAfter, hv'] at h
        exact Or.inr ⟨_, rfl, hv', by simpa using h⟩
      | map fields =>
        have hlaid : (laid mark prior (.map fields)).HasLeaf path := by
          rw [laid_map mark hd.once]
          simpa [sectionAfter, hv', merge] using h
        rcases hasLeaf_of_laid mark hd hlaid with hbefore | hlater
        · exact Or.inl hbefore
        · exact Or.inr ⟨_, rfl, hv', hlater⟩

/-- A section of a theme, if it is no list, is laid over what was there. -/
theorem laidThemeValue_eq_laid {d : Document} (keyed : d.Keyed) (h : ∀ items, d ≠ .list items) :
    laidThemeValue mark prior d = laid mark prior d := by
  cases d with
  | scalar v => rw [laidThemeValue, laid_of_not_map mark rfl] <;> simp
  | list items => exact absurd rfl (h items)
  | map fields => rw [laid_map mark keyed.once, laidThemeValue, fieldsOf, merge]

/-- A list that is laid over another comes behind its items. -/
theorem hasLeaf_laidThemeValue_list {items : List Document} :
    (laidThemeValue mark prior (.list items)).HasLeaf path ↔
      (∃ earlier, prior = some (.list earlier) ∧ (Document.list earlier).HasLeaf path) ∨
        FieldWritten prior (.list items) path := by
  have alone : (Document.list items).HasLeaf path ↔
      ∃ (i : Nat) (rest : Path), HasLeaf? items[i]? rest ∧
        path = .index (0 + i : Nat) :: rest := by
    simp [hasLeaf_list_iff, and_comm]
  cases prior with
  | none => simpa [laidThemeValue, FieldWritten, itemCount] using alone
  | some d =>
    cases d with
    | scalar v => simpa [laidThemeValue, FieldWritten, itemCount] using alone
    | map fields => simpa [laidThemeValue, FieldWritten, itemCount] using alone
    | list earlier =>
      have behind := hasLeaf_list_append_iff earlier items path
      simpa [laidThemeValue, FieldWritten, itemCount] using behind

theorem hasLeaf_laidThemeValue_of_written {d : Document} (keyed : d.Keyed)
    (h : FieldWritten prior d path) : (laidThemeValue mark prior d).HasLeaf path := by
  cases d with
  | list items => exact hasLeaf_laidThemeValue_list.mpr (Or.inr h)
  | scalar v =>
    rw [laidThemeValue_eq_laid keyed (by simp)]
    exact HasLeaf.laid mark keyed h prior
  | map fields =>
    rw [laidThemeValue_eq_laid keyed (by simp)]
    exact HasLeaf.laid mark keyed h prior

theorem written_of_hasLeaf_laidThemeValue {d : Document} (keyed : d.Keyed)
    (h : (laidThemeValue mark prior d).HasLeaf path) :
    HasLeaf? prior path ∨ FieldWritten prior d path := by
  cases d with
  | list items =>
    rcases hasLeaf_laidThemeValue_list.mp h with ⟨earlier, rfl, hleaf⟩ | hw
    · exact Or.inl (hasLeaf?_some.mpr hleaf)
    · exact Or.inr hw
  | scalar v =>
    rw [laidThemeValue_eq_laid keyed (by simp)] at h
    exact hasLeaf_of_laid mark keyed h
  | map fields =>
    rw [laidThemeValue_eq_laid keyed (by simp)] at h
    exact hasLeaf_of_laid mark keyed h

theorem hasLeaf_themeAfter_of_written (keyed : ∀ d, incoming = some d → d.Keyed)
    (h : ThemeWritten prior incoming path) : HasLeaf? (themeAfter mark prior incoming) path := by
  obtain ⟨key, d, rest, hget, hw, rfl⟩ := h
  have hd := Keyed.fieldsOf keyed
  have hne : fieldsOf incoming ≠ [] := by
    intro hnil
    simp [hnil, get?] at hget
  have hafter := get?_foldl_layField mark hd.once (fieldsOf prior) key
  rw [hget] at hafter
  rw [themeAfter_of_ne_nil hne, hasLeaf?_some]
  exact .field hafter (hasLeaf_laidThemeValue_of_written (hd.field hget) hw)

theorem written_of_hasLeaf_themeAfter (keyed : ∀ d, incoming = some d → d.Keyed)
    (h : HasLeaf? (themeAfter mark prior incoming) path) :
    HasLeaf? prior path ∨ ThemeWritten prior incoming path := by
  by_cases hne : fieldsOf incoming = []
  · rw [themeAfter_of_nil hne] at h
    exact Or.inl h
  · have hd := Keyed.fieldsOf keyed
    rw [themeAfter_of_ne_nil hne, hasLeaf?_some] at h
    obtain ⟨key, rest, rfl, d, hget, hleaf⟩ := hasLeaf_map_iff.mp h
    rw [get?_foldl_layField mark hd.once] at hget
    cases hkey : get? key (fieldsOf incoming) with
    | none =>
      rw [hkey] at hget
      exact Or.inl (hasLeaf_fieldsOf ⟨d, hget, hleaf⟩)
    | some later =>
      rw [hkey] at hget
      obtain rfl := Option.some.inj hget
      rcases written_of_hasLeaf_laidThemeValue (hd.field hkey) hleaf with hbefore | hw
      · exact Or.inl (hasLeaf_fieldsOf hbefore)
      · exact Or.inr ⟨key, later, rest, hkey, hw, rfl⟩

end Leaves

/-! ## What one layer notes -/

section Notes

variable {mark : Text} {layer : Layer} {s s' : Stack}

theorem noted_laySection {name : Text} (keyed : (Document.map layer.fields).Keyed)
    (h : s.laySection mark name layer = .ok s') :
    Noted layer.name (fun x => ∃ path, SectionWritten (get? name layer.fields) path ∧
        x = Path.flat (.key name :: path)) s.origins s'.origins := by
  unfold SectionWritten
  rcases Stack.laySection_cases h with
    ⟨rfl, hvoid⟩ | ⟨fields, hget, hv, rfl⟩ | ⟨d, hget, hv, -, rfl⟩
  · refine (Noted.nothing _).congr fun x => iff_false_intro ?_
    rintro ⟨path, ⟨d, hd, hv, -⟩, -⟩
    simp [hvoid d hd] at hv
  · have hmap : (Document.map fields).Keyed := keyed.field hget
    have hcarried := hmap.carriedValue mark (get? name s.merged)
    have hleaf := hasLeaf_carriedValue mark (.map fields) (get? name s.merged)
    rw [carriedValue] at hcarried
    simp only [carriedValue] at hleaf
    refine (noted_recordOrigins layer.name s.origins [.key name] hcarried).congr ?_
    simp [hget, hv, hleaf]
  · refine (noted_recordOrigins layer.name s.origins [.key name] (keyed.field hget)).congr ?_
    simp [hget, hv]

theorem noted_layThemeSection {theme name : Text} {field : Text × Document}
    (keyed : field.2.Keyed) (h : s.layThemeSection mark theme name field = .ok s') :
    Noted name (fun x => ∃ rest,
        FieldWritten (get? field.1 (fieldsOf (get? theme s.merged))) field.2 rest ∧
          x = Path.flat (.key theme :: .key field.1 :: rest)) s.origins s'.origins := by
  obtain ⟨key, d⟩ := field
  have hwhole := noted_recordOrigins name s.origins [.key theme, .key key] keyed
  rw [Stack.layThemeSection_eq h]
  unfold FieldWritten
  cases d with
  | scalar v => exact hwhole
  | map fields => exact hwhole
  | list items =>
    refine (noted_recordItems name _ (fun d hd => keyed.item hd) s.origins _).congr fun x => ?_
    simp only [List.cons_append, List.nil_append]
    constructor
    · rintro ⟨_, ⟨i, rest, hleaf, rfl⟩, rfl⟩
      exact ⟨i, rest, hleaf, rfl⟩
    · rintro ⟨i, rest, hleaf, rfl⟩
      exact ⟨_, ⟨i, rest, hleaf, rfl⟩, rfl⟩

theorem noted_layThemeSections {theme name : Text} {fields : Fields}
    (keyed : (Document.map fields).Keyed)
    (h : fields.foldlM (Stack.layThemeSection mark theme name) s = .ok s') :
    Noted name (fun x => ∃ key d rest, get? key fields = some d ∧
        FieldWritten (get? key (fieldsOf (get? theme s.merged))) d rest ∧
          x = Path.flat (.key theme :: .key key :: rest)) s.origins s'.origins := by
  induction fields generalizing s with
  | nil =>
    cases h
    exact (Noted.nothing _).congr (by simp [get?])
  | cons f later ih =>
    obtain ⟨k, d⟩ := f
    have hd : d.Keyed := keyed.head
    obtain ⟨hk, hlater⟩ := keyed.tail
    obtain ⟨middle, hfirst, hrest⟩ := bind_eq_ok_iff.mp h
    have hprior : ∀ key ≠ k, get? key (fieldsOf (get? theme middle.merged)) =
        get? key (fieldsOf (get? theme s.merged)) := by
      intro key hne
      rw [Stack.layThemeSection_eq hfirst, get?_put_self, fieldsOf_map, layField,
        get?_put_of_ne hne]
    refine ((noted_layThemeSection hd hfirst).trans (ih hlater hrest)).congr fun x => ?_
    constructor
    · rintro ⟨key, d', rest, hget, hw, rfl⟩
      by_cases hne : key = k
      · subst hne
        obtain rfl : d = d' := by simpa [get?] using hget
        exact Or.inl ⟨rest, hw, rfl⟩
      · refine Or.inr ⟨key, d', rest, by simpa [get?, Ne.symm hne] using hget, ?_, rfl⟩
        rwa [hprior key hne]
    · rintro (⟨rest, hw, rfl⟩ | ⟨key, d', rest, hget, hw, rfl⟩)
      · exact ⟨k, d, rest, by simp [get?], hw, rfl⟩
      · have hne : key ≠ k := by
          rintro rfl
          simp [get?_eq_none_iff.mpr hk] at hget
        rw [hprior key hne] at hw
        exact ⟨key, d', rest, by simpa [get?, Ne.symm hne] using hget, hw, rfl⟩

theorem noted_layTheme {theme : Text} (keyed : (Document.map layer.fields).Keyed)
    (h : s.layTheme mark theme layer = .ok s') :
    Noted layer.name (fun x => ∃ path,
        ThemeWritten (get? theme s.merged) (get? theme layer.fields) path ∧
          x = Path.flat (.key theme :: path)) s.origins s'.origins := by
  rw [Stack.layTheme_eq] at h
  have hfields : (Document.map (fieldsOf (get? theme layer.fields))).Keyed :=
    Keyed.fieldsOf fun _ hd => keyed.field hd
  refine (noted_layThemeSections hfields h).congr fun x => ?_
  constructor
  · rintro ⟨_, ⟨key, d, rest, hk, hw, rfl⟩, rfl⟩
    exact ⟨key, d, rest, hk, hw, rfl⟩
  · rintro ⟨key, d, rest, hk, hw, rfl⟩
    exact ⟨_, ⟨key, d, rest, hk, hw, rfl⟩, rfl⟩

end Notes

/-! ## One layer and all layers -/

/-- The flat path of a leaf of one of the composed sections. -/
def SectionNames.LeafPath (n : SectionNames) (section? : Text → Option Document) (x : Text) :
    Prop :=
  ∃ name ∈ n.all, ∃ path, HasLeaf? (section? name) path ∧ x = Path.flat (.key name :: path)

section Runs

variable {n : SectionNames} (distinct : n.Distinct)

theorem hasLeaf_of_written {name : Text} {prior incoming : Option Document} {path : Path}
    (keyed : ∀ d, incoming = some d → d.Keyed) (h : n.Written name prior incoming path) :
    HasLeaf? (n.after name prior incoming) path := by
  unfold SectionNames.Written at h
  unfold SectionNames.after
  by_cases ht : name = n.theme
  · simp only [ht, if_true] at h ⊢
    exact hasLeaf_themeAfter_of_written keyed h
  · simp only [ht, if_false] at h ⊢
    exact hasLeaf_sectionAfter_of_written keyed h

theorem written_of_hasLeaf {name : Text} {prior incoming : Option Document} {path : Path}
    (keyed : ∀ d, incoming = some d → d.Keyed)
    (h : HasLeaf? (n.after name prior incoming) path) :
    HasLeaf? prior path ∨ n.Written name prior incoming path := by
  unfold SectionNames.Written
  unfold SectionNames.after at h
  by_cases ht : name = n.theme
  · simp only [ht, if_true] at h ⊢
    exact written_of_hasLeaf_themeAfter keyed h
  · simp only [ht, if_false] at h ⊢
    exact written_of_hasLeaf_sectionAfter keyed h

include distinct in
/-- One layer notes what it writes and forgets nothing. -/
theorem noted_lay {s s' : Stack} {layer : Layer} (keyed : (Document.map layer.fields).Keyed)
    (h : s.lay n layer = .ok s') :
    Noted layer.name (fun x => ∃ name ∈ n.all, ∃ path,
        n.Written name (get? name s.merged) (get? name layer.fields) path ∧
          x = Path.flat (.key name :: path)) s.origins s'.origins := by
  obtain ⟨hpv, hpt, hvt⟩ := distinct
  obtain ⟨s₁, hpalette, s₂, hvars, htheme⟩ := Stack.lay_eq_ok_iff.mp h
  have hbefore : get? n.theme s₂.merged = get? n.theme s.merged := by
    rw [Stack.get?_laySection_of_ne (Ne.symm hvt) hvars,
      Stack.get?_laySection_of_ne (Ne.symm hpt) hpalette]
  have hrun := ((noted_laySection keyed hpalette).trans (noted_laySection keyed hvars)).trans
    (noted_layTheme keyed htheme)
  refine hrun.congr fun x => ?_
  rw [hbefore]
  simp [SectionNames.all, SectionNames.Written, hpt, hvt, or_assoc]

include distinct in
theorem mem_keys_lay {s s' : Stack} {layer : Layer} (keyed : (Document.map layer.fields).Keyed)
    (h : s.lay n layer = .ok s') {x : Text} :
    x ∈ keys s'.origins ↔
      x ∈ keys s.origins ∨ ∃ name ∈ n.all, ∃ path,
        n.Written name (get? name s.merged) (get? name layer.fields) path ∧
          x = Path.flat (.key name :: path) :=
  (noted_lay distinct keyed h).mem_keys_iff x

/-- A leaf after one more layer was a leaf before, or the layer wrote it. -/
theorem leafPath_append {layers : List Layer} {layer : Layer}
    (keyed : (Document.map layer.fields).Keyed) {x : Text}
    (h : n.LeafPath (n.sections (layers ++ [layer])) x) :
    n.LeafPath (n.sections layers) x ∨ ∃ name ∈ n.all, ∃ path,
      n.Written name (n.sections layers name) (get? name layer.fields) path ∧
        x = Path.flat (.key name :: path) := by
  obtain ⟨name, hm, path, hleaf, rfl⟩ := h
  rw [SectionNames.sections_append] at hleaf
  rcases written_of_hasLeaf (fun _ hd => keyed.field hd) hleaf with hbefore | hw
  · exact Or.inl ⟨name, hm, path, hbefore, rfl⟩
  · exact Or.inr ⟨name, hm, path, hw, rfl⟩

include distinct in
/-- A run over layers notes the leaves of all its stages. -/
theorem mem_keys_foldlM {layers : List Layer}
    (keyed : ∀ layer ∈ layers, (Document.map layer.fields).Keyed) {s : Stack}
    (h : layers.foldlM (Stack.lay n) {} = .ok s) {x : Text} :
    x ∈ keys s.origins ↔
      ∃ earlier last later, layers = earlier ++ last :: later ∧
        n.LeafPath (n.sections (earlier ++ [last])) x := by
  induction layers using List.reverseRecOn generalizing s with
  | nil =>
    cases h
    simp [keys]
  | append_singleton layers layer ih =>
    obtain ⟨hlayers, hlayer⟩ := List.forall_mem_append.mp keyed
    have hkeyed : (Document.map layer.fields).Keyed := hlayer layer List.mem_cons_self
    obtain ⟨below, hbelow, hlast⟩ := foldlM_append_eq_ok_iff.mp h
    rw [foldlM_singleton] at hlast
    rw [mem_keys_lay distinct hkeyed hlast, ih hlayers hbelow]
    constructor
    · rintro (⟨earlier, last, later, rfl, hleaf⟩ | ⟨name, hm, path, hw, rfl⟩)
      · exact ⟨earlier, last, later ++ [layer], by simp, hleaf⟩
      · refine ⟨layers, layer, [], rfl, name, hm, path, ?_, rfl⟩
        rw [get?_stack distinct hm hbelow] at hw
        rw [SectionNames.sections_append]
        exact hasLeaf_of_written (fun _ hd => hkeyed.field hd) hw
    · rintro ⟨earlier, last, later, hsplit, hleaf⟩
      rcases List.eq_nil_or_concat later with rfl | ⟨later, final, rfl⟩
      · -- The last stage: a leaf that the layer did not write was there one stage before.
        obtain ⟨rfl, rfl⟩ : layers = earlier ∧ layer = last := by simpa using hsplit
        rcases leafPath_append hkeyed hleaf with hbefore | ⟨name, hm, path, hw, rfl⟩
        · rcases List.eq_nil_or_concat layers with rfl | ⟨init, final, rfl⟩
          · obtain ⟨name, -, path, hnone, -⟩ := hbefore
            simp at hnone
          · rw [List.concat_eq_append] at hbefore ⊢
            exact Or.inl ⟨init, final, [], rfl, hbefore⟩
        · refine Or.inr ⟨name, hm, path, ?_, rfl⟩
          rwa [get?_stack distinct hm hbelow]
      · rw [List.concat_eq_append, ← List.cons_append, ← List.append_assoc] at hsplit
        obtain ⟨rfl, -⟩ := List.append_inj' hsplit rfl
        exact Or.inl ⟨earlier, last, later, rfl, hleaf⟩

include distinct in
/-- The sections of a composed document are those that all of its layers make. -/
theorem leafPath_compose {imports : List Layer} {main : Fields} {c : Composition}
    (composed : compose n imports main = .ok c) {x : Text} :
    n.LeafPath (fun name => get? name c.fields) x ↔
      n.LeafPath (n.sections (allLayers imports main)) x := by
  unfold SectionNames.LeafPath
  refine exists_congr fun name => and_congr_right fun hm => ?_
  simp only [get?_compose distinct hm composed]

end Runs

/-- **What has an origin are the leaves of all stages.**  Each leaf of the composed document has an
origin.  A flat path has one exactly if some first layers compose to a document with a leaf there;
whether a later layer replaced it makes no difference. -/
theorem mem_origins_iff {n : SectionNames} (distinct : n.Distinct) {imports : List Layer}
    {main : Fields} (keyed : ∀ layer ∈ allLayers imports main, (Document.map layer.fields).Keyed)
    {c : Composition} (composed : compose n imports main = .ok c) :
    (∀ x, n.LeafPath (fun name => get? name c.fields) x → x ∈ keys c.origins) ∧
    (∀ x, x ∈ keys c.origins ↔
      ∃ earlier last later stage, allLayers imports main = earlier ++ last :: later ∧
        compose n earlier last.fields = .ok stage ∧
        n.LeafPath (fun name => get? name stage.fields) x) := by
  have stages : ∀ x, x ∈ keys c.origins ↔
      ∃ earlier last later stage, allLayers imports main = earlier ++ last :: later ∧
        compose n earlier last.fields = .ok stage ∧
        n.LeafPath (fun name => get? name stage.fields) x := by
    intro x
    obtain ⟨s, hs, hc⟩ := exists_stack composed
    have horigins : c.origins = s.origins := by rw [hc]
    have hstage : ∀ earlier (last : Layer) stage, compose n earlier last.fields = .ok stage →
        (n.LeafPath (fun name => get? name stage.fields) x ↔
          n.LeafPath (n.sections (earlier ++ [last])) x) := by
      intro earlier last stage hstage
      rw [leafPath_compose distinct hstage]
      simp [SectionNames.LeafPath, allLayers]
    rw [horigins, mem_keys_foldlM distinct keyed hs]
    constructor
    · rintro ⟨earlier, last, later, hsplit, hleaf⟩
      obtain ⟨stage, hcompose⟩ := exists_stage distinct composed hsplit
      exact ⟨earlier, last, later, stage, hsplit, hcompose,
        (hstage earlier last stage hcompose).mpr hleaf⟩
    · rintro ⟨earlier, last, later, stage, hsplit, hcompose, hleaf⟩
      exact ⟨earlier, last, later, hsplit, (hstage earlier last stage hcompose).mp hleaf⟩
  refine ⟨fun x hx => (stages x).mpr ?_, stages⟩
  exact ⟨imports, ⟨Layer.mainName, main⟩, [], c, rfl, composed, hx⟩

/-- A layer with a map in its palette. -/
def nestedBase : Layer := ⟨"base", [("palette", .map [("a", .map [("b", .text "#111111")])])]⟩

/-- A main document with a colour in the place of the map. -/
def flatMain : Fields := [("palette", .map [("a", .text "#222222")])]

/-- The leaf that was replaced has an origin, for it was a leaf of the first stage. -/
theorem replaced_leaf_was_a_leaf :
    SectionNames.Distinct {} ∧
      (∀ layer ∈ allLayers [nestedBase] flatMain, (Document.map layer.fields).Keyed) ∧
      ∃ c, compose {} [nestedBase] flatMain = .ok c ∧ ("palette.a.b" : Text) ∈ keys c.origins := by
  have distinct : SectionNames.Distinct {} := ⟨by decide, by decide, by decide⟩
  have keyed : ∀ layer ∈ allLayers [nestedBase] flatMain,
      (Document.map layer.fields).Keyed := by decide
  have hleaf : (Document.map [("a", .map [("b", .text "#111111")])]).HasLeaf
      [.key "a", .key "b"] := .field rfl (.field rfl (.scalar (.text "#111111")))
  obtain ⟨c, composed⟩ : ∃ c, compose {} [nestedBase] flatMain = .ok c := ⟨_, rfl⟩
  refine ⟨distinct, keyed, c, composed,
    ((mem_origins_iff distinct keyed composed).2 "palette.a.b").mpr ?_⟩
  exact ⟨[], nestedBase, [⟨Layer.mainName, flatMain⟩], _, rfl, rfl, "palette", by decide,
    [.key "a", .key "b"], ⟨_, rfl, hleaf⟩, rfl⟩

/-- **An origin can outlive its leaf.**  The main document replaces a map by a colour, and the leaf
of the map still has an origin. -/
theorem replaced_leaf_keeps_origin :
    ∃ c, compose {} [nestedBase] flatMain = .ok c ∧
      keys c.origins = (["palette.a.b", "palette.a"] : List Text) ∧
      ¬ SectionNames.LeafPath {} (fun name => get? name c.fields) "palette.a.b" := by
  obtain ⟨c, composed, horigins, hfields⟩ : ∃ c, compose {} [nestedBase] flatMain = .ok c ∧
      keys c.origins = (["palette.a.b", "palette.a"] : List Text) ∧ c.fields = flatMain :=
    ⟨_, rfl, rfl, rfl⟩
  refine ⟨c, composed, horigins, ?_⟩
  rw [hfields]
  rintro ⟨name, -, path, ⟨d, hd, hleaf⟩, hx⟩
  obtain ⟨hname, rfl⟩ : name = "palette" ∧ d = .map [("a", .text "#222222")] := by
    have hmem := pair_mem_of_get? hd
    simpa [flatMain] using hmem
  obtain ⟨key, rest, rfl, d, hget, hbelow⟩ := hasLeaf_map_iff.mp hleaf
  obtain ⟨hkey, rfl⟩ : key = "a" ∧ d = .text "#222222" := by
    have hmem := pair_mem_of_get? hget
    simpa using hmem
  obtain rfl := hasLeaf_scalar_iff.mp hbelow
  subst hname hkey
  revert hx
  decide

end Colourway
