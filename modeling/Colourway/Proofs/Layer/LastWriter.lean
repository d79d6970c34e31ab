import Colourway.Proofs.Layer.Origins

/-!
# The last writer

An origin names a layer by a flat path.  Where no two paths that the layers write share a flat path
(`SectionNames.Apart`), it names the right one: the last layer that wrote the leaf
(**`origin_is_last_writer`**), whatever the layers before it did in that place.

`Writes` is the moment a layer writes a path, with the layers under it, since an appended item
stands where the earlier items end.  `get?_origins_foldlM` follows a flat path through a run.
-/

namespace Colourway

open Assoc Document Text

/-! ## Writers -/

/-- A layer that is laid over earlier ones writes a leaf of a composed section at the path. -/
def SectionNames.Writes (n : SectionNames) (path : Path) (earlier : List Layer) (layer : Layer) :
    Prop :=
  ∃ s, earlier.foldlM (Stack.lay n) {} = .ok s ∧
    ∃ name ∈ n.all, ∃ rest, path = .key name :: rest ∧
      n.Written name (get? name s.merged) (get? name layer.fields) rest

/-- A layer that is laid over earlier ones writes a leaf with this flat path. -/
def SectionNames.WritesFlat (n : SectionNames) (x : Text) (earlier : List Layer) (layer : Layer) :
    Prop :=
  ∃ path, n.Writes path earlier layer ∧ x = Path.flat path

/-- Different paths that layers write, in one layer or in two, have different flat paths. -/
def SectionNames.Apart (n : SectionNames) (layers : List Layer) : Prop :=
  ∀ earlier layer later, layers = earlier ++ layer :: later →
    ∀ earlier' layer' later', layers = earlier' ++ layer' :: later' →
      ∀ p q, n.Writes p earlier layer → n.Writes q earlier' layer' →
        Path.flat p = Path.flat q → p = q

/-- The last layer with a property that may depend on the layers under it. -/
def LastWith (P : List Layer → Layer → Prop) (layers : List Layer) (last : Layer) : Prop :=
  ∃ earlier later, layers = earlier ++ last :: later ∧ P earlier last ∧
    ∀ between next after, later = between ++ next :: after →
      ¬ P (earlier ++ last :: between) next

theorem lastWith_append {P : List Layer → Layer → Prop} {layers : List Layer}
    {layer last : Layer} :
    LastWith P (layers ++ [layer]) last ↔
      P layers layer ∧ last = layer ∨ ¬ P layers layer ∧ LastWith P layers last := by
  constructor
  · rintro ⟨earlier, later, hsplit, hp, hnone⟩
    rcases List.eq_nil_or_concat later with rfl | ⟨later, final, rfl⟩
    · obtain ⟨rfl, rfl⟩ : layers = earlier ∧ layer = last := by simpa using hsplit
      exact Or.inl ⟨hp, rfl⟩
    · rw [List.concat_eq_append, ← List.cons_append, ← List.append_assoc] at hsplit
      obtain ⟨rfl, hfinal⟩ := List.append_inj' hsplit rfl
      obtain rfl : layer = final := by simpa using hfinal
      refine Or.inr ⟨hnone later layer [] (by simp), earlier, later, rfl, hp, ?_⟩
      rintro between next after rfl
      exact hnone between next (after ++ [layer]) (by simp)
  · rintro (⟨hp, rfl⟩ | ⟨hno, earlier, later, rfl, hp, hnone⟩)
    · exact ⟨layers, [], rfl, hp, by simp⟩
    · refine ⟨earlier, later ++ [layer], by simp, hp, ?_⟩
      intro between next after hsplit
      rcases List.eq_nil_or_concat after with rfl | ⟨after, final, rfl⟩
      · obtain ⟨rfl, rfl⟩ : later = between ∧ layer = next := by simpa using hsplit
        exact hno
      · rw [List.concat_eq_append, ← List.cons_append, ← List.append_assoc] at hsplit
        obtain ⟨rfl, -⟩ := List.append_inj' hsplit rfl
        exact hnone between next after rfl

/-- The last layer is the same for properties that agree on the layers of the list. -/
theorem LastWith.congr {P Q : List Layer → Layer → Prop} {layers : List Layer} {last : Layer}
    (h : LastWith P layers last)
    (same : ∀ earlier layer later, layers = earlier ++ layer :: later →
      (Q earlier layer ↔ P earlier layer)) : LastWith Q layers last := by
  obtain ⟨earlier, later, rfl, hp, hnone⟩ := h
  refine ⟨earlier, later, rfl, (same earlier last later rfl).mpr hp, ?_⟩
  rintro between next after rfl
  rw [same (earlier ++ last :: between) next after (by simp)]
  exact hnone between next after rfl

/-! ## The written paths as a list -/

/-- The paths at which a layer writes leaves to the palette or the variables. -/
def sectionPaths : Option Document → List Path
  | none => []
  | some d => if d.isVoid then [] else d.leafPaths []

/-- The paths at which a section of a theme writes leaves. -/
def fieldPaths (prior : Option Document) : Document → List Path
  | .list items => (itemEntries [] (itemCount prior) items).map Entry.path
  | d => d.leafPaths []

/-- The paths at which a layer writes leaves to the theme. -/
def themePaths (prior incoming : Option Document) : List Path :=
  (fieldsOf incoming).flatMap fun f =>
    (fieldPaths (get? f.1 (fieldsOf prior)) f.2).map (.key f.1 :: ·)

/-- The paths at which a layer that is laid over a stack writes leaves. -/
def SectionNames.pathsOver (n : SectionNames) (s : Stack) (layer : Layer) : List Path :=
  n.all.flatMap fun name =>
    let prior := get? name s.merged
    let incoming := get? name layer.fields
    (if name = n.theme then themePaths prior incoming else sectionPaths incoming).map
      (.key name :: ·)

/-- The paths at which a layer that is laid over earlier ones writes leaves. -/
def SectionNames.writtenPaths (n : SectionNames) (earlier : List Layer) (layer : Layer) :
    List Path :=
  match earlier.foldlM (Stack.lay n) {} with
  | .ok s => n.pathsOver s layer
  | .error _ => []

/-- The paths at which layers write leaves when they are laid over earlier ones. -/
def SectionNames.allWrittenPaths (n : SectionNames) (earlier : List Layer) :
    List Layer → List Path
  | [] => []
  | layer :: later => n.writtenPaths earlier layer ++ n.allWrittenPaths (earlier ++ [layer]) later

section Paths

variable {prior incoming : Option Document} {path : Path}

theorem mem_sectionPaths (keyed : ∀ d, incoming = some d → d.Keyed) :
    path ∈ sectionPaths incoming ↔ SectionWritten incoming path := by
  cases incoming with
  | none => simp [sectionPaths, SectionWritten]
  | some d =>
    have hleaf : path ∈ d.leafPaths [] ↔ ∃ rest, d.HasLeaf rest ∧ path = [] ++ rest :=
      mem_leafPaths (keyed d rfl)
    by_cases hv : d.isVoid = true <;> simp [sectionPaths, SectionWritten, hv, hleaf]

theorem mem_fieldPaths {d : Document} (keyed : d.Keyed) :
    path ∈ fieldPaths prior d ↔ FieldWritten prior d path := by
  cases d with
  | scalar v => simp [fieldPaths, FieldWritten, mem_leafPaths keyed]
  | map fields => simp [fieldPaths, FieldWritten, mem_leafPaths keyed]
  | list items =>
    rw [fieldPaths, mem_paths_itemEntries, FieldWritten]
    constructor
    · rintro ⟨i, d, hd, hpath⟩
      have hitem : d.Keyed := keyed.item (List.mem_of_getElem? hd)
      obtain ⟨rest, hleaf, rfl⟩ := (mem_leafPaths hitem).mp hpath
      exact ⟨i, rest, ⟨d, hd, hleaf⟩, rfl⟩
    · rintro ⟨i, rest, ⟨d, hd, hleaf⟩, rfl⟩
      have hitem : d.Keyed := keyed.item (List.mem_of_getElem? hd)
      exact ⟨i, d, hd, (mem_leafPaths hitem).mpr ⟨rest, hleaf, rfl⟩⟩

theorem mem_themePaths (keyed : ∀ d, incoming = some d → d.Keyed) :
    path ∈ themePaths prior incoming ↔ ThemeWritten prior incoming path := by
  have hfields := Keyed.fieldsOf keyed
  simp only [themePaths, List.mem_flatMap, List.mem_map]
  constructor
  · rintro ⟨f, hf, rest, hrest, rfl⟩
    have hget := get?_of_pair_mem hfields.once hf
    exact ⟨f.1, f.2, rest, hget, (mem_fieldPaths (hfields.field hget)).mp hrest, rfl⟩
  · rintro ⟨key, d, rest, hget, hw, rfl⟩
    have hmem := pair_mem_of_get? hget
    exact ⟨(key, d), hmem, rest, (mem_fieldPaths (hfields.field hget)).mpr hw, rfl⟩

theorem mem_pathsOver {n : SectionNames} (s : Stack) {layer : Layer}
    (keyed : (Document.map layer.fields).Keyed) :
    path ∈ n.pathsOver s layer ↔ ∃ name ∈ n.all, ∃ rest, path = .key name :: rest ∧
      n.Written name (get? name s.merged) (get? name layer.fields) rest := by
  have hmem : ∀ name rest,
      rest ∈ (if name = n.theme then themePaths (get? name s.merged) (get? name layer.fields)
        else sectionPaths (get? name layer.fields)) ↔
      n.Written name (get? name s.merged) (get? name layer.fields) rest := by
    intro name rest
    have hsection : ∀ d, get? name layer.fields = some d → d.Keyed := fun _ hd => keyed.field hd
    unfold SectionNames.Written
    by_cases ht : name = n.theme
    · simp only [ht, if_true] at hsection ⊢
      exact mem_themePaths hsection
    · simp only [ht, if_false]
      exact mem_sectionPaths hsection
  simp only [SectionNames.pathsOver, List.mem_flatMap, List.mem_map, hmem]
  refine exists_congr fun name => and_congr_right fun _ => exists_congr fun rest => ?_
  rw [and_comm, eq_comm]

theorem mem_writtenPaths {n : SectionNames} (earlier : List Layer) {layer : Layer}
    (keyed : (Document.map layer.fields).Keyed) :
    path ∈ n.writtenPaths earlier layer ↔ n.Writes path earlier layer := by
  unfold SectionNames.writtenPaths SectionNames.Writes
  cases earlier.foldlM (Stack.lay n) {} with
  | error f => simp
  | ok s => simp [mem_pathsOver s keyed]

theorem mem_allWrittenPaths {n : SectionNames} {layers : List Layer}
    (keyed : ∀ layer ∈ layers, (Document.map layer.fields).Keyed) (earlier : List Layer) :
    path ∈ n.allWrittenPaths earlier layers ↔
      ∃ between layer later, layers = between ++ layer :: later ∧
        n.Writes path (earlier ++ between) layer := by
  induction layers generalizing earlier with
  | nil => simp [SectionNames.allWrittenPaths]
  | cons first rest ih =>
    obtain ⟨hfirst, hrest⟩ := List.forall_mem_cons.mp keyed
    rw [SectionNames.allWrittenPaths, List.mem_append, mem_writtenPaths earlier hfirst, ih hrest]
    constructor
    · rintro (hw | ⟨between, layer, later, rfl, hw⟩)
      · exact ⟨[], first, rest, rfl, by simpa using hw⟩
      · exact ⟨first :: between, layer, later, rfl, by simpa using hw⟩
    · rintro ⟨between, layer, later, hsplit, hw⟩
      cases between with
      | nil =>
        obtain ⟨rfl, rfl⟩ := List.cons.inj hsplit
        exact Or.inl (by simpa using hw)
      | cons head between =>
        obtain ⟨rfl, rfl⟩ := List.cons.inj hsplit
        exact Or.inr ⟨between, layer, later, rfl, by simpa using hw⟩

end Paths

/-- Whether paths are apart shows in their list. -/
theorem apart_iff {n : SectionNames} {layers : List Layer}
    (keyed : ∀ layer ∈ layers, (Document.map layer.fields).Keyed) :
    n.Apart layers ↔ ∀ p ∈ n.allWrittenPaths [] layers, ∀ q ∈ n.allWrittenPaths [] layers,
      Path.flat p = Path.flat q → p = q := by
  simp only [mem_allWrittenPaths keyed, List.nil_append]
  constructor
  · rintro apart p ⟨earlier, layer, later, hlayers, hp⟩ q ⟨earlier', layer', later', hlayers', hq⟩
    exact apart earlier layer later hlayers earlier' layer' later' hlayers' p q hp hq
  · intro h earlier layer later hlayers earlier' layer' later' hlayers' p q hp hq
    exact h p ⟨earlier, layer, later, hlayers, hp⟩ q ⟨earlier', layer', later', hlayers', hq⟩

/-! ## A run over layers -/

section Runs

variable {n : SectionNames} (distinct : n.Distinct)

include distinct

/-- What a layer writes and what it notes are the same flat paths. -/
theorem noted_writesFlat {layers : List Layer} {layer : Layer} {s s' : Stack}
    (keyed : (Document.map layer.fields).Keyed) (below : layers.foldlM (Stack.lay n) {} = .ok s)
    (h : s.lay n layer = .ok s') :
    Noted layer.name (fun x => n.WritesFlat x layers layer) s.origins s'.origins := by
  refine (noted_lay distinct keyed h).congr fun x => ?_
  constructor
  · rintro ⟨_, ⟨_, hs, name, hm, rest, rfl, hw⟩, rfl⟩
    obtain rfl := Except.ok.inj (below.symm.trans hs)
    exact ⟨name, hm, rest, hw, rfl⟩
  · rintro ⟨name, hm, rest, hw, rfl⟩
    exact ⟨_, ⟨s, below, name, hm, rest, rfl, hw⟩, rfl⟩

/-- The origin at a flat path is the last layer that wrote a leaf with it. -/
theorem get?_origins_foldlM {layers : List Layer}
    (keyed : ∀ layer ∈ layers, (Document.map layer.fields).Keyed) {s : Stack}
    (laid : layers.foldlM (Stack.lay n) {} = .ok s) {x : Text} {last : Layer}
    (h : LastWith (n.WritesFlat x) layers last) : get? x s.origins = some last.name := by
  induction layers using List.reverseRecOn generalizing s with
  | nil =>
    obtain ⟨earlier, later, hsplit, -⟩ := h
    simp at hsplit
  | append_singleton layers layer ih =>
    obtain ⟨hlayers, hlayer⟩ := List.forall_mem_append.mp keyed
    obtain ⟨below, hbelow, hlast⟩ := foldlM_append_eq_ok_iff.mp laid
    rw [foldlM_singleton] at hlast
    have hnoted := noted_writesFlat distinct (hlayer layer List.mem_cons_self) hbelow hlast
    rcases lastWith_append.mp h with ⟨hw, rfl⟩ | ⟨hno, hbefore⟩
    · exact hnoted.get?_eq hw
    · rw [hnoted.get?_eq_of_not hno]
      exact ih hlayers hbelow hbefore

/-- Every leaf of a composed section was written, so it has a last writer. -/
theorem exists_last_writer {layers : List Layer}
    (keyed : ∀ layer ∈ layers, (Document.map layer.fields).Keyed) {s : Stack}
    (laid : layers.foldlM (Stack.lay n) {} = .ok s) {name : Text} (hm : name ∈ n.all)
    {path : Path} (h : HasLeaf? (n.sections layers name) path) :
    ∃ last, LastWith (n.Writes (.key name :: path)) layers last := by
  induction layers using List.reverseRecOn generalizing s with
  | nil => simp at h
  | append_singleton layers layer ih =>
    obtain ⟨hlayers, hlayer⟩ := List.forall_mem_append.mp keyed
    have hkeyed : (Document.map layer.fields).Keyed := hlayer layer List.mem_cons_self
    obtain ⟨below, hbelow, -⟩ := foldlM_append_eq_ok_iff.mp laid
    by_cases hw : n.Writes (.key name :: path) layers layer
    · exact ⟨layer, lastWith_append.mpr (Or.inl ⟨hw, rfl⟩)⟩
    · -- The layer did not write the leaf, so it was there before, and was written before.
      rw [SectionNames.sections_append] at h
      rcases written_of_hasLeaf (fun _ hd => hkeyed.field hd) h with hbefore | hwritten
      · obtain ⟨last, hlast⟩ := ih hlayers hbelow hbefore
        exact ⟨last, lastWith_append.mpr (Or.inr ⟨hw, hlast⟩)⟩
      · refine absurd ⟨below, hbelow, name, hm, path, rfl, ?_⟩ hw
        rwa [get?_stack distinct hm hbelow]

end Runs

/-- **An origin names the last writer.**  Where different paths that the layers write have different
flat paths, the origin at a leaf of a composed section is the name of the last layer that wrote it,
be it in an appended item of a list, in a list below a map or where an earlier layer had put
something else. -/
theorem origin_is_last_writer {n : SectionNames} (distinct : n.Distinct) {imports : List Layer}
    {main : Fields} (keyed : ∀ layer ∈ allLayers imports main, (Document.map layer.fields).Keyed)
    (apart : n.Apart (allLayers imports main)) {c : Composition}
    (composed : compose n imports main = .ok c) {name : Text} (hm : name ∈ n.all) {path : Path}
    (leaf : HasLeaf? (get? name c.fields) path) :
    ∃ last, LastWith (n.Writes (.key name :: path)) (allLayers imports main) last ∧
      get? (Path.flat (.key name :: path)) c.origins = some last.name := by
  obtain ⟨s, hs, hc⟩ := exists_stack composed
  have horigins : c.origins = s.origins := by rw [hc]
  rw [get?_compose distinct hm composed] at leaf
  obtain ⟨last, hlast⟩ := exists_last_writer distinct keyed hs hm leaf
  have hflat : LastWith (n.WritesFlat (Path.flat (.key name :: path))) (allLayers imports main)
      last := by
    refine hlast.congr fun earlier layer later hsplit => ?_
    obtain ⟨before, after, hlayers, hwrites, -⟩ := hlast
    constructor
    · rintro ⟨q, hq, hsame⟩
      rwa [apart before last after hlayers earlier layer later hsplit _ q hwrites hq hsame]
    · exact fun hw => ⟨_, hw, rfl⟩
  rw [horigins]
  exact ⟨last, hlast, get?_origins_foldlM distinct keyed hs hflat⟩

/-- A layer with a map in its palette and a rule. -/
def mapAndRule : Layer :=
  ⟨"base", [("palette", .map [("a", .map [("b", .text "#111111")])]),
    ("theme", .map [("rules", .list [.text "x"])])]⟩

/-- A layer with a colour in the place of the map. -/
def colourForMap : Layer := ⟨"flat", [("palette", .map [("a", .text "#222222")])]⟩

/-- A main document with the map again, and one more rule. -/
def mapAgain : Fields :=
  [("palette", .map [("a", .map [("b", .text "#333333")])]),
    ("theme", .map [("rules", .list [.map [("scope", .text "y")]])])]

/-- The leaf that one layer removed and a later one wrote again belongs to the later one; so does
the leaf of the appended item, and the item before it belongs to the first layer. -/
theorem rewritten_leaf_origin :
    SectionNames.Distinct {} ∧
      (∀ layer ∈ allLayers [mapAndRule, colourForMap] mapAgain,
        (Document.map layer.fields).Keyed) ∧
      SectionNames.Apart {} (allLayers [mapAndRule, colourForMap] mapAgain) ∧
      ∃ c, compose {} [mapAndRule, colourForMap] mapAgain = .ok c ∧
        (∃ last, LastWith (SectionNames.Writes {} [.key "palette", .key "a", .key "b"])
            (allLayers [mapAndRule, colourForMap] mapAgain) last ∧
          get? (Path.flat [.key "palette", .key "a", .key "b"]) c.origins = some last.name) ∧
        c.origins =
          ([("palette.a.b", "<main>"), ("theme.rules.0", "base"), ("palette.a", "flat"),
            ("theme.rules.1.scope", "<main>")] : List (Text × Text)) := by
  have distinct : SectionNames.Distinct {} := ⟨by decide, by decide, by decide⟩
  have keyed : ∀ layer ∈ allLayers [mapAndRule, colourForMap] mapAgain,
      (Document.map layer.fields).Keyed := by decide
  have apart : SectionNames.Apart {} (allLayers [mapAndRule, colourForMap] mapAgain) :=
    (apart_iff keyed).mpr (by decide)
  have hmap : (Document.map [("a", .map [("b", .text "#333333")])]).HasLeaf
      [.key "a", .key "b"] := .field rfl (.field rfl (.scalar (.text "#333333")))
  obtain ⟨c, composed, hpalette, horigins⟩ :
      ∃ c, compose {} [mapAndRule, colourForMap] mapAgain = .ok c ∧
        get? ("palette" : Text) c.fields =
          some (.map [("a", .map [("b", .text "#333333")])]) ∧
        c.origins = ([("palette.a.b", "<main>"), ("theme.rules.0", "base"), ("palette.a", "flat"),
          ("theme.rules.1.scope", "<main>")] : List (Text × Text)) := ⟨_, rfl, rfl, rfl⟩
  have hleaf : HasLeaf? (get? ("palette" : Text) c.fields) [.key "a", .key "b"] :=
    ⟨_, hpalette, hmap⟩
  exact ⟨distinct, keyed, apart, c, composed,
    origin_is_last_writer distinct keyed apart composed (by decide) hleaf, horigins⟩

end Colourway
