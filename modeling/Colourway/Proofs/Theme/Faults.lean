import Colourway.Proofs.Layer.Staged
import Colourway.Proofs.Resolve.Stopped
import Colourway.Proofs.Theme.Whole

/-!
# Compilations that come upon a fault

A compilation comes upon a fault over an integer of too many digits that a carry mark or a reference
stands for, over a call, or over a theme that is a list, which it can be only if it shares its name
with another section (**`CompilerOptions.compile_fault`**).  The names of the imports come upon one
over a declaration that a message cannot show (`importList_fault_iff`).
-/

namespace Colourway

open Assoc Document Growth

/-! ## Imports that cannot be named -/

theorem refusedImports_fault_iff {d : Document} {f : Fault} :
    refusedImports d = .fault f ↔ f = .longInteger ∧ d.HoldsLong := by
  rw [← named?_eq_none_iff]
  unfold refusedImports
  cases d.named? <;> simp [eq_comm]

/-- Texts hold no integers. -/
theorem not_holdsLong_of_allTexts? : ∀ {items : List Document} {names : List Text},
    allTexts? items = some names → ¬ HoldsLong (.list items)
  | [], _, _ => by simp [holdsLong_list_iff]
  | d :: rest, _, h => by
    obtain ⟨s, hs, h⟩ := Option.bind_eq_some_iff.mp h
    obtain ⟨more, hrest, -⟩ := Option.bind_eq_some_iff.mp h
    have hlater := not_holdsLong_of_allTexts? hrest
    rw [holdsLong_list_iff] at hlater ⊢
    rintro ⟨e, he, held⟩
    rcases List.mem_cons.mp he with rfl | he
    · rw [eq_text_of_text? hs] at held
      cases held
    · exact hlater ⟨e, he, held⟩

/-- A declaration lists names or is refused. -/
theorem importList_cases (d : Document) :
    (∃ names, importList (some d) = .ok names ∧ ¬ d.HoldsLong) ∨
      importList (some d) = .error (refusedImports d) := by
  unfold importList
  split
  · next hnone => cases hnone
  · next hnull =>
    cases hnull
    exact .inl ⟨[], rfl, nofun⟩
  · next s htext =>
    cases htext
    exact .inl ⟨[s], rfl, nofun⟩
  · next items hitems =>
    cases hitems
    split
    · next names hnames => exact .inl ⟨names, rfl, not_holdsLong_of_allTexts? hnames⟩
    · exact .inr rfl
  · next hother =>
    cases hother
    exact .inr rfl

/-- **Which import declarations hold a fault.**  A declaration that is no list of texts is refused
with a message that shows it, which an integer of too many digits in it does not let be. -/
theorem importList_fault_iff {declared : Option Document} {f : Fault} :
    importList declared = .error (.fault f) ↔
      f = .longInteger ∧ ∃ d, declared = some d ∧ d.HoldsLong := by
  cases declared with
  | none => simp [importList]
  | some d =>
    simp only [Option.some.injEq, exists_eq_left']
    rcases importList_cases d with ⟨names, hnames, hshort⟩ | hrefused
    · simp [hnames, hshort]
    · rw [hrefused, Except.error.injEq, refusedImports_fault_iff]

/-! ## Themes that cannot be written -/

variable {flat : List Text} {config : Fields} {entries : List Entry} {f : Fault}

theorem outputSection_error {name : Text} (h : outputSection flat name entries = .error f) :
    f = .listForMap := by
  unfold outputSection nestedSection at h
  split at h
  · cases h
  · dsimp only at h
    split at h
    · cases h
    · exact (Except.error.inj h).symm

/-- Entries with paths can be told apart by their sections, so only a section can be at fault. -/
theorem assemble_error (paths : ∀ e ∈ entries, e.path ≠ [])
    (h : assemble flat config entries = .error f) : f = .listForMap := by
  obtain ⟨sections, hsections⟩ := exists_bySection paths
  unfold assemble at h
  rw [hsections] at h
  replace h : sections.foldlM
      (fun out s => do return Assoc.put s.1 (← outputSection flat s.1 s.2) out)
      (outputHead config) = .error f := h
  generalize outputHead config = out at h
  clear hsections
  induction sections generalizing out with
  | nil => cases h
  | cons s rest ih =>
    rw [List.foldlM_cons] at h
    rcases bind_eq_error_iff.mp h with hone | ⟨out', -, hrest⟩
    · rcases bind_eq_error_iff.mp hone with hsection | ⟨d, -, hd⟩
      · exact outputSection_error hsection
      · cases hd
    · exact ih _ hrest

/-- Entries in sections can be assembled. -/
theorem InSections.exists_assemble (named : InSections entries) (flat : List Text)
    (config : Fields) : ∃ out, assemble flat config entries = .ok out := by
  have paths : ∀ e ∈ entries, e.path ≠ [] := by
    intro e he
    obtain ⟨key, rest, hpath⟩ := named e he
    rw [hpath]
    exact List.cons_ne_nil _ _
  have written : ∀ name, entries.filter (Entry.isIn name) ≠ [] →
      ∃ d, outputSection flat name (entries.filter (Entry.isIn name)) = .ok d := by
    intro name hne
    have hbehind : leavesBehind (.key name)
        ((entries.filter (Entry.isIn name)).map Entry.leaf) ≠ [] := by
      rw [leavesBehind_filter named, leavesBehind_eq named]
      simpa using hne
    obtain ⟨d, hd⟩ := Option.ne_none_iff_exists'.mp (mt made?_eq_none_iff.mp hbehind)
    unfold outputSection
    split
    · exact ⟨_, rfl⟩
    · exact ⟨d, nestedSection_eq hd⟩
  obtain ⟨out, hout, -⟩ := Colourway.exists_assemble paths written config
  exact ⟨out, hout⟩

namespace CompilerOptions

variable {o : CompilerOptions} {c : Composition}

/-! ## The stages of a compilation -/

/-- The resolver of a compilation that may take steps. -/
def resolver (o : CompilerOptions) : Resolver := ⟨o.math, o.limit.toNat, o.names.palette⟩

/-- The entries that are resolved in a scope. -/
def entriesOf (o : CompilerOptions) (c : Composition) : Scope → List Entry
  | .palette => sectionEntries [.key o.names.palette] c.fields o.names.palette
  | .vars => sectionEntries [] c.fields o.names.vars
  | .theme => sectionEntries [] c.fields o.names.theme

/-- The store before a scope is resolved. -/
def storeAt (o : CompilerOptions) (c : Composition) (scope : Scope) : Store :=
  let withPalette := (o.resolver.evaluate {} .palette (o.entriesOf c .palette)).store
  match scope with
  | .palette => {}
  | .vars => withPalette
  | .theme => (o.resolver.evaluate withPalette .vars (o.entriesOf c .vars)).store

/-- The store that is left after a scope is resolved. -/
def storeAfter (o : CompilerOptions) (c : Composition) (scope : Scope) : Store :=
  (o.resolver.evaluate (o.storeAt c scope) scope (o.entriesOf c scope)).store

/-- A text that a compilation comes to in a scope. -/
def CameTo (o : CompilerOptions) (c : Composition) (scope : Scope) (value : Text) : Prop :=
  o.resolver.CameTo (o.storeAt c scope) scope (o.entriesOf c scope) value

/-- A layer that laying the layers over one another comes to, and stops at. -/
def StopsAt (o : CompilerOptions) (layers : List Layer) : Prop :=
  ∃ earlier layer later s, layers = earlier ++ layer :: later ∧
    earlier.foldlM (Stack.lay o.names) {} = .ok s ∧ s.Stops o.names layer

/-- A composed document comes upon a fault over a text that it comes to in one of its scopes, or
when the resolved theme is assembled. -/
theorem resolve_fault (limit : 1 ≤ o.limit) (h : o.resolve c = .error (.fault f)) :
    (∃ scope value, o.CameTo c scope value ∧
      o.resolver.StopsOver scope (o.storeAfter c scope) value f) ∨
    ∃ config entries, entries.map Entry.path = (o.entriesOf c .theme).map Entry.path ∧
      assemble o.flatSections config entries = .error f := by
  have hmake : Resolver.make o.math o.limit o.names.palette = .ok o.resolver := by
    rw [Resolver.make, if_neg (by omega)]
    rfl
  have hover : ∀ scope, (o.resolver.evaluate (o.storeAt c scope) scope
      (o.entriesOf c scope)).outcome = .error (.fault f) →
      ∃ scope value, o.CameTo c scope value ∧
        o.resolver.StopsOver scope (o.storeAfter c scope) value f := by
    intro scope hfault
    obtain ⟨value, hcame, hstops⟩ := Resolver.evaluate_fault hfault
    exact ⟨scope, value, hcame, hstops⟩
  unfold resolve at h
  rw [hmake] at h
  replace h := (bind_eq_error_iff.mp h).resolve_left nofun
  obtain ⟨r, hr, h⟩ := h
  cases hr
  rcases bind_eq_error_iff.mp h with hpalette | ⟨palette, -, h⟩
  · exact .inl (hover .palette hpalette)
  rcases bind_eq_error_iff.mp h with hvars | ⟨vars, -, h⟩
  · exact .inl (hover .vars hvars)
  rcases bind_eq_error_iff.mp h with htheme | ⟨entries, hentries, h⟩
  · exact .inl (hover .theme htheme)
  rcases bind_eq_error_iff.mp h with hassemble | ⟨out, -, hdone⟩
  · obtain ⟨g, hg, hf⟩ := mapError_eq_error_iff.mp hassemble
    cases hf
    exact .inr ⟨_, entries, Resolver.evaluate_paths hentries, hg⟩
  · cases hdone

/-- A theme that is no list has its entries in sections. -/
theorem inSections_entriesOf (h : ∀ items, c.fields.get? o.names.theme ≠ some (.list items))
    (paths : entries.map Entry.path = (o.entriesOf c .theme).map Entry.path) :
    InSections entries := by
  rw [entriesOf, sectionEntries] at paths
  cases htheme : c.fields.get? o.names.theme with
  | none =>
    rw [htheme] at paths
    obtain rfl : entries = [] := by simpa using paths
    exact fun e he => absurd he List.not_mem_nil
  | some d =>
    rw [htheme] at paths
    cases d with
    | scalar v =>
      obtain rfl : entries = [] := by simpa [entriesBelow] using paths
      exact fun e he => absurd he List.not_mem_nil
    | list items => exact absurd htheme (h items)
    | map fields => exact inSections_of_paths paths

/-- Only a theme that shares its name with another section can be a list. -/
theorem shared_of_list {imports : List Layer} {main : Fields} {items : List Document}
    (composed : o.compose imports main = .ok c)
    (h : c.fields.get? o.names.theme = some (.list items)) :
    o.names.theme = o.names.palette ∨ o.names.theme = o.names.vars := by
  by_contra hown
  obtain ⟨palette, vars⟩ := not_or.mp hown
  have hsettled := SectionNames.settled_sections (n := o.names) (allLayers imports main)
    o.names.theme
  rw [SectionNames.Settled, if_pos rfl] at hsettled
  have hsections := (get?_compose_theme palette vars composed).symm.trans h
  obtain ⟨first, fields, hmap, -⟩ := hsettled _ hsections
  cases hmap

/-- Entries of a theme that cannot be assembled are those of a list. -/
theorem list_of_assemble {config : Fields}
    (paths : entries.map Entry.path = (o.entriesOf c .theme).map Entry.path)
    (h : assemble o.flatSections config entries = .error f) :
    f = .listForMap ∧ ∃ items, c.fields.get? o.names.theme = some (.list items) := by
  by_cases hlist : ∃ items, c.fields.get? o.names.theme = some (.list items)
  · obtain ⟨items, hitems⟩ := hlist
    refine ⟨assemble_error (fun e he => ?_) h, items, hitems⟩
    have hpath : e.path ∈ (Document.list items).leaves.map Prod.fst := by
      rw [leaves_of_container rfl, map_fst_leaf]
      rw [entriesOf, sectionEntries, hitems] at paths
      change e.path ∈ ((Document.list items).entriesBelow []).map Entry.path
      exact paths ▸ List.mem_map_of_mem he
    obtain ⟨l, hl, hpath⟩ := List.mem_map.mp hpath
    rw [← hpath]
    exact path_ne_nil_of_mem_leaves rfl hl
  · obtain ⟨out, hout⟩ := (inSections_entriesOf (not_exists.mp hlist) paths).exists_assemble
      o.flatSections config
    rw [hout] at h
    cases h

/-- **What a compilation comes upon a fault over.**  If it may take steps, a compilation that ends
in a fault did not get past one of its layers, or came to a text whose next step stops, or its theme
is a list, under a name that it shares with the palette or the variables. -/
theorem compile_fault (limit : 1 ≤ o.limit) {imports : List Layer} {main : Fields}
    (h : o.compile imports main = .error (.fault f)) :
    (f = .longInteger ∧ o.StopsAt (allLayers imports main)) ∨
    ∃ c, o.compose imports main = .ok c ∧
      ((∃ scope value, o.CameTo c scope value ∧
          o.resolver.StopsOver scope (o.storeAfter c scope) value f) ∨
        (f = .listForMap ∧
          (∃ items, c.fields.get? o.names.theme = some (.list items)) ∧
          (o.names.theme = o.names.palette ∨ o.names.theme = o.names.vars))) := by
  rcases bind_eq_error_iff.mp h with hcompose | ⟨c, hcompose, hresolve⟩
  · obtain ⟨g, hg, hf⟩ := mapError_eq_error_iff.mp hcompose
    cases hf
    exact .inl (compose_error_iff.mp hg)
  · have composed := mapError_eq_ok_iff.mp hcompose
    refine .inr ⟨c, composed, ?_⟩
    rcases resolve_fault limit hresolve with hover | ⟨config, entries, paths, hassemble⟩
    · exact .inl hover
    · obtain ⟨hf, items, hitems⟩ := list_of_assemble paths hassemble
      exact .inr ⟨hf, ⟨items, hitems⟩, shared_of_list composed hitems⟩

/-- Layers that are not laid stop the compilation. -/
theorem compile_of_stopsAt {imports : List Layer} {main : Fields}
    (h : o.StopsAt (allLayers imports main)) :
    o.compile imports main = .error (.fault .longInteger) :=
  bind_eq_error_iff.mpr (.inl (mapError_eq_error_iff.mpr
    ⟨_, compose_error_iff.mpr ⟨rfl, h⟩, rfl⟩))

end CompilerOptions

end Colourway
