import Colourway.Proofs.Document.Refilled
import Colourway.Proofs.Theme.Assembled

/-!
# Assembled sections and the whole theme

Assembling puts each section together from its own entries.  The theme as a whole can be put
together too, and its part under the name of a section is the same document, since both are made of
the leaves behind that name (`nestedSection_eq`, `field?_ofEntries`).

Main statement: for the entries of a leafy document with new scalars, the output has for each
section that part of the whole theme, flattened where the section is written flat, and the custom
and header fields elsewhere (**`assemble_whole`**).
-/

namespace Colourway

open Assoc Growth

/-! ## Head of the output -/

/-- The fields that the configuration adds to the output. -/
def customFields (config : Fields) : Fields :=
  ((config.get? "custom").bind Document.fields?).getD []

theorem keyed_customFields {config : Fields} (keyed : (Document.map config).Keyed) :
    (keys (customFields config)).Nodup := by
  unfold customFields
  cases hcustom : config.get? "custom" with
  | none => simp [keys]
  | some d =>
    have hd := keyed.field hcustom
    cases d with
    | scalar v => simp [Document.fields?, keys]
    | list items => simp [Document.fields?, keys]
    | map fields => exact hd.once

/-- What is taken over of some keys. -/
theorem get?_taken (names : List Text) (config : Fields) (name : Text) :
    get? name (names.filterMap fun k => (config.get? k).map (k, ·)) =
      if name ∈ names then config.get? name else none := by
  induction names with
  | nil => simp [get?]
  | cons k rest ih =>
    cases hk : config.get? k with
    | none =>
      by_cases hname : name = k
      · subst hname
        simp [hk, ih]
      · simp [hk, ih, hname]
    | some d =>
      by_cases hname : name = k
      · subst hname
        simp [hk, get?]
      · simp [hk, get?, ih, hname, Ne.symm hname]

/-- Custom fields win over header fields. -/
theorem get?_outputHead {config : Fields} (keyed : (Document.map config).Keyed) (name : Text) :
    get? name (outputHead config) =
      ((customFields config).get? name).or
        (if name ∈ headerKeys then config.get? name else none) := by
  rw [outputHead, ← customFields, get?_putAll, last?_of_nodup (keyed_customFields keyed),
    get?_taken]

theorem nodup_outputHead (config : Fields) : (keys (outputHead config)).Nodup := by
  refine nodup_putAll ?_ _
  have hsub : ∀ names : List Text,
      (keys (names.filterMap fun k => (config.get? k).map (k, ·))).Sublist names := by
    intro names
    induction names with
    | nil => exact List.Sublist.refl _
    | cons k rest ih =>
      cases hk : config.get? k with
      | none => simpa [hk] using ih.cons k
      | some d => simpa [hk, keys] using ih
  exact List.Nodup.sublist (hsub headerKeys) (by decide)

/-! ## No entry is refused -/

theorem exists_bySection {entries : List Entry} (paths : ∀ e ∈ entries, e.path ≠ []) :
    ∃ sections, bySection entries = .ok sections := by
  induction entries using List.reverseRecOn with
  | nil => exact ⟨[], rfl⟩
  | append_singleton entries e ih =>
    obtain ⟨earlier, hearlier⟩ := ih fun e' he' => paths e' (List.mem_append_left _ he')
    obtain ⟨s, rest, hpath⟩ := List.exists_cons_of_ne_nil (paths e (by simp))
    refine ⟨put s.text ((get? s.text earlier).getD [] ++ [e]) earlier, ?_⟩
    unfold bySection at hearlier ⊢
    rw [List.foldlM_append, hearlier]
    simp only [List.foldlM_cons, List.foldlM_nil, hpath]
    rfl

/-- Where each group makes a section, all of the output is made. -/
theorem exists_foldlM_outputSection {flat : List Text} {sections : List (Text × List Entry)}
    (total : ∀ s ∈ sections, ∃ d, outputSection flat s.1 s.2 = .ok d) (start : Fields)
    (once : (keys start).Nodup) :
    ∃ out, sections.foldlM
      (fun out s => do return Assoc.put s.1 (← outputSection flat s.1 s.2) out) start = .ok out ∧
        (keys out).Nodup := by
  induction sections generalizing start with
  | nil => exact ⟨start, rfl, once⟩
  | cons s rest ih =>
    obtain ⟨⟨d, hd⟩, hrest⟩ := List.forall_mem_cons.mp total
    obtain ⟨out, hout, honce⟩ := ih hrest (put s.1 d start) (nodup_keys_put once)
    refine ⟨out, ?_, honce⟩
    rw [List.foldlM_cons, hd]
    exact hout

/-- If each section can be written, then so can the output, with different keys. -/
theorem exists_assemble {flat : List Text} {entries : List Entry}
    (paths : ∀ e ∈ entries, e.path ≠ [])
    (written : ∀ name, entries.filter (Entry.isIn name) ≠ [] →
      ∃ d, outputSection flat name (entries.filter (Entry.isIn name)) = .ok d) (config : Fields) :
    ∃ out, assemble flat config entries = .ok out ∧ (keys out).Nodup := by
  obtain ⟨sections, hsections⟩ := exists_bySection paths
  have total : ∀ s ∈ sections, ∃ d, outputSection flat s.1 s.2 = .ok d := by
    intro s hs
    have hget := get?_of_pair_mem (nodup_keys_bySection hsections) hs
    rw [get?_bySection hsections] at hget
    split at hget
    · cases hget
    · next hne =>
      rw [← Option.some.inj hget]
      exact written s.1 hne
  obtain ⟨out, hrun, once⟩ := exists_foldlM_outputSection total (outputHead config)
    (nodup_outputHead config)
  refine ⟨out, ?_, once⟩
  unfold assemble
  rw [hsections]
  exact hrun

/-- What has no entries comes from the configuration. -/
theorem get?_assemble_of_nil {flat : List Text} {config : Fields} {entries : List Entry}
    {out : Fields} (h : assemble flat config entries = .ok out) {name : Text}
    (hnil : entries.filter (Entry.isIn name) = []) :
    get? name out = get? name (outputHead config) := by
  obtain ⟨sections, hsections, hrun⟩ := bind_eq_ok_iff.mp h
  rcases get?_foldlM_outputSection (nodup_keys_bySection hsections) hrun name with
    ⟨-, hget⟩ | ⟨group, d, hgroup, -, -⟩
  · exact hget
  · rw [get?_bySection hsections, if_pos hnil] at hgroup
    cases hgroup

/-! ## Sections and the whole -/

/-- The entries stand in sections that are named by keys. -/
def InSections (entries : List Entry) : Prop :=
  ∀ e ∈ entries, ∃ name rest, e.path = .key name :: rest

/-- The leaves behind the name of a section are its entries without the name. -/
theorem leavesBehind_eq {entries : List Entry} (named : InSections entries) (name : Text) :
    leavesBehind (.key name) (entries.map Entry.leaf) =
      (entries.filter (Entry.isIn name)).map fun e => (e.path.drop 1, e.value) := by
  induction entries with
  | nil => rfl
  | cons e rest ih =>
    obtain ⟨hnamed, hrest⟩ := List.forall_mem_cons.mp named
    obtain ⟨key, below, hpath⟩ := hnamed
    have hlater := ih hrest
    rw [leavesBehind, List.filterMap_map] at hlater ⊢
    by_cases hkey : key = name
    · simpa [Entry.leaf, Entry.isIn, hpath, Path.behind?, Segment.text, hkey] using hlater
    · simpa [Entry.leaf, Entry.isIn, hpath, Path.behind?, Segment.text, hkey] using hlater

/-- The leaves behind a name are all in the section. -/
theorem leavesBehind_filter {entries : List Entry} (named : InSections entries) (name : Text) :
    leavesBehind (.key name) ((entries.filter (Entry.isIn name)).map Entry.leaf) =
      leavesBehind (.key name) (entries.map Entry.leaf) := by
  have hgroup : InSections (entries.filter (Entry.isIn name)) :=
    fun e he => named e (List.mem_of_mem_filter he)
  rw [leavesBehind_eq named, leavesBehind_eq hgroup, List.filter_filter]
  simp

/-- A section is what the leaves behind its name make. -/
theorem nestedSection_eq {name : Text} {entries : List Entry} {d : Document}
    (h : made? (leavesBehind (.key name) (entries.map Entry.leaf)) = some d) :
    nestedSection name entries = .ok d := by
  obtain ⟨g, hg, rfl⟩ := Option.map_eq_some_iff.mp h
  have hget : get? (.key name) (Growth.ofEntries entries) = some g := by
    rw [ofEntries_eq_grow, get?_grow]
    exact hg
  simp only [nestedSection, hget]

/-- And so is the part of the whole document under this name. -/
theorem field?_ofEntries {entries : List Entry} (named : InSections entries) (name : Text) :
    (Document.ofEntries entries).field? name =
      made? (leavesBehind (.key name) (entries.map Entry.leaf)) := by
  have hkeys : ∀ c ∈ madeParts (entries.map Entry.leaf), c.1.isIndex = false := by
    intro c hc
    obtain ⟨rest, hrest⟩ := Path.mem_heads.mp (mem_keys_madeParts.mp (List.mem_map_of_mem hc))
    obtain ⟨l, hl, hpath⟩ := List.mem_map.mp hrest
    obtain ⟨e, he, rfl⟩ := List.mem_map.mp hl
    obtain ⟨key, rest', hkey⟩ := named e he
    obtain ⟨hhead, -⟩ := List.cons.inj (hpath.symm.trans hkey)
    rw [hhead]
    rfl
  rw [ofEntries_eq_close, close_of_keys hkeys, Document.field?, ← get?_madeParts,
    ← get?_map_text hkeys]
  rfl

/-- A flat section is the flattened part of the whole. -/
theorem flatSection_eq {group : List Entry} (hne : group ≠ [])
    (below : ∀ e ∈ group, keyBelowSection e = true) {part : Document}
    (hleaves : part.leaves = group.map fun e => (e.path.drop 1, e.value)) :
    flatSection group = .map part.flatten := by
  have container : part.isContainer = true := by
    cases part with
    | list items => rfl
    | map fields => rfl
    | scalar v =>
      -- Its leaf has no path, but each entry has a key below the section.
      obtain ⟨e, he⟩ := List.exists_mem_of_ne_nil group hne
      have hmem : (e.path.drop 1, e.value) ∈ (Document.scalar v).leaves := by
        rw [hleaves]
        exact List.mem_map_of_mem he
      have hdrop : e.path.drop 1 = [] := by simpa using (Prod.mk.inj (List.mem_singleton.mp hmem)).1
      have hkey := below e he
      rcases hpath : e.path with - | ⟨s, - | ⟨t, rest⟩⟩ <;> simp_all [keyBelowSection]
  have hpairs : part.entries.map (fun e => (e.flat, e.value)) =
      group.map fun e => (Path.flat (e.path.drop 1), e.value) := by
    have hmap := congrArg (List.map fun l : Leaf => (Path.flat l.1, l.2)) hleaves
    rw [Document.leaves_of_container container, List.map_map, List.map_map] at hmap
    exact hmap
  rw [flatSection, Document.flatten, hpairs]

section Theme

variable {doc : Fields} {entries : List Entry}

theorem inSections_of_paths
    (paths : entries.map Entry.path = (Document.map doc).entries.map Entry.path) :
    InSections entries := by
  intro e he
  have hmem : e.path ∈ (Document.map doc).leaves.map Prod.fst := by
    rw [Document.leaves_of_container rfl, map_fst_leaf, ← paths]
    exact List.mem_map_of_mem he
  obtain ⟨l, hl, hpath⟩ := List.mem_map.mp hmem
  rw [Document.leaves_eq_flatMap rfl] at hl
  obtain ⟨c, hc, hunder⟩ := List.mem_flatMap.mp hl
  obtain ⟨f, -, rfl⟩ := List.mem_map.mp hc
  obtain ⟨l', -, rfl⟩ := List.mem_map.mp hunder
  exact ⟨f.1, l'.1, hpath.symm⟩

/-- The part of the whole under the name of a section has the entries of the section as its
leaves. -/
theorem exists_section (keyed : (Document.map doc).Keyed) (leafy : (Document.map doc).Leafy)
    (paths : entries.map Entry.path = (Document.map doc).entries.map Entry.path)
    (scalars : ∀ e ∈ entries, ∃ v, e.value = .scalar v) {name : Text}
    (hne : entries.filter (Entry.isIn name) ≠ []) :
    ∃ part, made? (leavesBehind (.key name) (entries.map Entry.leaf)) = some part ∧
      part.leaves = leavesBehind (.key name) (entries.map Entry.leaf) := by
  have named := inSections_of_paths paths
  have hbehind : leavesBehind (.key name) (entries.map Entry.leaf) ≠ [] := by
    rw [leavesBehind_eq named]
    simpa using hne
  obtain ⟨part, hpart⟩ := Option.ne_none_iff_exists'.mp (mt made?_eq_none_iff.mp hbehind)
  have hpaths : (leavesBehind (.key name) (entries.map Entry.leaf)).map Prod.fst =
      (leavesBehind (.key name) (Document.map doc).leaves).map Prod.fst := by
    rw [map_fst_leavesBehind, map_fst_leavesBehind, map_fst_leaf, paths,
      Document.leaves_of_container rfl, map_fst_leaf]
  rw [Document.leavesBehind_leaves keyed rfl] at hpaths
  cases hget : get? (.key name) (Document.map doc).parts with
  | none =>
    rw [hget] at hpaths
    exact absurd (List.map_eq_nil_iff.mp hpaths) hbehind
  | some d =>
    have hmem := pair_mem_of_get? hget
    rw [hget] at hpaths
    have scalars' : OfScalars (entries.map Entry.leaf) := List.forall_mem_map.mpr scalars
    refine ⟨part, hpart, Document.leaves_made_of_paths (keyed.part hmem) (leafy.part hmem) hpaths
      (scalars'.behind _) hpart⟩

/-- A section is written as the part of the whole under its name, flattened if it is a flat section
and all its entries have a key below it. -/
theorem outputSection_whole (keyed : (Document.map doc).Keyed) (leafy : (Document.map doc).Leafy)
    (paths : entries.map Entry.path = (Document.map doc).entries.map Entry.path)
    (scalars : ∀ e ∈ entries, ∃ v, e.value = .scalar v) (flat : List Text) {name : Text}
    (hne : entries.filter (Entry.isIn name) ≠ []) :
    ∃ part, (Document.ofEntries entries).field? name = some part ∧
      outputSection flat name (entries.filter (Entry.isIn name)) = .ok
        (if name ∈ flat ∧ ∀ e ∈ entries.filter (Entry.isIn name), keyBelowSection e = true
          then .map part.flatten else part) := by
  have named := inSections_of_paths paths
  obtain ⟨part, hpart, hleaves⟩ := exists_section keyed leafy paths scalars hne
  refine ⟨part, (field?_ofEntries named name).trans hpart, ?_⟩
  rw [leavesBehind_eq named] at hleaves
  have hflat : (flat.contains name &&
      (entries.filter (Entry.isIn name)).all keyBelowSection) = true ↔
        name ∈ flat ∧ ∀ e ∈ entries.filter (Entry.isIn name), keyBelowSection e = true := by
    rw [Bool.and_eq_true, List.contains_iff_mem, List.all_eq_true]
  unfold outputSection
  by_cases h : name ∈ flat ∧ ∀ e ∈ entries.filter (Entry.isIn name), keyBelowSection e = true
  · rw [if_pos (hflat.mpr h), if_pos h, flatSection_eq hne h.2 hleaves]
  · rw [if_neg (mt hflat.mp h), if_neg h]
    exact nestedSection_eq ((leavesBehind_filter named name).symm ▸ hpart)

/-- **Assembling agrees with putting the whole theme together.**  Each section with entries is the
part of the whole under its name, flattened if it is a flat section whose entries all have a key
below it; the other fields are the custom ones and, where these are missing, the header. -/
theorem assemble_whole (keyed : (Document.map doc).Keyed) (leafy : (Document.map doc).Leafy)
    (paths : entries.map Entry.path = (Document.map doc).entries.map Entry.path)
    (scalars : ∀ e ∈ entries, ∃ v, e.value = .scalar v) (flat : List Text) {config : Fields}
    (configKeyed : (Document.map config).Keyed) :
    ∃ out, assemble flat config entries = .ok out ∧ (keys out).Nodup ∧ ∀ name,
      (entries.filter (Entry.isIn name) ≠ [] →
        ∃ part, (Document.ofEntries entries).field? name = some part ∧
          out.get? name = some
            (if name ∈ flat ∧ ∀ e ∈ entries.filter (Entry.isIn name), keyBelowSection e = true
              then .map part.flatten else part)) ∧
      (entries.filter (Entry.isIn name) = [] →
        out.get? name = ((customFields config).get? name).or
          (if name ∈ headerKeys then config.get? name else none)) := by
  have hpaths : ∀ e ∈ entries, e.path ≠ [] := by
    intro e he
    obtain ⟨key, rest, hpath⟩ := inSections_of_paths paths e he
    rw [hpath]
    exact List.cons_ne_nil _ _
  have hwritten : ∀ name, entries.filter (Entry.isIn name) ≠ [] →
      ∃ d, outputSection flat name (entries.filter (Entry.isIn name)) = .ok d := by
    intro name hne
    obtain ⟨part, -, hout⟩ := outputSection_whole keyed leafy paths scalars flat hne
    exact ⟨_, hout⟩
  obtain ⟨out, hassemble, once⟩ := exists_assemble hpaths hwritten config
  refine ⟨out, hassemble, once, fun name => ⟨fun hne => ?_, fun hnil => ?_⟩⟩
  · obtain ⟨part, hpart, hout⟩ := outputSection_whole keyed leafy paths scalars flat hne
    obtain ⟨d, hd, hget⟩ := get?_assemble hassemble hne
    rw [hout] at hd
    rw [← Except.ok.inj hd] at hget
    exact ⟨part, hpart, hget⟩
  · exact (get?_assemble_of_nil hassemble hnil).trans (get?_outputHead configKeyed name)

/-- A theme with a nested flat section in which two paths have one flat form, a flat section that is
a list, a section named like a header key and one without entries. -/
def harbour : Fields :=
  [("colors", .map [("a.b", .null), ("a", .map [("c", .null), ("b", .null)])]),
    ("marks", .list [.null, .map [("scope", .null)]]),
    ("name", .null),
    ("empty", .map [])]

/-- Its entries, each with its flat path as its value. -/
def harbourEntries : List Entry :=
  (Document.map harbour).entries.map fun e => e.withValue (.text e.flat)

/-- A configuration whose custom fields have two header keys. -/
def harbourConfig : Fields :=
  [("$schema", .text "s"), ("type", .text "dark"), ("name", .text "n"),
    ("custom", .map [("name", .text "custom"), ("type", .text "light")])]

/-- The flat section keeps the last of the two values, the section wins over the custom field of
its name, and that one over the header. -/
theorem harbour_assembled :
    (Document.map harbour).Keyed ∧ (Document.map harbour).Leafy ∧
      harbourEntries.map Entry.path = (Document.map harbour).entries.map Entry.path ∧
      (∀ e ∈ harbourEntries, ∃ v, e.value = .scalar v) ∧ (Document.map harbourConfig).Keyed ∧
      ∃ out : Fields, assemble ["colors", "marks"] harbourConfig harbourEntries = .ok out ∧
        out.get? "colors" =
          some (.map [("a.b", .text "colors.a.b"), ("a.c", .text "colors.a.c")]) ∧
        out.get? "marks" = (Document.ofEntries harbourEntries).field? "marks" ∧
        out.get? "name" = some (.text "name") ∧ out.get? "type" = some (.text "light") ∧
        out.get? "$schema" = some (.text "s") ∧ out.get? "empty" = none := by
  have keyed : (Document.map harbour).Keyed := by decide
  have leafy : (Document.map harbour).Leafy := by decide
  have paths : harbourEntries.map Entry.path = (Document.map harbour).entries.map Entry.path := by
    decide
  have scalars : ∀ e ∈ harbourEntries, ∃ v, e.value = .scalar v :=
    List.forall_mem_map.mpr fun e _ => ⟨_, rfl⟩
  have configKeyed : (Document.map harbourConfig).Keyed := by decide
  obtain ⟨out, hout, -, hall⟩ :=
    assemble_whole keyed leafy paths scalars ["colors", "marks"] configKeyed
  refine ⟨keyed, leafy, paths, scalars, configKeyed, out, hout, ?_, ?_, ?_, ?_, ?_, ?_⟩
  · obtain ⟨part, hpart, hget⟩ := (hall "colors").1 (by decide)
    have hwhole : (Document.ofEntries harbourEntries).field? "colors" = some (.map
        [("a.b", .text "colors.a.b"),
          ("a", .map [("c", .text "colors.a.c"), ("b", .text "colors.a.b")])]) := rfl
    obtain rfl := Option.some.inj (hwhole.symm.trans hpart)
    rw [hget, if_pos (by decide)]
    rfl
  · obtain ⟨part, hpart, hget⟩ := (hall "marks").1 (by decide)
    rw [hpart, hget, if_neg (by decide)]
  · obtain ⟨part, hpart, hget⟩ := (hall "name").1 (by decide)
    rw [hget, if_neg (by decide), ← hpart]
    rfl
  · exact (hall "type").2 (by decide)
  · exact (hall "$schema").2 (by decide)
  · exact (hall "empty").2 (by decide)

end Theme

end Colourway
