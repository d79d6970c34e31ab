import Colourway.Proofs.Assoc
import Colourway.Proofs.Document.Entries
import Colourway.Proofs.Except
import Colourway.Theme.Assemble
import Mathlib.Data.List.Induction

/-!
# The sections of an assembled theme

Assembling groups the entries of the theme by their section (`get?_bySection`) and writes each group
by itself (`get?_assemble`), so a section of the output depends on the entries of that section only.
A flat section holds under each flat path the value of the last entry that has it
(**`assemble_flat`**).
-/

namespace Colourway

open Assoc

/-! ## Groups -/

/-- Whether an entry belongs to the section. -/
def Entry.isIn (name : Text) (e : Entry) : Bool := e.path.head?.map Segment.text = some name

@[simp] theorem Entry.isIn_withValue (name : Text) (e : Entry) (value : Document) :
    (e.withValue value).isIn name = e.isIn name := rfl

/-- The groups after one more entry. -/
theorem bySection_append {entries : List Entry} {e : Entry} {sections : List (Text × List Entry)}
    (h : bySection (entries ++ [e]) = .ok sections) :
    ∃ earlier s path, bySection entries = .ok earlier ∧ e.path = s :: path ∧
      sections = put s.text ((get? s.text earlier).getD [] ++ [e]) earlier := by
  unfold bySection at h
  rw [List.foldlM_append] at h
  obtain ⟨earlier, hearlier, hlast⟩ := bind_eq_ok_iff.mp h
  rw [List.foldlM_cons] at hlast
  obtain ⟨after, hstep, hend⟩ := bind_eq_ok_iff.mp hlast
  obtain rfl : after = sections := Except.ok.inj hend
  cases hpath : e.path with
  | nil =>
    rw [hpath] at hstep
    cases hstep
  | cons s path =>
    rw [hpath] at hstep
    exact ⟨earlier, s, path, hearlier, rfl, (Except.ok.inj hstep).symm⟩

theorem nodup_keys_bySection {entries : List Entry} {sections : List (Text × List Entry)}
    (h : bySection entries = .ok sections) : (keys sections).Nodup := by
  induction entries using List.reverseRecOn generalizing sections with
  | nil =>
    obtain rfl : [] = sections := Except.ok.inj h
    simp [keys]
  | append_singleton entries e ih =>
    obtain ⟨earlier, s, path, hearlier, -, rfl⟩ := bySection_append h
    exact nodup_keys_put (ih hearlier)

/-- The group of a section are its entries, in their order. -/
theorem get?_bySection {entries : List Entry} {sections : List (Text × List Entry)}
    (h : bySection entries = .ok sections) (name : Text) :
    get? name sections =
      if entries.filter (Entry.isIn name) = [] then none
      else some (entries.filter (Entry.isIn name)) := by
  induction entries using List.reverseRecOn generalizing sections with
  | nil =>
    obtain rfl : [] = sections := Except.ok.inj h
    rfl
  | append_singleton entries e ih =>
    obtain ⟨earlier, s, path, hearlier, hpath, rfl⟩ := bySection_append h
    have hin : e.isIn name = decide (s.text = name) := by simp [Entry.isIn, hpath]
    rw [List.filter_append]
    by_cases hname : s.text = name
    · have hprior : (get? name earlier).getD [] = entries.filter (Entry.isIn name) := by
        rw [ih hearlier]
        by_cases hnil : entries.filter (Entry.isIn name) = [] <;> simp [hnil]
      have hsingle : [e].filter (Entry.isIn name) = [e] := by simp [hin, hname]
      rw [hname, get?_put_self, hprior, hsingle, if_neg (by simp)]
    · have hnone : [e].filter (Entry.isIn name) = [] := by simp [hin, hname]
      rw [get?_put_of_ne (Ne.symm hname), ih hearlier, hnone, List.append_nil]

/-! ## Assembling -/

/-- Each section of the output is written from its group; what has no group keeps its value. -/
theorem get?_foldlM_outputSection {flat : List Text} {sections : List (Text × List Entry)}
    (once : (keys sections).Nodup) {start out : Fields}
    (h : sections.foldlM (fun out s => do return Assoc.put s.1 (← outputSection flat s.1 s.2) out)
      start = .ok out) (name : Text) :
    (get? name sections = none ∧ get? name out = get? name start) ∨
    ∃ entries d, get? name sections = some entries ∧ outputSection flat name entries = .ok d ∧
      get? name out = some d := by
  induction sections generalizing start with
  | nil =>
    obtain rfl : start = out := Except.ok.inj h
    exact Or.inl ⟨rfl, rfl⟩
  | cons s rest ih =>
    obtain ⟨key, entries⟩ := s
    obtain ⟨hkey, hrest⟩ : key ∉ keys rest ∧ (keys rest).Nodup := by simpa [keys] using once
    rw [List.foldlM_cons] at h
    obtain ⟨next, hnext, hrun⟩ := bind_eq_ok_iff.mp h
    obtain ⟨d, hd, hput⟩ := bind_eq_ok_iff.mp hnext
    obtain rfl := Except.ok.inj hput
    have hlater := ih hrest hrun
    by_cases hname : key = name
    · subst hname
      rcases hlater with ⟨-, hout⟩ | ⟨entries', d', hget, -, -⟩
      · exact Or.inr ⟨entries, d, by simp [get?], hd, by rw [hout, get?_put_self]⟩
      · rw [get?_eq_none_iff.mpr hkey] at hget
        cases hget
    · rw [get?_put_of_ne (Ne.symm hname)] at hlater
      simpa [get?, hname] using hlater

/-- A section with entries is written from these, whatever else the theme holds. -/
theorem get?_assemble {flat : List Text} {config : Fields} {entries : List Entry} {out : Fields}
    (h : assemble flat config entries = .ok out) {name : Text}
    (hne : entries.filter (Entry.isIn name) ≠ []) :
    ∃ d, outputSection flat name (entries.filter (Entry.isIn name)) = .ok d ∧
      get? name out = some d := by
  obtain ⟨sections, hsections, hrun⟩ := bind_eq_ok_iff.mp h
  have hgroup := get?_bySection hsections name
  rw [if_neg hne] at hgroup
  rcases get?_foldlM_outputSection (nodup_keys_bySection hsections) hrun name with
    ⟨hnone, -⟩ | ⟨group, d, hget, hd, hout⟩
  · rw [hgroup] at hnone
    cases hnone
  · rw [hgroup] at hget
    obtain rfl := Option.some.inj hget
    exact ⟨d, hd, hout⟩

/-- **A flat section holds the last value of each flat path.** -/
theorem assemble_flat {flat : List Text} {config : Fields} {entries : List Entry} {out : Fields}
    (h : assemble flat config entries = .ok out) {name : Text} (hflat : name ∈ flat)
    (hne : entries.filter (Entry.isIn name) ≠ [])
    (below : ∀ e ∈ entries.filter (Entry.isIn name), keyBelowSection e = true) :
    ∃ fields, get? name out = some (.map fields) ∧ ∀ x, get? x fields =
      last? x ((entries.filter (Entry.isIn name)).map fun e =>
        (Path.flat (e.path.drop 1), e.value)) := by
  obtain ⟨d, hd, hout⟩ := get?_assemble h hne
  have hall : (flat.contains name &&
      (entries.filter (Entry.isIn name)).all keyBelowSection) = true := by
    rw [Bool.and_eq_true, List.contains_iff_mem, List.all_eq_true]
    exact ⟨hflat, below⟩
  rw [outputSection, if_pos hall] at hd
  obtain rfl := Except.ok.inj hd
  exact ⟨_, hout, fun x => get?_ofPairs x _⟩

/-! ## The entries of a section -/

theorem Document.isIn_of_mem_entriesAt {name key : Text} {d : Document} {e : Entry}
    (h : e ∈ entriesAt [.key key] none d) : e.isIn name = decide (key = name) := by
  have hbelow : entriesAt [.key key] none d = (entriesAt [] none d).map (Entry.below [.key key]) :=
    entriesAt_append [.key key] d [] none
  rw [hbelow] at h
  obtain ⟨inner, -, rfl⟩ := List.mem_map.mp h
  simp [Entry.isIn, Entry.below, Segment.text]

/-- The entries of a section of a map are those of the part under its name. -/
theorem Document.filter_fieldEntries {fields : Fields} (once : (keys fields).Nodup) (name : Text) :
    (fieldEntries [] fields).filter (Entry.isIn name) =
      ((get? name fields).map (entriesAt [.key name] none)).getD [] := by
  induction fields with
  | nil => simp [fieldEntries, get?]
  | cons f rest ih =>
    obtain ⟨key, d⟩ := f
    obtain ⟨hkey, hrest⟩ : key ∉ keys rest ∧ (keys rest).Nodup := by simpa [keys] using once
    rw [fieldEntries_cons, List.filter_append, ih hrest, List.nil_append]
    by_cases hname : key = name
    · subst hname
      have hself : (entriesAt [.key key] none d).filter (Entry.isIn key) =
          entriesAt [.key key] none d := by
        refine List.filter_eq_self.mpr fun e he => ?_
        simp [isIn_of_mem_entriesAt he]
      rw [hself, get?_eq_none_iff.mpr hkey]
      simp [get?]
    · have hnone : (entriesAt [.key key] none d).filter (Entry.isIn name) = [] := by
        refine List.filter_eq_nil_iff.mpr fun e he => ?_
        simp [isIn_of_mem_entriesAt he, hname]
      rw [hnone]
      simp [get?, hname]

end Colourway
