import Colourway.Files.Load
import Colourway.Proofs.Except

/-!
# The file that an import refers to

The name of an import makes a path.  The path stands for a file (`Loader.Resolves`) or for none
(`Loader.Lacks`), unless it cannot be followed (`Loader.Unfindable`).  Where it has no ending, the
endings are tried in turn, and the first that does not lead nowhere settles the matter
(`Loader.Settles`, `Loader.exists_settling`).

* **`Loader.resolveImport_eq_iff`** — what looking for the file of an import answers with.
-/

namespace Colourway.Loader

variable {l : Loader} {t : FileTree} {p q directory : FilePath} {name ending : Text}
  {e : ThemeError} {f : Fault}

theorem isFile_error_iff {g : Failure} :
    isFile t p = .error g ↔ t.find p = .error .nameTooLong ∧ g = .fault .nameTooLong := by
  rw [isFile, mapError_eq_error_iff, FileTree.isFile]
  constructor
  · rintro ⟨e, h, rfl⟩
    split at h
    all_goals cases h
    next hfind => exact ⟨hfind, rfl⟩
  · rintro ⟨hfind, rfl⟩
    exact ⟨.nameTooLong, by rw [hfind], rfl⟩

theorem isFile_ok_iff {b : Bool} : isFile t p = .ok b ↔ t.isFile p = .ok b := mapError_eq_ok_iff

/-! ## Endings that are tried -/

/-- A path that an ending leads to no file from. -/
def NoFile (t : FileTree) (p : FilePath) (ending : Text) : Prop :=
  ∃ q, p.extend? ending = some q ∧ t.isFile q = .ok false

/-- An attempt to put an ending behind a path that gets no answer. -/
inductive Astray (t : FileTree) (p : FilePath) (ending : Text) : Fault → Prop
  /-- There is no name to put it behind, or the name with it is no name. -/
  | unusable (unusable : p.extend? ending = none) : Astray t p ending .unusablePath
  /-- A name on the path, or the path, is too long with it. -/
  | long {q : FilePath} (extended : p.extend? ending = some q)
      (long : t.find q = .error .nameTooLong) : Astray t p ending .nameTooLong

/-- An attempt behind which no other ending is tried, and what comes of it. -/
inductive Settles (t : FileTree) (p : FilePath) (ending : Text) :
    Except Failure (Option FilePath) → Prop
  /-- The ending leads to a file. -/
  | found {q : FilePath} (extended : p.extend? ending = some q) (file : t.isFile q = .ok true) :
      Settles t p ending (.ok (some q))
  /-- The attempt gets no answer. -/
  | astray {f : Fault} (astray : Astray t p ending f) : Settles t p ending (.error (.fault f))

/-- An attempt settles the matter, or it leads nowhere. -/
theorem noFile_or_settles (t : FileTree) (p : FilePath) (ending : Text) :
    NoFile t p ending ∨ ∃ r, Settles t p ending r := by
  cases hext : p.extend? ending with
  | none => exact .inr ⟨_, .astray (.unusable hext)⟩
  | some q =>
    cases hfile : isFile t q with
    | error g => exact .inr ⟨_, .astray (.long hext (isFile_error_iff.mp hfile).1)⟩
    | ok found =>
      cases found with
      | true => exact .inr ⟨_, .found hext (isFile_ok_iff.mp hfile)⟩
      | false => exact .inl ⟨q, hext, isFile_ok_iff.mp hfile⟩

theorem withEnding_of_settles {r : Except Failure (Option FilePath)} (h : Settles t p ending r)
    (after : List Text) : withEnding t p (ending :: after) = r := by
  rw [withEnding]
  rcases h with ⟨hext, hfile⟩ | ⟨hext⟩ | ⟨hext, hlong⟩
  · rw [hext]
    exact bind_eq_ok_iff.mpr ⟨true, isFile_ok_iff.mpr hfile, rfl⟩
  · rw [hext]
  · rw [hext]
    exact bind_eq_error_iff.mpr (.inl (isFile_error_iff.mpr ⟨hlong, rfl⟩))

theorem withEnding_of_noFile (h : NoFile t p ending) (after : List Text) :
    withEnding t p (ending :: after) = withEnding t p after := by
  obtain ⟨q, hext, hno⟩ := h
  rw [withEnding, hext]
  show isFile t q >>= _ = _
  rw [isFile_ok_iff.mpr hno]
  rfl

/-- Endings that lead nowhere are passed over. -/
theorem withEnding_append {before : List Text} (h : ∀ tried ∈ before, NoFile t p tried)
    (after : List Text) : withEnding t p (before ++ after) = withEnding t p after := by
  induction before with
  | nil => rfl
  | cons tried before ih =>
    obtain ⟨hno, hbefore⟩ := List.forall_mem_cons.mp h
    rw [List.cons_append, withEnding_of_noFile hno, ih hbefore]

/-- All endings lead nowhere, or one of them is the first to settle the matter. -/
theorem exists_settling (t : FileTree) (p : FilePath) (endings : List Text) :
    (∀ ending ∈ endings, NoFile t p ending) ∨ ∃ before ending after r,
      endings = before ++ ending :: after ∧ (∀ tried ∈ before, NoFile t p tried) ∧
        Settles t p ending r := by
  induction endings with
  | nil => exact .inl (by simp)
  | cons ending endings ih =>
    rcases noFile_or_settles t p ending with hno | ⟨r, hsettles⟩
    · rcases ih with hnone | ⟨before, e, after, r, rfl, hbefore, hsettles⟩
      · exact .inl (List.forall_mem_cons.mpr ⟨hno, hnone⟩)
      · exact .inr ⟨ending :: before, e, after, r, rfl,
          List.forall_mem_cons.mpr ⟨hno, hbefore⟩, hsettles⟩
    · exact .inr ⟨[], ending, endings, r, rfl, by simp, hsettles⟩

/-! ## Paths that stand for files -/

/-- The file that a path stands for: what it leads to, or, if it has no ending, what it leads to
with the first ending behind it that makes it a file. -/
inductive Resolves (l : Loader) (t : FileTree) (p : FilePath) : FilePath → Prop
  /-- The path leads to a file. -/
  | whole (file : t.isFile p = .ok true) : Resolves l t p p
  /-- An ending makes it one. -/
  | ended {before after : List Text} {ending : Text} {q : FilePath} (none : t.isFile p = .ok false)
      (bare : p.ending = []) (endings : l.endings = before ++ ending :: after)
      (tried : ∀ tried ∈ before, NoFile t p tried) (extended : p.extend? ending = some q)
      (file : t.isFile q = .ok true) : Resolves l t p q

/-- A path that stands for no file. -/
structure Lacks (l : Loader) (t : FileTree) (p : FilePath) : Prop where
  /-- It leads to no file. -/
  none : t.isFile p = .ok false
  /-- If it has no ending, it leads to none with any of the endings. -/
  endings : p.ending = [] → ∀ ending ∈ l.endings, NoFile t p ending

/-- The path that an import names, seen from a directory, if no file can be found for it. -/
inductive Unfindable (l : Loader) (t : FileTree) (p : FilePath) : Fault → Prop
  /-- A name on the path, or the path, is too long. -/
  | long (long : t.find p = .error .nameTooLong) : Unfindable l t p .nameTooLong
  /-- The path has no ending and is no file, and an ending that is tried gets no answer. -/
  | astray {before after : List Text} {ending : Text} {f : Fault} (none : t.isFile p = .ok false)
      (bare : p.ending = []) (endings : l.endings = before ++ ending :: after)
      (tried : ∀ tried ∈ before, NoFile t p tried) (astray : Astray t p ending f) :
      Unfindable l t p f

/-- What looking for the file that a path stands for comes to. -/
inductive Leads (l : Loader) (t : FileTree) (p : FilePath) : Except Failure FilePath → Prop
  /-- It is found. -/
  | found {q : FilePath} (resolves : l.Resolves t p q) : Leads l t p (.ok q)
  /-- There is none. -/
  | nowhere (lacks : l.Lacks t p) :
      Leads l t p (.error (refuse p (.stated "import not found")))
  /-- The path cannot be followed. -/
  | astray {f : Fault} (unfindable : l.Unfindable t p f) : Leads l t p (.error (.fault f))

theorem Resolves.isFile (h : l.Resolves t p q) : t.isFile q = .ok true := by
  cases h <;> assumption

theorem exists_leads (l : Loader) (t : FileTree) (p : FilePath) : ∃ r, l.Leads t p r := by
  cases hfile : Loader.isFile t p with
  | error g => exact ⟨_, .astray (.long (isFile_error_iff.mp hfile).1)⟩
  | ok found =>
    have hfile := isFile_ok_iff.mp hfile
    cases found with
    | true => exact ⟨_, .found (.whole hfile)⟩
    | false =>
      by_cases hbare : p.ending = []
      · rcases exists_settling t p l.endings with hnone | ⟨_, _, _, _, hendings, hbefore, hlast⟩
        · exact ⟨_, .nowhere ⟨hfile, fun _ => hnone⟩⟩
        · rcases hlast with ⟨hext, hq⟩ | hastray
          · exact ⟨_, .found (.ended hfile hbare hendings hbefore hext hq)⟩
          · exact ⟨_, .astray (.astray hfile hbare hendings hbefore hastray)⟩
      · exact ⟨_, .nowhere ⟨hfile, fun h => absurd h hbare⟩⟩

/-- A path without an ending is settled by the endings that are tried. -/
theorem resolveImport_of_bare (hno : t.isFile (directory.join (.ofText name)) = .ok false)
    (hbare : (directory.join (.ofText name)).ending = []) :
    l.resolveImport t name directory =
      withEnding t (directory.join (.ofText name)) l.endings >>= fun found =>
        match found with
        | some q => .ok q
        | none =>
          .error (refuse (directory.join (.ofText name)) (.stated "import not found")) := by
  unfold resolveImport
  show isFile t _ >>= _ = _
  rw [isFile_ok_iff.mpr hno]
  exact if_pos hbare

theorem resolveImport_of_leads {r : Except Failure FilePath}
    (h : l.Leads t (directory.join (.ofText name)) r) : l.resolveImport t name directory = r := by
  rcases h with (hfile | ⟨hno, hbare, hendings, hbefore, hext, hq⟩) | ⟨hno, hnone⟩ |
    (hlong | ⟨hno, hbare, hendings, hbefore, hastray⟩)
  · exact bind_eq_ok_iff.mpr ⟨true, isFile_ok_iff.mpr hfile, rfl⟩
  · rw [resolveImport_of_bare hno hbare, hendings, withEnding_append hbefore,
      withEnding_of_settles (.found hext hq)]
    rfl
  · by_cases hbare : (directory.join (.ofText name)).ending = []
    · have hall := withEnding_append (hnone hbare) []
      rw [List.append_nil] at hall
      rw [resolveImport_of_bare hno hbare, hall]
      rfl
    · refine bind_eq_error_iff.mpr (.inr ⟨false, isFile_ok_iff.mpr hno, ?_⟩)
      exact if_neg hbare
  · exact bind_eq_error_iff.mpr (.inl (isFile_error_iff.mpr ⟨hlong, rfl⟩))
  · rw [resolveImport_of_bare hno hbare, hendings, withEnding_append hbefore,
      withEnding_of_settles (.astray hastray)]
    rfl

/-- **What looking for the file of an import answers with.** -/
theorem resolveImport_eq_iff {r : Except Failure FilePath} :
    l.resolveImport t name directory = r ↔ l.Leads t (directory.join (.ofText name)) r := by
  constructor
  · rintro rfl
    obtain ⟨r, hr⟩ := exists_leads l t (directory.join (.ofText name))
    rwa [resolveImport_of_leads hr]
  · exact resolveImport_of_leads

theorem resolveImport_ok_iff :
    l.resolveImport t name directory = .ok q ↔
      l.Resolves t (directory.join (.ofText name)) q := by
  rw [resolveImport_eq_iff]
  constructor
  · rintro ⟨hresolves⟩
    exact hresolves
  · exact .found

theorem resolveImport_refused_iff :
    l.resolveImport t name directory = .error (.error e) ↔
      l.Lacks t (directory.join (.ofText name)) ∧
        e = .load (directory.join (.ofText name)).text (.stated "import not found") := by
  rw [resolveImport_eq_iff]
  constructor
  · rintro ⟨⟩
    next hlacks => exact ⟨hlacks, rfl⟩
  · rintro ⟨hlacks, rfl⟩
    exact .nowhere hlacks

theorem resolveImport_fault_iff :
    l.resolveImport t name directory = .error (.fault f) ↔
      l.Unfindable t (directory.join (.ofText name)) f := by
  rw [resolveImport_eq_iff]
  constructor
  · rintro ⟨⟩
    assumption
  · exact .astray

end Colourway.Loader
