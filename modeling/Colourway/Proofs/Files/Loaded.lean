import Colourway.Files.Load
import Colourway.Proofs.Except

/-!
# What loading a file comes to

A file holds a document with a map on top (`Loader.Holds`), it is refused for a reason
(`Loader.Refused`), or loading comes upon a fault over it (`Loader.Unreadable`): the text of the
path is to blame (`FilePath.Barred`) or the bytes of the file are no text.

* `FileTree.read_fault_iff` — a path is refused with a fault just if its text is to blame.
* **`Loader.load_eq_iff`** — what loading answers with, in these terms.
-/

namespace Colourway

/-! ## Paths -/

/-- A path whose text no file can be opened under, and the fault that it amounts to. -/
inductive FilePath.Barred (p : FilePath) : Fault → Prop
  /-- A surrogate of the text stands for no byte. -/
  | surrogate (unencodable : p.text.all isEncodable = false) : Barred p .unencodable
  /-- The text holds a null character. -/
  | null (encodable : p.text.all isEncodable = true)
      (null : p.text.contains (.char '\x00') = true) : Barred p .unusablePath

namespace FileTree

variable {t : FileTree} {p : FilePath} {e : FileError} {f : Fault}

theorem fault?_of_enter {place : List Text} {name : Text} (h : t.enter place name = .error e) :
    e.fault? = none := by
  unfold enter at h
  repeat' split at h
  all_goals cases h <;> rfl

/-- On the way no path is barred. -/
theorem fault?_of_enters (names : List Text) : ∀ {place : List Text},
    names.foldlM t.enter place = .error e → e.fault? = none := by
  induction names with
  | nil => exact fun h => by cases h
  | cons name names ih =>
    intro place h
    rw [List.foldlM_cons, bind_eq_error_iff] at h
    rcases h with h | ⟨next, -, h⟩
    · exact fault?_of_enter h
    · exact ih h

theorem requireWithin_fault_iff :
    (∃ e, requireWithin p = .error e ∧ e.fault? = some f) ↔ p.Barred f := by
  unfold requireWithin
  constructor
  · rintro ⟨e, h, hf⟩
    split at h
    · next hall =>
      cases h
      cases hf
      exact .surrogate (by simpa using hall)
    · next hall =>
      split at h
      · next hnull =>
        cases h
        cases hf
        exact .null (by simpa using hall) hnull
      · split at h
        all_goals cases h
        cases hf
  · rintro (hall | ⟨hall, hnull⟩)
    · exact ⟨.unencodable, by rw [hall]; rfl, rfl⟩
    · exact ⟨.badPath, by rw [hall, hnull]; rfl, rfl⟩

/-- **Only a barred path is refused with a fault.** -/
theorem find_fault_iff : (∃ e, t.find p = .error e ∧ e.fault? = some f) ↔ p.Barred f := by
  rw [← requireWithin_fault_iff]
  refine exists_congr fun e => and_congr_left fun hf => ?_
  unfold find place
  simp only [bind_eq_error_iff]
  constructor
  · rintro ((h | ⟨_, -, h⟩) | ⟨place, -, h⟩)
    · exact h
    · rw [fault?_of_enters _ h] at hf
      cases hf
    · split at h
      all_goals cases h
      cases hf
  · exact fun h => .inl (.inl h)

theorem read_fault_iff : (∃ e, t.read p = .error e ∧ e.fault? = some f) ↔ p.Barred f := by
  rw [← find_fault_iff (t := t)]
  refine exists_congr fun e => and_congr_left fun hf => ?_
  unfold read
  rw [bind_eq_error_iff]
  constructor
  · rintro (h | ⟨node, -, h⟩)
    · exact h
    · cases node <;> cases h
      cases hf
  · exact .inl

/-- A path leads to a file with a text. -/
def Reads (t : FileTree) (p : FilePath) (s : Text) : Prop :=
  ∃ bytes, t.read p = .ok bytes ∧ Loader.decode bytes = some s

theorem read_ok_iff {bytes : ByteArray} :
    t.read p = .ok bytes ↔ t.find p = .ok (.file bytes) := by
  unfold read
  rw [bind_eq_ok_iff]
  constructor
  · rintro ⟨node, hfind, h⟩
    cases node <;> cases h
    exact hfind
  · exact fun hfind => ⟨_, hfind, rfl⟩

/-- What leads to a file can be read. -/
theorem isFile_true_iff : t.isFile p = .ok true ↔ ∃ bytes, t.read p = .ok bytes := by
  simp only [read_ok_iff]
  unfold isFile
  constructor
  · intro h
    split at h
    · next bytes hfind => exact ⟨bytes, hfind⟩
    all_goals cases h
  · rintro ⟨bytes, hfind⟩
    rw [hfind]

end FileTree

namespace Loader

variable {l : Loader} {t : FileTree} {p : FilePath} {e : ThemeError} {f : Fault}

/-! ## Documents -/

/-- A document that loading comes upon a fault over: one with an ending that is read, under a
barred path or with bytes that are no text. -/
inductive Unreadable (l : Loader) (t : FileTree) (p : FilePath) : Fault → Prop
  /-- The text of the path is to blame. -/
  | path {f : Fault} (known : l.endings.contains (Text.lower p.ending) = true)
      (barred : p.Barred f) : Unreadable l t p f
  /-- The bytes of the file encode no text. -/
  | bytes {b : ByteArray} (known : l.endings.contains (Text.lower p.ending) = true)
      (read : t.read p = .ok b) (undecodable : Text.ofUtf8? b = none) :
      Unreadable l t p .undecodable

/-- The document in a file, with a map on top. -/
structure Holds (l : Loader) (t : FileTree) (p : FilePath) (fields : Fields) : Prop where
  /-- The ending is one that is read. -/
  known : l.endings.contains (Text.lower p.ending) = true
  /-- The text is one for the document. -/
  parsed : ∃ s, t.Reads p s ∧ l.parse p.ending s = some (.map fields)

/-- A file that is refused, and the reason that is given. -/
inductive Refused (l : Loader) (t : FileTree) (p : FilePath) : LoadReason → Prop
  /-- The ending is not one that is read. -/
  | ending (unknown : l.endings.contains (Text.lower p.ending) = false) :
      Refused l t p (.stated ("unsupported extension " ++ Document.quotedText p.ending))
  /-- The system does not open the file. -/
  | closed {refusal : FileError} (known : l.endings.contains (Text.lower p.ending) = true)
      (closed : t.read p = .error refusal) (plain : refusal.fault? = none) :
      Refused l t p (.stated refusal.words)
  /-- The text is no document. -/
  | malformed {s : Text} (known : l.endings.contains (Text.lower p.ending) = true)
      (text : t.Reads p s) (malformed : l.parse p.ending s = none) : Refused l t p .malformed
  /-- There is no map on top. -/
  | noMap {s : Text} {d : Document} (known : l.endings.contains (Text.lower p.ending) = true)
      (text : t.Reads p s) (parsed : l.parse p.ending s = some d)
      (no_map : ∀ fields, d ≠ .map fields) :
      Refused l t p (.stated ("expected a map, got " ++ d.kindName))

/-- What a document with a map on top amounts to under a path, and any other. -/
def asMap (p : FilePath) (d : Document) : Except Failure Fields :=
  match d with
  | .map fields => .ok fields
  | d => .error (refuse p (.stated ("expected a map, got " ++ d.kindName)))

theorem asMap_of_not_map {d : Document} (h : ∀ fields, d ≠ .map fields) :
    asMap p d = .error (refuse p (.stated ("expected a map, got " ++ d.kindName))) := by
  cases d with
  | scalar _ => rfl
  | list _ => rfl
  | map fields => exact absurd rfl (h fields)

/-- What becomes of a file with a text. -/
theorem load_of_reads {s : Text} (known : l.endings.contains (Text.lower p.ending) = true)
    (text : t.Reads p s) :
    l.load t p = ((l.parse p.ending s).map (asMap p)).getD (.error (refuse p .malformed)) := by
  obtain ⟨bytes, hread, hdecode⟩ := text
  unfold load
  rw [known, hread]
  simp only [Bool.not_true, Bool.false_eq_true, if_false, hdecode]
  rcases l.parse p.ending s with _ | _ | _ | _ <;> rfl

/-- What loading a file comes to. -/
inductive Loads (l : Loader) (t : FileTree) (p : FilePath) : Except Failure Fields → Prop
  /-- The fields of a document are loaded. -/
  | held {fields : Fields} (holds : l.Holds t p fields) : Loads l t p (.ok fields)
  /-- The file is refused. -/
  | refused {reason : LoadReason} (refused : l.Refused t p reason) :
      Loads l t p (.error (refuse p reason))
  /-- There is a fault. -/
  | stopped {f : Fault} (unreadable : l.Unreadable t p f) : Loads l t p (.error (.fault f))

/-- Each file comes to something. -/
theorem exists_loads (l : Loader) (t : FileTree) (p : FilePath) : ∃ r, l.Loads t p r := by
  cases known : l.endings.contains (Text.lower p.ending) with
  | false => exact ⟨_, .refused (.ending known)⟩
  | true =>
    cases hread : t.read p with
    | error refusal =>
      cases hfault : refusal.fault? with
      | none => exact ⟨_, .refused (.closed known hread hfault)⟩
      | some f =>
        have barred := FileTree.read_fault_iff.mp ⟨refusal, hread, hfault⟩
        exact ⟨_, .stopped (.path known barred)⟩
    | ok bytes =>
      cases hdecode : decode bytes with
      | none => exact ⟨_, .stopped (.bytes known hread (Option.map_eq_none_iff.mp hdecode))⟩
      | some s =>
        have text : t.Reads p s := ⟨bytes, hread, hdecode⟩
        cases hparse : l.parse p.ending s with
        | none => exact ⟨_, .refused (.malformed known text hparse)⟩
        | some d =>
          by_cases hmap : ∃ fields, d = .map fields
          · obtain ⟨fields, rfl⟩ := hmap
            exact ⟨_, .held ⟨known, s, text, hparse⟩⟩
          · exact ⟨_, .refused (.noMap known text hparse (not_exists.mp hmap))⟩

theorem load_of_refused {reason : LoadReason} (h : l.Refused t p reason) :
    l.load t p = .error (refuse p reason) := by
  rcases h with hunknown | ⟨known, hread, hplain⟩ | ⟨known, text, hparse⟩ |
    ⟨known, text, hparse, hnomap⟩
  · unfold load
    rw [hunknown]
    rfl
  · unfold load
    rw [known, hread]
    simp [hplain]
  · rw [load_of_reads known text, hparse]
    rfl
  · rw [load_of_reads known text, hparse]
    exact asMap_of_not_map hnomap

theorem load_of_unreadable (h : l.Unreadable t p f) : l.load t p = .error (.fault f) := by
  rcases h with ⟨known, barred⟩ | ⟨known, hread, hdecode⟩
  · obtain ⟨refusal, hread, hfault⟩ := FileTree.read_fault_iff.mpr barred
    unfold load
    rw [known, hread]
    simp [hfault]
  · unfold load
    rw [known, hread]
    simp [decode, hdecode]

/-- **What loading a file answers with.** -/
theorem load_eq_iff {r : Except Failure Fields} : l.load t p = r ↔ l.Loads t p r := by
  have hloads : ∀ {r}, l.Loads t p r → l.load t p = r := by
    rintro _ (⟨known, s, text, hparse⟩ | hrefused | hunreadable)
    · rw [load_of_reads known text, hparse]
      rfl
    · exact load_of_refused hrefused
    · exact load_of_unreadable hunreadable
  constructor
  · rintro rfl
    obtain ⟨r, hr⟩ := exists_loads l t p
    rwa [hloads hr]
  · exact hloads

theorem load_ok_iff {fields : Fields} : l.load t p = .ok fields ↔ l.Holds t p fields := by
  rw [load_eq_iff]
  constructor
  · rintro ⟨hholds⟩
    exact hholds
  · exact .held

theorem load_refused_iff :
    l.load t p = .error (.error e) ↔ ∃ reason, e = .load p.text reason ∧ l.Refused t p reason := by
  rw [load_eq_iff]
  constructor
  · rintro ⟨⟩
    next reason hrefused => exact ⟨reason, rfl, hrefused⟩
  · rintro ⟨reason, rfl, hrefused⟩
    exact .refused hrefused

theorem load_fault_iff : l.load t p = .error (.fault f) ↔ l.Unreadable t p f := by
  rw [load_eq_iff]
  constructor
  · rintro ⟨⟩
    assumption
  · exact .stopped

end Loader

end Colourway
