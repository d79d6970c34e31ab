import Colourway.Proofs.Files.Found
import Colourway.Proofs.Files.Loaded

/-!
# What imports come to

Imports are loaded one by one (`Loader.loadLayers_eq_mapM`).  An import makes a layer
(`Loader.Imported`), it is refused (`Loader.RefusedImport`), or loading comes upon a fault over it
(`Loader.LostImport`).

* `Loader.loadLayers_fault_iff` — the first import that loading comes upon a fault over.
* `Loader.lostImport_iff` — there the name cannot be followed, or the bytes of its file are no text.
* **`Loader.loadLayers_outcome`** — what loading a row of imports does: all layers in order, or what
  became of the first import that is not loaded.  That is a load error, unless it is such a fault.
-/

namespace Colourway.Loader

variable {l : Loader} {t : FileTree} {p directory : FilePath} {name : Text} {e : ThemeError}
  {f : Fault}

/-! ## Faults -/

/-- The layer that one import names. -/
def loadImport (l : Loader) (t : FileTree) (directory : FilePath) (name : Text) :
    Except Failure Layer := do
  let path ← l.resolveImport t name directory
  let fields ← l.load t path
  return ⟨name, fields⟩

/-- Imports are loaded one by one. -/
theorem loadLayers_eq_mapM (names : List Text) :
    l.loadLayers t directory names = names.mapM (l.loadImport t directory) := by
  induction names with
  | nil => rfl
  | cons name names ih =>
    rw [List.mapM_cons, ← ih, loadLayers, loadImport]
    cases l.resolveImport t name directory with
    | error g => rfl
    | ok path => cases h : l.load t path <;> simp [bind, Except.bind, pure, Except.pure, h]

/-- An import that loading comes upon a fault over. -/
inductive LostImport (l : Loader) (t : FileTree) (directory : FilePath) (name : Text) :
    Fault → Prop
  /-- No file can be found for its name. -/
  | name {f : Fault} (unfindable : l.Unfindable t (directory.join (.ofText name)) f) :
      LostImport l t directory name f
  /-- The file cannot be read. -/
  | document {p : FilePath} {f : Fault} (found : l.resolveImport t name directory = .ok p)
      (unreadable : l.Unreadable t p f) : LostImport l t directory name f

theorem loadImport_fault_iff :
    l.loadImport t directory name = .error (.fault f) ↔ l.LostImport t directory name f := by
  unfold loadImport
  simp only [bind_eq_error_iff, resolveImport_fault_iff, load_fault_iff, pure, Except.pure,
    reduceCtorEq, and_false, exists_false, or_false]
  constructor
  · rintro (h | ⟨p, hp, h⟩)
    · exact .name h
    · exact .document hp h
  · rintro (h | ⟨hp, h⟩)
    · exact .inl h
    · exact .inr ⟨_, hp, h⟩

/-- **Which imports loading comes upon a fault over**: the first one that holds a fault, if those
before it are loaded. -/
theorem loadLayers_fault_iff {names : List Text} :
    l.loadLayers t directory names = .error (.fault f) ↔ ∃ before name after,
      names = before ++ name :: after ∧
      (∀ earlier ∈ before, ∃ layer, l.loadImport t directory earlier = .ok layer) ∧
      l.LostImport t directory name f := by
  simp only [loadLayers_eq_mapM, mapM_eq_error_iff, loadImport_fault_iff]

/-! ## Layers and refusals -/

/-- The layer that an import makes: its name with the document in the file that it stands for. -/
structure Imported (l : Loader) (t : FileTree) (directory : FilePath) (name : Text)
    (layer : Layer) : Prop where
  /-- The layer bears the name of the import. -/
  named : layer.name = name
  /-- It holds what the file holds. -/
  document : ∃ p, l.Resolves t (directory.join (.ofText name)) p ∧ l.Holds t p layer.fields

/-- An import that is refused, with the path that is to blame and the reason that is given. -/
inductive RefusedImport (l : Loader) (t : FileTree) (directory : FilePath) (name : Text) :
    FilePath → LoadReason → Prop
  /-- There is no file for it. -/
  | missing (lacks : l.Lacks t (directory.join (.ofText name))) :
      RefusedImport l t directory name (directory.join (.ofText name)) (.stated "import not found")
  /-- Its file is refused. -/
  | document {p : FilePath} {reason : LoadReason}
      (resolves : l.Resolves t (directory.join (.ofText name)) p)
      (refused : l.Refused t p reason) : RefusedImport l t directory name p reason

/-- An import whose file has a known ending and bytes that are no text. -/
def NoText (l : Loader) (t : FileTree) (directory : FilePath) (name : Text) : Prop :=
  ∃ p bytes, l.Resolves t (directory.join (.ofText name)) p ∧
    l.endings.contains (Text.lower p.ending) = true ∧ t.read p = .ok bytes ∧
      Text.ofUtf8? bytes = none

theorem loadImport_ok_iff {layer : Layer} :
    l.loadImport t directory name = .ok layer ↔ l.Imported t directory name layer := by
  unfold loadImport
  simp only [bind_eq_ok_iff, resolveImport_ok_iff, load_ok_iff]
  constructor
  · rintro ⟨p, hp, fields, hfields, h⟩
    cases h
    exact ⟨rfl, p, hp, hfields⟩
  · rintro ⟨rfl, p, hp, hfields⟩
    exact ⟨p, hp, _, hfields, rfl⟩

theorem loadImport_refused_iff :
    l.loadImport t directory name = .error (.error e) ↔
      ∃ path reason, e = .load path.text reason ∧ l.RefusedImport t directory name path reason := by
  unfold loadImport
  simp only [bind_eq_error_iff, resolveImport_refused_iff, resolveImport_ok_iff, load_refused_iff,
    pure, Except.pure, reduceCtorEq, and_false, exists_false, or_false]
  constructor
  · rintro (⟨hlacks, he⟩ | ⟨p, hp, reason, he, hrefused⟩)
    · exact ⟨_, _, he, .missing hlacks⟩
    · exact ⟨p, reason, he, .document hp hrefused⟩
  · rintro ⟨_, _, he, hlacks | ⟨hp, hrefused⟩⟩
    · exact .inl ⟨hlacks, he⟩
    · exact .inr ⟨_, hp, _, he, hrefused⟩

/-- A path that leads to a file is not barred. -/
theorem not_barred_of_isFile (h : t.isFile p = .ok true) : ¬ p.Barred f := by
  intro barred
  obtain ⟨bytes, hread⟩ := FileTree.isFile_true_iff.mp h
  obtain ⟨refusal, hclosed, -⟩ := FileTree.read_fault_iff.mpr barred
  rw [hread] at hclosed
  cases hclosed

/-- **Only a name that cannot be followed and bytes that are no text stop an import at a fault.** -/
theorem lostImport_iff :
    l.LostImport t directory name f ↔
      l.Unfindable t (directory.join (.ofText name)) f ∨
        f = .undecodable ∧ l.NoText t directory name := by
  constructor
  · rintro (hname | ⟨hfound, hbarred | ⟨known, hread, hnone⟩⟩)
    · exact .inl hname
    · next barred =>
      exact absurd barred (not_barred_of_isFile (resolveImport_ok_iff.mp hfound).isFile)
    · exact .inr ⟨rfl, _, _, resolveImport_ok_iff.mp hfound, known, hread, hnone⟩
  · rintro (hname | ⟨rfl, p, bytes, hresolves, known, hread, hnone⟩)
    · exact .name hname
    · exact .document (resolveImport_ok_iff.mpr hresolves) (.bytes known hread hnone)

/-- **What a row of imports comes to**: a layer for each, in order; or else what becomes of the
first that is not loaded, where those before it are.  It is refused with a load error, or it stops
at a fault, which is to say that its name cannot be followed or that the bytes of its file are no
text. -/
theorem loadLayers_outcome (l : Loader) (t : FileTree) (directory : FilePath) (names : List Text) :
    (∀ layers, l.loadLayers t directory names = .ok layers ↔
      List.Forall₂ (l.Imported t directory) names layers) ∧
    (∀ e, l.loadLayers t directory names = .error (.error e) ↔ ∃ before name after,
      names = before ++ name :: after ∧
      (∀ earlier ∈ before, ∃ layer, l.Imported t directory earlier layer) ∧
      ∃ path reason, e = .load path.text reason ∧
        l.RefusedImport t directory name path reason) ∧
    (∀ f, l.loadLayers t directory names = .error (.fault f) ↔ ∃ before name after,
      names = before ++ name :: after ∧
      (∀ earlier ∈ before, ∃ layer, l.Imported t directory earlier layer) ∧
      (l.Unfindable t (directory.join (.ofText name)) f ∨
        f = .undecodable ∧ l.NoText t directory name)) := by
  refine ⟨fun layers => ?loaded, fun e => ?refused, fun f => ?stopped⟩
  case loaded => simp only [loadLayers_eq_mapM, mapM_eq_ok_iff, loadImport_ok_iff]
  case refused =>
    simp only [loadLayers_eq_mapM, mapM_eq_error_iff, loadImport_ok_iff, loadImport_refused_iff]
  case stopped => simp only [loadLayers_fault_iff, loadImport_ok_iff, lostImport_iff]

/-- A byte that no text begins with. -/
def strayByte : FileTree := ⟨[("b.json", .file ⟨#[0xff]⟩)], []⟩

/-- The file of an import is found, but neither a layer comes of it nor a load error. -/
theorem stray_byte_stops_imports :
    (∀ layers, (ofEndings defaultEndings).loadLayers strayByte ⟨1, []⟩ ["b.json"] ≠ .ok layers) ∧
      ∀ e, (ofEndings defaultEndings).loadLayers strayByte ⟨1, []⟩ ["b.json"] ≠
        .error (.error e) := by
  have hfault : (ofEndings defaultEndings).loadLayers strayByte ⟨1, []⟩ ["b.json"] =
      .error (.fault .undecodable) := rfl
  rw [hfault]
  exact ⟨fun _ => nofun, fun _ => nofun⟩

end Colourway.Loader
