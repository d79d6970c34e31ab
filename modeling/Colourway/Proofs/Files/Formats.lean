import Colourway.Format.Json
import Colourway.Proofs.Files.Imports

/-!
# One text under two formats

A text of JSON is one of YAML too, so it may be stored under an ending of either format.  A text of
JSON is not blank (`Json.not_allBlank_of_document?`), and if both readers take it for the same document,
loading differs in one thing: in YAML a document that counts as nothing is the empty map.

Main statement: loading has the same outcome, apart from the path that an error names, unless the
document counts as nothing and is no map (**`Loader.load_by_format`**).
-/

namespace Colourway

/-! ## Texts of JSON

Each value of JSON begins with a character that is not white space. -/

namespace Json

open Format

variable {c : CodePoint} {s : Text} {d : Document}

theorem takeNamed_of_blank (h : Text.isBlank c = true) : takeNamed named (c :: s) = none := by
  have visible : ∀ entry ∈ named, entry.1.head?.map Text.isBlank = some false := by
    simp only [named, List.forall_mem_cons]
    decide
  rw [takeNamed, List.findSome?_eq_none_iff]
  intro entry hentry
  cases hprefix : entry.1.isPrefixOf? (c :: s) with
  | none => rfl
  | some rest =>
    -- The word would begin with the white space.
    have hsplit := List.isPrefixOf?_eq_some_iff_append_eq.mp hprefix
    have hvisible := visible entry hentry
    cases hword : entry.1 with
    | nil =>
      rw [hword] at hvisible
      cases hvisible
    | cons d word =>
      rw [hword] at hsplit hvisible
      cases hsplit
      rw [List.head?_cons, Option.map_some, h] at hvisible
      cases hvisible

theorem whole_take (s : Text) : (Numeral.take s).1.whole = s.takeWhile isDigit := by
  unfold Numeral.take
  split <;> rfl

theorem isDigit_of_blank (h : Text.isBlank c = true) : isDigit c = false := by
  have hall : ∀ n < 58, 48 ≤ n → Text.inRanges Text.blankRanges n = false := by decide
  cases hdigit : isDigit c with
  | false => rfl
  | true =>
    simp only [isDigit, Bool.and_eq_true, decide_eq_true_eq] at hdigit
    have hvisible : Text.isBlank c = false := hall _ (by omega) hdigit.1
    rw [h] at hvisible
    cases hvisible

theorem number_of_blank (h : Text.isBlank c = true) : number (c :: s) = none := by
  have hminus : takeMinus (c :: s) = (false, c :: s) := by
    unfold takeMinus
    split
    · next heq =>
      cases heq
      exact absurd h (by decide)
    · rfl
  have hwhole : (Numeral.take (c :: s)).1.whole = [] := by
    rw [whole_take, List.takeWhile_cons_of_neg (by rw [isDigit_of_blank h]; decide)]
  have hstrict : (Numeral.take (c :: s)).1.isStrict = false := by
    simp [Numeral.isStrict, hwhole]
  simp [number, hminus, hstrict]

theorem scalar_of_blank (h : Text.isBlank c = true) : scalar (c :: s) = none := by
  unfold scalar
  split
  · next heq =>
    cases heq
    exact absurd h (by decide)
  · rw [takeNamed_of_blank h, number_of_blank h]
    rfl

theorem value_of_allBlank (h : Text.allBlank s = true) (fuel : Nat) :
    form.value fuel s = none := by
  cases fuel with
  | zero => rfl
  | succ fuel =>
    rw [Bracketed.value]
    have hgap : form.gap s = some (s.dropWhile isGap) := rfl
    have hrest : Text.allBlank (s.dropWhile isGap) = true :=
      List.all_eq_true.mpr fun c hc => List.all_eq_true.mp h c ((List.dropWhile_sublist _).subset hc)
    simp only [hgap, Option.bind_eq_bind, Option.bind_some]
    generalize s.dropWhile isGap = rest at hrest
    cases rest with
    | nil => rfl
    | cons c rest =>
      have hc : Text.isBlank c = true := List.all_eq_true.mp hrest c List.mem_cons_self
      split
      · next heq =>
        cases heq
        exact absurd hc (by decide)
      · next heq =>
        cases heq
        exact absurd hc (by decide)
      · show (scalar (c :: rest)).map _ = none
        rw [scalar_of_blank hc]
        rfl

/-- **No text of JSON is blank.** -/
theorem not_allBlank_of_document? (h : document? s = some d) : Text.allBlank s = false := by
  cases hblank : Text.allBlank s with
  | false => rfl
  | true =>
    rw [document?, Bracketed.document?, value_of_allBlank hblank] at h
    cases h

end Json

/-! ## Outcomes -/

namespace Loader

variable {l : Loader} {t u : FileTree} {p q : FilePath} {s ending : Text} {d : Document}

/-- The same outcome apart from the path that an error names. -/
inductive SameOutcome (p q : FilePath) : Except Failure Fields → Except Failure Fields → Prop
  /-- The fields are the same. -/
  | loaded (fields : Fields) : SameOutcome p q (.ok fields) (.ok fields)
  /-- Each path is refused, for the same reason. -/
  | refused (reason : LoadReason) :
      SameOutcome p q (.error (refuse p reason)) (.error (refuse q reason))

theorem asMap_same : SameOutcome p q (asMap p d) (asMap q d) := by
  cases d with
  | scalar _ => exact .refused _
  | list _ => exact .refused _
  | map fields => exact .loaded fields

/-- Only a map is taken for the fields of a document. -/
theorem asMap_same_ok_iff {fields : Fields} :
    SameOutcome p q (asMap p d) (.ok fields) ↔ d = .map fields := by
  cases d with
  | map fields' =>
    constructor
    · rintro ⟨⟩
      rfl
    · rintro ⟨⟩
      exact .loaded fields
  | _ => constructor <;> rintro ⟨⟩

theorem isVoid_map {fields : Fields} (h : (Document.map fields).isVoid = true) : fields = [] :=
  List.isEmpty_iff.mp h

theorem parse_json (json : isJson ending = true) (visible : Text.allBlank s = false) :
    l.parse ending s = l.readers.json5 s := by
  rw [parse, json, visible]
  rfl

theorem parse_yaml (yaml : isJson ending = false) :
    l.parse ending s = (l.readers.yaml s).map fun d => if d.isVoid then .map [] else d := by
  rw [parse, yaml]
  rfl

/-- **One text under an ending of either format.**  The text is one of JSON, and both readers take
it for the same document.  Under the ending of JSON its fields are loaded if it is a map, and it is
refused otherwise.  Under the ending of YAML the same becomes of it, but for what counts as nothing,
which is loaded as the empty map.  So the outcome is the same, apart from the path of the error,
just if the document is a map where it counts as nothing. -/
theorem load_by_format (strict : ∃ e, Json.document? s = some e)
    (json : isJson p.ending = true) (yaml : isJson q.ending = false)
    (known : l.endings.contains (Text.lower p.ending) = true)
    (known' : l.endings.contains (Text.lower q.ending) = true)
    (text : t.Reads p s) (text' : u.Reads q s)
    (json5 : l.readers.json5 s = some d) (same : l.readers.yaml s = some d) :
    l.load t p = asMap p d ∧
    l.load u q = (if d.isVoid then .ok [] else asMap q d) ∧
    (SameOutcome p q (l.load t p) (l.load u q) ↔
      (d.isVoid = true → ∃ fields, d = .map fields)) := by
  obtain ⟨e, strict⟩ := strict
  have hjson : l.load t p = asMap p d := by
    rw [load_of_reads known text, parse_json json (Json.not_allBlank_of_document? strict), json5]
    rfl
  have hyaml : l.load u q = if d.isVoid then .ok [] else asMap q d := by
    rw [load_of_reads known' text', parse_yaml yaml, same]
    show asMap q (if d.isVoid then .map [] else d) = _
    split <;> rfl
  refine ⟨hjson, hyaml, ?_⟩
  rw [hjson, hyaml]
  cases hvoid : d.isVoid with
  | false => simpa using asMap_same
  | true =>
    rw [if_pos rfl, asMap_same_ok_iff]
    constructor
    · exact fun h _ => ⟨[], h⟩
    · intro h
      obtain ⟨fields, rfl⟩ := h rfl
      rw [isVoid_map hvoid]

/-- A path with an ending of JSON. -/
def jsonCopy : FilePath := ⟨1, ["a.json"]⟩

/-- A path with an ending of YAML. -/
def yamlCopy : FilePath := ⟨1, ["a.yaml"]⟩

/-- A root directory with the same file under both paths. -/
def copies (bytes : ByteArray) : FileTree :=
  ⟨[("a.json", .file bytes), ("a.yaml", .file bytes)], []⟩

/-- The empty map counts as nothing, but it is a map: it is loaded under both endings. -/
theorem empty_map_by_format :
    (∃ e, Json.document? "\x7b\x7d" = some e) ∧
    isJson jsonCopy.ending = true ∧ isJson yamlCopy.ending = false ∧
    (copies ⟨#[0x7b, 0x7d]⟩).Reads jsonCopy "\x7b\x7d" ∧
    (copies ⟨#[0x7b, 0x7d]⟩).Reads yamlCopy "\x7b\x7d" ∧
    Json5.document? "\x7b\x7d" = some (.map []) ∧ Yaml.document? "\x7b\x7d" = some (.map []) ∧
    SameOutcome jsonCopy yamlCopy
      ((ofEndings defaultEndings).load (copies ⟨#[0x7b, 0x7d]⟩) jsonCopy)
      ((ofEndings defaultEndings).load (copies ⟨#[0x7b, 0x7d]⟩) yamlCopy) := by
  have strict : ∃ e, Json.document? "\x7b\x7d" = some e := ⟨_, rfl⟩
  have json : isJson jsonCopy.ending = true := by decide
  have yaml : isJson yamlCopy.ending = false := by decide
  have text : (copies ⟨#[0x7b, 0x7d]⟩).Reads jsonCopy "\x7b\x7d" := ⟨_, rfl, rfl⟩
  have text' : (copies ⟨#[0x7b, 0x7d]⟩).Reads yamlCopy "\x7b\x7d" := ⟨_, rfl, rfl⟩
  have json5 : Json5.document? "\x7b\x7d" = some (.map []) := rfl
  have same : Yaml.document? "\x7b\x7d" = some (.map []) := rfl
  obtain ⟨-, -, outcome⟩ := load_by_format (l := ofEndings defaultEndings) strict json yaml
    (by decide) (by decide) text text' json5 same
  exact ⟨strict, json, yaml, text, text', json5, same, outcome.mpr fun _ => ⟨[], rfl⟩⟩

/-- The empty list is no map and refused as one under an ending of JSON, but under an ending of YAML
it is loaded as the empty map. -/
theorem empty_list_by_format :
    Json.document? "[]" = some (.list []) ∧ Json5.document? "[]" = some (.list []) ∧
    Yaml.document? "[]" = some (.list []) ∧
    (ofEndings defaultEndings).load (copies ⟨#[0x5b, 0x5d]⟩) jsonCopy =
      .error (refuse jsonCopy (.stated "expected a map, got list")) ∧
    (ofEndings defaultEndings).load (copies ⟨#[0x5b, 0x5d]⟩) yamlCopy = .ok [] :=
  ⟨rfl, rfl, rfl, rfl, rfl⟩

end Loader

end Colourway
