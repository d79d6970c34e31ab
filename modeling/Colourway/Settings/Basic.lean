import Colourway.Document.Path
import Colourway.Files.Load
import Colourway.Settings.Integer
import Colourway.Theme.Compile

/-!
# Settings

What can be configured, and how a document of settings is checked. Every field has a default. All
fields are checked, so that every mistake is reported, in the order of the fields.
-/

namespace Colourway

/-- What is wrong with a setting. -/
inductive IssueKind where
  /-- A number below the least one allowed. -/
  | tooSmall
  /-- A value that its own rule refuses. -/
  | refused
  /-- A text that is no integer. -/
  | integerText
  /-- A number that is no integer. -/
  | integerPart
  /-- A value that cannot stand for an integer. -/
  | integerType
  /-- A text or number that stands for an integer out of range. -/
  | integerSize
  /-- A number that is not finite. -/
  | notFinite
  /-- A text or number that is no truth value. -/
  | truthText
  /-- A value that cannot stand for a truth value. -/
  | truthType
  /-- A value that is no text. -/
  | textType
  /-- A text or name with a code point that cannot be encoded. -/
  | unencodable
  /-- A value that is no list. -/
  | listType
  /-- A value that is no section. -/
  | sectionType
  /-- A field that does not exist. -/
  | unknown
  deriving DecidableEq

/-- The name of an issue in answers. -/
def IssueKind.name : IssueKind → String
  | tooSmall => "greater_than_equal"
  | refused => "value_error"
  | integerText => "int_parsing"
  | integerPart => "int_from_float"
  | integerType => "int_type"
  | integerSize => "int_parsing_size"
  | notFinite => "finite_number"
  | truthText => "bool_parsing"
  | truthType => "bool_type"
  | textType => "string_type"
  | unencodable => "string_unicode"
  | listType => "list_type"
  | sectionType => "model_type"
  | unknown => "extra_forbidden"

/-- A mistake in the settings. -/
structure Issue where
  /-- Where it is. -/
  location : Path
  /-- What it is. -/
  kind : IssueKind
  deriving DecidableEq

/-! ## The settings -/

/-- Settings of the compiler. -/
structure CompilerSettings where
  /-- The greatest number of passes and of steps. -/
  maxIterations : Int := 10
  /-- The carry mark. -/
  carryForward : Text := "^"

/-- The names of the sections of a document. -/
structure SectionSettings where
  /-- The configuration. -/
  config : Text := "config"
  /-- The palette. -/
  palette : Text := "palette"
  /-- The variables. -/
  vars : Text := "vars"
  /-- The theme. -/
  theme : Text := "theme"
  /-- The sections that are written flat. -/
  flatSections : List Text := ["colors"]

/-- Settings of the loader. -/
structure LoaderSettings where
  /-- The endings of documents. -/
  extensions : List Text := Loader.defaultEndings

/-- Settings of batches. -/
structure BatchSettings where
  /-- The greatest number of workers. -/
  maxWorkers : Int := 4

/-- All settings of one invocation. -/
structure Settings where
  /-- The directory that imports and relative paths start from. -/
  root : FilePath
  /-- The settings file in effect. -/
  configPath : Option FilePath := none
  /-- Whether results carry telemetry. -/
  verbose : Bool := false
  /-- Whether the log is written as documents. -/
  logJson : Bool := false
  /-- Settings of the compiler. -/
  compiler : CompilerSettings := {}
  /-- The names of the sections. -/
  sections : SectionSettings := {}
  /-- Settings of the loader. -/
  loader : LoaderSettings := {}
  /-- Settings of batches. -/
  batch : BatchSettings := {}

/-- The compiler that the settings ask for. -/
def Settings.compilerOptions (s : Settings) : CompilerOptions :=
  { limit := s.compiler.maxIterations
    config := s.sections.config
    names :=
      { palette := s.sections.palette
        vars := s.sections.vars
        theme := s.sections.theme
        carryMark := s.compiler.carryForward }
    flatSections := s.sections.flatSections }

/-! ## Checking -/

/-- A checked value with the issues found; a value with issues is the default. -/
abbrev Checked (α : Type) := α × List Issue

namespace Check

open Text

/-- What is wrong with a setting whose text stands for no integer. -/
def issueOf : IntegerProblem → IssueKind
  | .unencodable => .unencodable
  | .malformed => .integerText
  | .tooLong => .integerSize

/-- The whole number that a double is, between -2^63 and 2^63, or why it is none. -/
def wholeNumber (x : Float) : Except IssueKind Int :=
  match Number.Reading.of x with
  | .finite p =>
    if Number.floorMod x 1 != 0.0 then .error .integerPart
    else if p.truncated.natAbs < Nat.pow 2 63 then .ok p.truncated
    else .error .integerSize
  | _ => .error .notFinite

/-- An integer of at least one. -/
def positive (place : Path) (default : Int) : Option Document → Checked Int
  | none => (default, [])
  | some d =>
    let bounded (n : Int) : Checked Int :=
      if n < 1 then (default, [⟨place, .tooSmall⟩]) else (n, [])
    match d with
    | .scalar (.int n) => bounded n
    | .scalar (.bool b) => bounded (if b then 1 else 0)
    | .scalar (.float x) =>
      match wholeNumber x with
      | .ok n => bounded n
      | .error kind => (default, [⟨place, kind⟩])
    | .scalar (.text s) =>
      match IntegerText.read s with
      | .ok n => bounded n
      | .error problem => (default, [⟨place, issueOf problem⟩])
    | _ => (default, [⟨place, .integerType⟩])

/-- The words for a truth value, in any case of their letters. -/
def truthWords : List (Text × Bool) :=
  [("1", true), ("true", true), ("t", true), ("yes", true), ("y", true), ("on", true),
    ("0", false), ("false", false), ("f", false), ("no", false), ("n", false), ("off", false)]

/-- The truth value that a number stands for. -/
def truthOf (place : Path) (default : Bool) (n : Except IssueKind Int) : Checked Bool :=
  match n with
  | .ok 0 => (false, [])
  | .ok 1 => (true, [])
  | .ok _ => (default, [⟨place, .truthText⟩])
  | .error _ => (default, [⟨place, .truthType⟩])

/-- A truth value. -/
def truth (place : Path) (default : Bool) : Option Document → Checked Bool
  | none => (default, [])
  | some d =>
    match d with
    | .scalar (.bool b) => (b, [])
    | .scalar (.int n) =>
      let inRange : Bool := n.natAbs < Nat.pow 2 63 || n == -Int.ofNat (Nat.pow 2 63)
      truthOf place default (if inRange then .ok n else wholeNumber (Float.ofInt n))
    | .scalar (.float x) => truthOf place default (wholeNumber x)
    | .scalar (.text s) =>
      match Assoc.get? (s.map CodePoint.toLower) truthWords with
      | some b => (b, [])
      | none => (default, [⟨place, if s.chars?.isNone then .unencodable else .truthText⟩])
    | _ => (default, [⟨place, .truthType⟩])

/-- A text. -/
def text (place : Path) (default : Text) : Option Document → Checked Text
  | none => (default, [])
  | some (.scalar (.text s)) => (s, [])
  | some _ => (default, [⟨place, .textType⟩])

/-- The items of a list that have to be texts, from position `n` on. -/
def textItems (place : Path) (n : Nat) : List Document → Checked (List Text)
  | [] => ([], [])
  | d :: rest =>
    let (s, issues) := text (place ++ [.index n]) [] (some d)
    let (others, more) := textItems place (n + 1) rest
    (s :: others, issues ++ more)

/-- A list of texts. -/
def texts (place : Path) (default : List Text) : Option Document → Checked (List Text)
  | none => (default, [])
  | some (.list items) => textItems place 0 items
  | some _ => (default, [⟨place, .listType⟩])

/-- A section: the check of its fields, or an issue where it is no map. -/
def sectionOf {α : Type} (place : Path) (default : α)
    (check : Fields → Checked α) : Option Document → Checked α
  | none => (default, [])
  | some (.map fields) => check fields
  | some _ => (default, [⟨place, .sectionType⟩])

/-- The settings of the compiler. -/
def compiler (fields : Fields) : Checked CompilerSettings :=
  let (n, i) := positive [.key "compiler", .key "max_iterations"] 10
    (fields.get? "max_iterations")
  let carry := [Segment.key "compiler", .key "carry_forward"]
  let (c, j) := text carry "^" (fields.get? "carry_forward")
  (⟨n, c⟩, i ++ j ++ if c = [] then [⟨carry, .refused⟩] else [])

/-- The names of the sections. -/
def sections (fields : Fields) : Checked SectionSettings :=
  let name (k : Text) := text [.key "sections", .key k] k (fields.get? k)
  let (c, i) := name "config"
  let (p, j) := name "palette"
  let (v, k) := name "vars"
  let (t, l) := name "theme"
  let (f, m) := texts [.key "sections", .key "flat_sections"] ["colors"]
    (fields.get? "flat_sections")
  (⟨c, p, v, t, f⟩, i ++ j ++ k ++ l ++ m)

/-- The settings of the loader. -/
def loader (fields : Fields) : Checked LoaderSettings :=
  let (e, i) := texts [.key "loader", .key "extensions"] Loader.defaultEndings
    (fields.get? "extensions")
  (⟨e⟩, i)

/-- The settings of batches. -/
def batch (fields : Fields) : Checked BatchSettings :=
  let (n, i) := positive [.key "batch", .key "max_workers"] 4 (fields.get? "max_workers")
  (⟨n⟩, i)

end Check

/-- The names of the fields that settings may have. -/
def Settings.fieldNames : List Text :=
  ["root", "config_path", "verbose", "log_json", "compiler", "sections", "loader", "batch"]

/-- The settings that a document of settings asks for, or all that is wrong with it. A name that
cannot be encoded is the only issue reported. -/
def Settings.check (root : FilePath) (configPath : Option FilePath)
    (fields : Fields) : Except (List Issue) Settings :=
  let field (k : Text) := fields.get? k
  let (verbose, i) := Check.truth [.key "verbose"] false (field "verbose")
  let (logJson, j) := Check.truth [.key "log_json"] false (field "log_json")
  let (compiler, k) := Check.sectionOf [.key "compiler"] {} Check.compiler (field "compiler")
  let (sections, l) := Check.sectionOf [.key "sections"] {} Check.sections (field "sections")
  let (loader, m) := Check.sectionOf [.key "loader"] {} Check.loader (field "loader")
  let (batch, n) := Check.sectionOf [.key "batch"] {} Check.batch (field "batch")
  let unknown := fields.filterMap fun f =>
    if fieldNames.contains f.1 then none else some (Issue.mk [.key f.1] .unknown)
  if fields.any fun f => f.1.chars?.isNone then .error [⟨[], .unencodable⟩]
  else match i ++ j ++ k ++ l ++ m ++ n ++ unknown with
  | [] => .ok ⟨root, configPath, verbose, logJson, compiler, sections, loader, batch⟩
  | issues => .error issues

end Colourway
