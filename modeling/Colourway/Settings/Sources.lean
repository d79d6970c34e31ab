import Colourway.Document.Merge
import Colourway.Format.Json
import Colourway.Format.Toml
import Colourway.Settings.Basic

/-!
# Where settings come from

Settings are gathered from four sources. Options of the caller win over environment variables, these
over the settings file, and that over the defaults. Sections are merged field by field. Options and
environment variables name fields in any case of their letters, the settings file as they are.

The settings file is the one that the caller or an environment variable names, or else the nearest
one in the starting directory and those above it.
-/

namespace Colourway

/-- What surrounds an invocation: the files, and the environment variables. -/
structure Surroundings where
  /-- The files. -/
  files : FileTree
  /-- The environment variables. -/
  environment : List (Text × Text) := []

namespace Surroundings

/-! ## The settings file -/

/-- The name of a settings file. -/
def settingsName : Text := "tinct.toml"

/-- The environment variable that names the settings file. -/
def settingsVariable : Text := "TINCT_CONFIG"

/-- Whether a path leads to a file. -/
def hasFile (w : Surroundings) (p : FilePath) : Bool :=
  match w.files.isFile p with
  | .ok found => found
  | .error _ => false

/-- The directory with the given names. -/
def directory (names : List Text) : FilePath := ⟨1, names⟩

/-- The working directory. -/
def workingDirectory (w : Surroundings) : FilePath := directory w.files.workingDirectory

/-- The nearest settings file in the directory with the given names, innermost first, or above. -/
def nearestSettings (w : Surroundings) : (innermostFirst : List Text) → Option FilePath
  | [] =>
    let p := directory [settingsName]
    if w.hasFile p then some p else none
  | n :: rest =>
    let p := directory ((n :: rest).reverse ++ [settingsName])
    if w.hasFile p then some p else nearestSettings w rest

/-- The settings file for a starting point: the one that the environment names, if any, and else
the nearest one. -/
def findSettings (w : Surroundings) (start : Option FilePath) : Option FilePath :=
  match (Assoc.get? settingsVariable w.environment).filter (· ≠ []) with
  | some named => if w.hasFile (.ofText named) then some (.ofText named) else none
  | none =>
    let place := w.files.resolved (start.getD w.workingDirectory)
    let place := if w.hasFile place then place.parent else place
    w.nearestSettings place.names.reverse

/-! ## Environment variables -/

/-- The lead of the variables that hold settings, in lower case. -/
def variableLead : Text := "tinct_"

/-- The variables with their names in lower case. -/
def lowerVariables (w : Surroundings) : List (Text × Text) :=
  Assoc.ofPairs (w.environment.map fun v => (Text.lower v.1, v.2))

/-- The fields without parts that variables can set. -/
def plainNames : List Text := ["verbose", "log_json"]

/-- The sections that variables can set, and the names of their fields. -/
def sectionFields : List (Text × List Text) :=
  [("compiler", ["max_iterations", "carry_forward"]),
    ("sections", ["config", "palette", "vars", "theme", "flat_sections"]),
    ("loader", ["extensions"]), ("batch", ["max_workers"])]

/-- The fields whose text is read as a document, since they hold a list: the section of each, and
the keys that lead to it. -/
def listFields : List (Text × List Text) :=
  [("sections", ["flat_sections"]), ("loader", ["extensions"])]

/-- A text as a document. -/
def documentOf (s : Text) : Except Fault Document :=
  match Json.document? s with
  | some d => .ok d
  | none => .error .unreadableVariable

/-- The parts of a name between double underscores. -/
def nameParts : Text → List Text
  | [] => [[]]
  | [c] => [[c]]
  | c :: e :: rest =>
    if c = '_' ∧ e = '_' then [] :: nameParts rest
    else
      match nameParts (e :: rest) with
      | [] => [[c]]
      | part :: parts => (c :: part) :: parts

/-- Fields with a value at the end of a row of keys; unchanged if a value that is no map stands on
the way. -/
def putNested (value : Document) : List Text → Fields → Fields
  | [], fields => fields
  | [k], fields => Assoc.put k value fields
  | k :: rest, fields =>
    match Assoc.get? k fields with
    | none => Assoc.put k (.map (putNested value rest [])) fields
    | some (.map inner) => Assoc.put k (.map (putNested value rest inner)) fields
    | some _ => fields

/-- The fields of a section that variables give one by one. -/
def sectionVariables (name : Text) (given : List (Text × Text)) : Except Fault Fields :=
  given.foldlM
    (fun fields v => do
      let lead := variableLead ++ name ++ "__"
      match lead.isPrefixOf? v.1 with
      | none => return fields
      | some rest =>
        let keys := nameParts rest
        let value ← if (name, keys) ∈ listFields ∧ v.2 ≠ [] then documentOf v.2
          else pure (.text v.2)
        return putNested value keys fields)
    []

/-- The fields of a section under the names that it knows, whatever the case of their letters. -/
def respelled (names : List Text) (fields : Fields) : Fields :=
  Assoc.ofPairs (fields.map fun f =>
    ((names.find? fun name => name == Text.lower f.1).getD f.1, f.2))

/-- A section as the variables give it: as a whole, field by field, or both. Given as nothing, it is
left out. -/
def sectionFromVariables (given : List (Text × Text)) (name : Text) (names : List Text) :
    Except Fault (Option Document) := do
  let fields ← sectionVariables name given
  match Assoc.get? (variableLead ++ name) given with
  | none => return if fields.isEmpty then none else some (.map (respelled names fields))
  | some whole =>
    match ← documentOf whole with
    | .map base => return some (.map (respelled names (Document.mergeFields base fields)))
    | .scalar .null => return none
    | d => return some d

/-- The settings that environment variables give. -/
def fromVariables (w : Surroundings) : Except Fault Fields := do
  let given := w.lowerVariables
  let plain := plainNames.filterMap fun k =>
    (Assoc.get? (variableLead ++ k) given).map fun s => (k, Document.text s)
  let sections ← sectionFields.filterMapM fun (k, names) => do
    return (← sectionFromVariables given k names).map (k, ·)
  return plain ++ sections

/-! ## The settings of an invocation -/

/-- The fields of a settings file; none if there is no such file. -/
def fromFile (w : Surroundings) (path : Option FilePath) : Except Failure Fields :=
  match path with
  | none => .ok []
  | some p =>
    match w.files.read p with
    | .error _ => .ok []
    | .ok bytes =>
      match Loader.decode bytes with
      | none => .error (.fault .undecodable)
      | some s =>
        match Toml.read s with
        | .ok fields => .ok fields
        | .error .malformed => .error (.error (.other "Invalid TOML"))
        | .error .longInteger => .error (.fault .longInteger)

end Surroundings

/-- Why there are no settings. -/
inductive SettingsError where
  /-- The settings are not valid. -/
  | invalid (issues : List Issue)
  /-- The sources could not be read. -/
  | unreadable (cause : Failure)

/-- What a caller asks for. -/
structure Options where
  /-- The directory that relative paths start from. -/
  root : Option FilePath := none
  /-- The settings file. -/
  configPath : Option Text := none
  /-- Settings that win over all other sources. -/
  fields : Fields := []

/-- The settings file that is in effect for a caller. -/
def Options.settingsFile (o : Options) (w : Surroundings) : Option FilePath :=
  match o.configPath.filter (· ≠ []) with
  | some named => if w.hasFile (.ofText named) then some (.ofText named) else none
  | none => w.findSettings o.root

/-- The options under the names of their fields. A field may be named in any case of its letters;
its own spelling counts before others, and these in their order. -/
def Options.respelled (o : Options) : Fields :=
  let isNamed (name : Text) (f : Text × Document) : Bool := Text.lower f.1 == name
  let known := Settings.fieldNames.filterMap fun name =>
    ((o.fields.get? name).or ((o.fields.find? (isNamed name)).map Prod.snd)).map (name, ·)
  known ++ o.fields.filter fun f => !Settings.fieldNames.contains (Text.lower f.1)

/-- The settings of an invocation. -/
def Settings.gather (w : Surroundings) (o : Options) : Except SettingsError Settings := do
  let path := o.settingsFile w
  let root := o.root.getD ((path.map FilePath.parent).getD w.workingDirectory)
  let given ← (w.fromVariables.mapError Failure.fault).mapError SettingsError.unreadable
  let file ← (w.fromFile path).mapError SettingsError.unreadable
  let merged := Document.mergeFields (Document.mergeFields file given) o.respelled
  (Settings.check root path merged).mapError SettingsError.invalid

end Colourway
