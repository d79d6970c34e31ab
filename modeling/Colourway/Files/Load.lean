import Colourway.Failure
import Colourway.Files.Tree
import Colourway.Format.Json5
import Colourway.Format.Yaml
import Colourway.Layer.Composition
import Colourway.Text.Lowercase

/-!
# Loading documents

A file is read as a document when its ending is among the configured ones. Two endings stand for
JSON5, any other for YAML. An import names a file next to the document that imports it; where the
name has no ending, the configured ones are tried in turn.
-/

namespace Colourway

open Text

/-- The fault that a refusal amounts to, where the text of the path is to blame. -/
def FileError.fault? : FileError → Option Fault
  | .badPath => some .unusablePath
  | .unencodable => some .unencodable
  | _ => none

/-- The readers of the formats of documents: the document that a text denotes, if the reader does
not refuse the text. -/
structure Readers where
  /-- The reader of JSON5, which JSON is a part of. -/
  json5 : Text → Option Document
  /-- The reader of YAML. -/
  yaml : Text → Option Document

/-- The readers of JSON5 and of YAML in brackets or in lines of fields. -/
def Readers.builtIn : Readers := ⟨Json5.document?, Yaml.document?⟩

/-- How documents are found and read. -/
structure Loader where
  /-- The endings of documents, in lower case and in the order in which they are tried. -/
  endings : List Text
  /-- How texts are read. -/
  readers : Readers

namespace Loader

/-- The loader for some endings, in whatever case they are given. -/
def ofEndings (endings : List Text) (readers : Readers := .builtIn) : Loader :=
  ⟨endings.map lower, readers⟩

/-- The endings that are used unless others are configured. -/
def defaultEndings : List Text := [".yaml", ".yml", ".json", ".json5"]

/-- The text with one line feed for each end of a line. -/
def plainLineEnds : Text → Text
  | [] => []
  | [c] => [if c = '\r' then '\n' else c]
  | c :: e :: rest =>
    if c = '\r' then
      if e = '\n' then '\n' :: plainLineEnds rest else '\n' :: plainLineEnds (e :: rest)
    else c :: plainLineEnds (e :: rest)

/-- The text that bytes encode, if they encode any. -/
def decode (bytes : ByteArray) : Option Text := (Text.ofUtf8? bytes).map plainLineEnds

/-- Whether an ending stands for JSON5, which JSON is a part of. Any other stands for YAML. -/
def isJson (ending : Text) : Bool := lower ending = ".json" ∨ lower ending = ".json5"

/-- The document that a text denotes under an ending. White space alone is the empty map in JSON5;
in YAML anything that counts as nothing is. -/
def parse (l : Loader) (ending s : Text) : Option Document :=
  if isJson ending then if allBlank s then some (.map []) else l.readers.json5 s
  else (l.readers.yaml s).map fun d => if d.isVoid then .map [] else d

/-- A load error for a path. -/
def refuse (p : FilePath) (reason : LoadReason) : Failure := .error (.load p.text reason)

/-- The fields of the document in a file. -/
def load (l : Loader) (t : FileTree) (p : FilePath) : Except Failure Fields :=
  if !l.endings.contains (lower p.ending) then
    .error (refuse p (.stated ("unsupported extension " ++ Document.quotedText p.ending)))
  else
    match t.read p with
    | .error e => .error ((e.fault?.map Failure.fault).getD (refuse p (.stated e.words)))
    | .ok bytes =>
      match decode bytes with
      | none => .error (.fault .undecodable)
      | some s =>
        match l.parse p.ending s with
        | none => .error (refuse p .malformed)
        | some (.map fields) => .ok fields
        | some d => .error (refuse p (.stated ("expected a map, got " ++ d.kindName)))

/-- Whether a path leads to a file. -/
def isFile (t : FileTree) (p : FilePath) : Except Failure Bool :=
  (t.isFile p).mapError fun _ => .fault .nameTooLong

/-- The first path with one of the endings behind it that is a file. -/
def withEnding (t : FileTree) (p : FilePath) : List Text → Except Failure (Option FilePath)
  | [] => .ok none
  | ending :: rest =>
    match p.extend? ending with
    | none => .error (.fault .unusablePath)
    | some q => do
      if ← isFile t q then return some q else withEnding t p rest

/-- The file that an import refers to, seen from a directory. -/
def resolveImport (l : Loader) (t : FileTree) (name : Text) (directory : FilePath) :
    Except Failure FilePath := do
  let candidate := directory.join (.ofText name)
  if ← isFile t candidate then return candidate
  let extended ← if candidate.ending = [] then withEnding t candidate l.endings else pure none
  match extended with
  | some found => return found
  | none => .error (refuse candidate (.stated "import not found"))

/-- The layers that imports name, in order. -/
def loadLayers (l : Loader) (t : FileTree) (directory : FilePath) :
    List Text → Except Failure (List Layer)
  | [] => .ok []
  | name :: rest => do
    let path ← l.resolveImport t name directory
    let fields ← l.load t path
    return ⟨name, fields⟩ :: (← loadLayers l t directory rest)

end Loader

end Colourway
