import Colourway.Assoc
import Colourway.Files.Path

/-!
# File trees

The files that a program can see: a tree of directories and files, and the directory that relative
paths start from. Paths are followed name by name, so that two dots behind a missing directory lead
nowhere.
-/

namespace Colourway

/-- A file or a directory. -/
inductive FileNode where
  /-- A file with its bytes. -/
  | file (bytes : ByteArray)
  /-- A directory with its parts. -/
  | directory (parts : List (Text × FileNode))
  deriving Inhabited

/-- Why the system refuses an operation on files. -/
inductive FileError where
  /-- A name on the way does not exist. -/
  | missing
  /-- Something exists where it may not. -/
  | occupied
  /-- A name on the way is no directory. -/
  | notDirectory
  /-- A directory where a file is needed. -/
  | isDirectory
  /-- A name or the whole path is too long. -/
  | nameTooLong
  /-- The path holds a character that no path may hold. -/
  | badPath
  /-- The path holds a surrogate that stands for no byte. -/
  | unencodable
  deriving DecidableEq

namespace FileError

/-- The words for a refusal. -/
def words : FileError → String
  | missing => "No such file or directory"
  | occupied => "File exists"
  | notDirectory => "Not a directory"
  | isDirectory => "Is a directory"
  | nameTooLong => "File name too long"
  | badPath => "embedded null byte"
  | unencodable => "surrogates not allowed"

/-- The number of a refusal. -/
def number : FileError → Nat
  | missing => 2
  | occupied => 17
  | notDirectory => 20
  | isDirectory => 21
  | nameTooLong => 36
  | badPath => 0
  | unencodable => 0

end FileError

/-- All files, and the directory that relative paths start from. -/
structure FileTree where
  /-- The parts of the root directory. -/
  parts : List (Text × FileNode)
  /-- The names from the root to the working directory. -/
  workingDirectory : List Text

namespace FileTree

/-- What stands below directory parts at a place given by names without dots. -/
def nodeBelow : List Text → FileNode → Option FileNode
  | [], node => some node
  | name :: rest, .directory parts => (Assoc.get? name parts).bind (nodeBelow rest)
  | _ :: _, .file _ => none

/-- What stands at a place given by names without dots. -/
def node? (t : FileTree) (place : List Text) : Option FileNode :=
  nodeBelow place (.directory t.parts)

/-- The place that one more name leads to. -/
def enter (t : FileTree) (place : List Text) (name : Text) : Except FileError (List Text) :=
  match t.node? place with
  | some (.directory parts) =>
    if 255 < FilePath.byteCount name then .error .nameTooLong
    else if name = ".." then .ok place.dropLast
    else if (Assoc.get? name parts).isSome then .ok (place ++ [name])
    else .error .missing
  | some (.file _) => .error .notDirectory
  | none => .error .missing

/-- The place that a path starts from. -/
def start (t : FileTree) (p : FilePath) : List Text :=
  if p.isAbsolute then [] else t.workingDirectory

/-- Refuses texts that the system takes for no path. -/
def requireWithin (p : FilePath) : Except FileError Unit :=
  if !p.text.all FilePath.isEncodable then .error .unencodable
  else if p.text.contains (.char '\x00') then .error .badPath
  else if 4095 < FilePath.byteCount p.text then .error .nameTooLong
  else .ok ()

/-- The place that a path leads to. -/
def place (t : FileTree) (p : FilePath) : Except FileError (List Text) := do
  requireWithin p
  p.names.foldlM t.enter (t.start p)

/-- What a path leads to. -/
def find (t : FileTree) (p : FilePath) : Except FileError FileNode := do
  let place ← t.place p
  match t.node? place with
  | some node => return node
  | none => .error .missing

/-- Whether a path leads to a file. A name that is too long is refused; all else that leads
nowhere is no file. -/
def isFile (t : FileTree) (p : FilePath) : Except FileError Bool :=
  match t.find p with
  | .ok (.file _) => .ok true
  | .ok (.directory _) => .ok false
  | .error .nameTooLong => .error .nameTooLong
  | .error _ => .ok false

/-- Whether a path leads to a directory. -/
def isDirectory (t : FileTree) (p : FilePath) : Bool :=
  match t.find p with
  | .ok (.directory _) => true
  | _ => false

/-- The bytes of the file that a path leads to. -/
def read (t : FileTree) (p : FilePath) : Except FileError ByteArray := do
  match ← t.find p with
  | .file bytes => return bytes
  | .directory _ => .error .isDirectory

/-! ## Writing -/

/-- Directory parts with a node put at a place below them. -/
def putBelow (node : FileNode) :
    List Text → List (Text × FileNode) → List (Text × FileNode)
  | [], parts => parts
  | [name], parts => Assoc.put name node parts
  | name :: rest, parts =>
    match Assoc.get? name parts with
    | some (.directory inner) => Assoc.put name (.directory (putBelow node rest inner)) parts
    | _ => parts

/-- The tree with a node put at a place. -/
def putAt (t : FileTree) (place : List Text) (node : FileNode) : FileTree :=
  { t with parts := putBelow node place t.parts }

/-- The place of a path that may not exist itself, in a directory that does. -/
def newPlace (t : FileTree) (p : FilePath) : Except FileError (List Text) := do
  requireWithin p
  let above ← p.parent.names.foldlM t.enter (t.start p)
  match t.enter above p.name with
  | .ok place => return place
  | .error .missing =>
    match t.node? above with
    | some (.directory _) => return above ++ [p.name]
    | _ => .error .missing
  | .error e => .error e

/-- Makes the one directory that a path names. -/
def makeDirectory (t : FileTree) (p : FilePath) : Except FileError FileTree := do
  if p.names = [] then .error .occupied
  else
    let place ← t.newPlace p
    match t.node? place with
    | some _ => .error .occupied
    | none => return t.putAt place (.directory [])

/-- Makes a directory and those above it. `left` counts the names that the path may still lose. On
failure the path that was refused is reported, and what was made stays. -/
def makeDirectories : (left : Nat) → FileTree → FilePath →
    FileTree × Except (FileError × FilePath) Unit
  | left, t, p =>
    match t.makeDirectory p with
    | .ok t => (t, .ok ())
    | .error .missing =>
      match left with
      | 0 => (t, .error (.missing, p))
      | left + 1 =>
        match makeDirectories left t p.parent with
        | (t, .error e) => (t, .error e)
        | (t, .ok ()) =>
          match t.makeDirectory p with
          | .ok t => (t, .ok ())
          | .error e =>
            if e != .missing && t.isDirectory p then (t, .ok ()) else (t, .error (e, p))
    | .error e => if t.isDirectory p then (t, .ok ()) else (t, .error (e, p))

/-- Writes a file in a directory that exists. -/
def writeFile (t : FileTree) (p : FilePath) (bytes : ByteArray) : Except FileError FileTree := do
  if p.names = [] then .error .isDirectory
  else
    let place ← t.newPlace p
    match t.node? place with
    | some (.directory _) => .error .isDirectory
    | _ => return t.putAt place (.file bytes)

/-- Makes the directories above a path. -/
def makeParents (t : FileTree) (p : FilePath) : FileTree × Except (FileError × FilePath) Unit :=
  makeDirectories p.names.length t p.parent

/-- Writes a file and makes the directories above it. -/
def write (t : FileTree) (p : FilePath) (bytes : ByteArray) :
    FileTree × Except (FileError × FilePath) Unit :=
  match t.makeParents p with
  | (t, .error e) => (t, .error e)
  | (t, .ok ()) =>
    match t.writeFile p bytes with
    | .ok t => (t, .ok ())
    | .error e => (t, .error (e, p))

/-- The place without two dots that a path stands for, whether or not it exists. -/
def resolved (t : FileTree) (p : FilePath) : FilePath :=
  { root := 1
    names := p.names.foldl
      (fun place (n : Text) => if n = ".." then place.dropLast else place ++ [n]) (t.start p) }

end FileTree

end Colourway
