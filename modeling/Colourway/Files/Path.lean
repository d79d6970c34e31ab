import Colourway.Text.Basic

/-!
# File paths

A path is a row of names behind an optional root. Empty names and single dots are left out when a
path is read; two dots stay, since only the file system knows where they lead. Two slashes in front
make a root of their own, any other number counts as one.
-/

namespace Colourway

/-- A file path. -/
structure FilePath where
  /-- The number of slashes of the root: none for a relative path. -/
  root : Nat
  /-- The names behind the root. -/
  names : List Text
  deriving DecidableEq, Inhabited

namespace FilePath

/-- The number of leading slashes that count. -/
def rootOf (s : Text) : Nat :=
  let slashes := (s.takeWhile (· == .char '/')).length
  if slashes ≤ 2 then slashes else 1

/-- The parts between slashes. -/
def splitSlashes (s : Text) : List Text :=
  s.foldr
    (fun c done =>
      match done with
      | [] => [[c]]
      | part :: rest => if c = '/' then [] :: part :: rest else (c :: part) :: rest)
    [[]]

/-- The path that a text denotes. -/
def ofText (s : Text) : FilePath :=
  { root := rootOf s
    names := (splitSlashes s).filter fun n => n ≠ [] ∧ n ≠ "." }

/-- The text of a path; the empty relative path is a dot. -/
def text (p : FilePath) : Text :=
  if p.root = 0 ∧ p.names = [] then "."
  else List.replicate p.root (CodePoint.char '/') ++ Text.join "/" p.names

/-! ## Bytes of a path

The surrogates from U+DC80 to U+DCFF stand for the bytes from 80 to FF; others stand for none. -/

/-- Whether a code point can be part of a path. -/
def isEncodable : CodePoint → Bool
  | .char _ => true
  | .surrogate offset => 0x480 ≤ offset.val && offset.val < 0x500

/-- The number of bytes of a code point in a path. -/
def byteSize : CodePoint → Nat
  | .char c => c.utf8Size
  | .surrogate _ => 1

/-- The number of bytes of a text in a path. -/
def byteCount (s : Text) : Nat := s.foldl (fun n c => n + byteSize c) 0

/-! ## Parts of a path -/

/-- Whether the path starts at the root. -/
def isAbsolute (p : FilePath) : Bool := p.root != 0

/-- The path `q` seen from the directory `p`. -/
def join (p q : FilePath) : FilePath :=
  if q.isAbsolute then q else { p with names := p.names ++ q.names }

/-- The last name; empty for a path without names. -/
def name (p : FilePath) : Text := p.names.getLast?.getD []

/-- The path without its last name. -/
def parent (p : FilePath) : FilePath := { p with names := p.names.dropLast }

/-- The ending of a name from its last dot on, unless the dot comes first or last. -/
def endingOf (s : Text) : Text :=
  let tail := (s.reverse.takeWhile (· != .char '.')).reverse
  if tail.length = s.length ∨ tail = [] ∨ tail.length + 1 = s.length then [] else '.' :: tail

/-- The ending of the last name. -/
def ending (p : FilePath) : Text := endingOf p.name

/-- The path with an ending put behind its last name. There has to be a name, and the result has to
be one name. -/
def extend? (p : FilePath) (ending : Text) : Option FilePath :=
  let name := p.name ++ ending
  if p.name = [] ∨ name.contains (.char '/') then none
  else some { p with names := p.names.dropLast ++ [name] }

end FilePath

end Colourway
