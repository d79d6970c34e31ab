import Colourway.Document.Path

/-!
# Documents as entries

A document is taken apart into one entry a leaf, depth first in the order of keys and positions,
and put together again from entries. Empty containers have no leaves and leave no entries.

Putting together works on a tree whose branches still know which of their segments are keys and
which are positions. A branch of positions only becomes a list in the order of the positions; any
other becomes a map.
-/

namespace Colourway

/-- The place of a leaf that is an item of a list. -/
structure ListPlace where
  /-- The path of the list. -/
  path : Path
  /-- The position in it. -/
  index : Int
  deriving DecidableEq

/-- A leaf of a document with its path. -/
structure Entry where
  /-- The path of the leaf. -/
  path : Path
  /-- The leaf. -/
  value : Document
  /-- The place in a list, for a leaf that is an item. -/
  place : Option ListPlace := none
  deriving Inhabited

namespace Entry

/-- The flat form of the path. -/
def flat (e : Entry) : Text := Path.flat e.path

/-- The same place with another value. -/
def withValue (e : Entry) (value : Document) : Entry := { e with value := value }

/-- The entry as it is when its document stands at `lead` in a larger one. -/
def below (lead : Path) (e : Entry) : Entry :=
  { path := lead ++ e.path
    value := e.value
    place := e.place.map fun p => ⟨lead ++ p.path, p.index⟩ }

end Entry

namespace Document

/-! ## Taking apart -/

mutual

/-- The entries of a document that stands at `lead`. -/
def entriesBelow (lead : Path) : Document → List Entry
  | .scalar _ => []
  | .list items => itemEntries lead 0 items
  | .map fields => fieldEntries lead fields

/-- The entries of the items of the list at `lead`, from position `n` on. -/
def itemEntries (lead : Path) (n : Nat) : List Document → List Entry
  | [] => []
  | d :: rest =>
    (match d with
      | .scalar _ => [⟨lead ++ [.index n], d, some ⟨lead, n⟩⟩]
      | _ => entriesBelow (lead ++ [.index n]) d) ++ itemEntries lead (n + 1) rest

/-- The entries of the fields of the map at `lead`. -/
def fieldEntries (lead : Path) : Fields → List Entry
  | [] => []
  | (k, d) :: rest =>
    (match d with
      | .scalar _ => [⟨lead ++ [.key k], d, none⟩]
      | _ => entriesBelow (lead ++ [.key k]) d) ++ fieldEntries lead rest

end

/-- The entries of a document, depth first. -/
def entries (d : Document) : List Entry := d.entriesBelow []

/-- The leaves of a document under their flat paths. -/
def flatten (d : Document) : Fields :=
  Assoc.ofPairs (d.entries.map fun e => (e.flat, e.value))

end Document

/-! ## Putting together -/

/-- A document under construction. -/
inductive Growth where
  /-- A finished value. -/
  | leaf (value : Document)
  /-- A container that is still open. -/
  | branch (children : List (Segment × Growth))

namespace Growth

/-- The children of an open container; a finished value has none. -/
def children : Growth → List (Segment × Growth)
  | .leaf _ => []
  | .branch cs => cs

/-- Sets the value at a path below a container. A finished value in the way is given up for a
container. The empty path sets nothing. -/
def insert (value : Document) : Path → List (Segment × Growth) → List (Segment × Growth)
  | [], cs => cs
  | [s], cs => Assoc.put s (.leaf value) cs
  | s :: rest, cs =>
    let below := ((Assoc.get? s cs).map children).getD []
    Assoc.put s (.branch (insert value rest below)) cs

/-- The children that entries give when they are set one after the other. -/
def ofEntries (entries : List Entry) : List (Segment × Growth) :=
  entries.foldl (fun cs e => insert e.value e.path cs) []

/-- The position that a segment gives. -/
def position : Segment → Int
  | .index n => n
  | .key _ => 0

/-- Closes a container: a list if there are children and all of them have positions. -/
def close (children : List (Segment × Document)) : Document :=
  if !children.isEmpty && children.all (·.1.isIndex) then
    .list ((children.mergeSort fun a b => position a.1 ≤ position b.1).map Prod.snd)
  else .map (children.map fun c => (c.1.text, c.2))

mutual

/-- The finished document. -/
def finish : Growth → Document
  | .leaf value => value
  | .branch cs => close (finishAll cs)

/-- The finished children of a container. -/
def finishAll : List (Segment × Growth) → List (Segment × Document)
  | [] => []
  | (s, g) :: rest => (s, g.finish) :: finishAll rest

end

end Growth

/-- The document that entries describe. No entries give the empty map; of entries with one path
the last counts. -/
def Document.ofEntries (entries : List Entry) : Document :=
  (Growth.branch (Growth.ofEntries entries)).finish

end Colourway
