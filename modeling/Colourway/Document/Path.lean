import Colourway.Document.Basic
import Colourway.Number.Written

/-!
# Paths

A path leads from the root of a document to one of its parts. A key is one segment even when it
holds dots; only the flat form of a path joins the segments with dots.
-/

namespace Colourway

/-- One step of a path. -/
inductive Segment where
  /-- The value under a key of a map. -/
  | key (name : Text)
  /-- The item at a position of a list. -/
  | index (position : Int)
  deriving DecidableEq, Inhabited

/-- The segments from the root on. -/
abbrev Path := List Segment

namespace Segment

/-- The segment as text. -/
def text : Segment → Text
  | .key name => name
  | .index n => Number.intDigits n

/-- Whether the segment is a list position. -/
def isIndex : Segment → Bool
  | .index _ => true
  | .key _ => false

end Segment

/-- The flat form of a path: its segments with dots between them. -/
def Path.flat (path : Path) : Text := Text.join "." (path.map Segment.text)

/-- The part of a document that a path leads to. -/
def Document.at? : Path → Document → Option Document
  | [], d => some d
  | .key name :: rest, .map fields => (Assoc.get? name fields).bind (Document.at? rest)
  | .index n :: rest, .list items =>
    if 0 ≤ n then (items[n.toNat]?).bind (Document.at? rest) else none
  | _ :: _, _ => none

end Colourway
