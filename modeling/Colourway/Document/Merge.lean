import Colourway.Document.Basic

/-!
# Merging documents

A later map is laid over an earlier one: maps under one key are merged in turn, anything else of
the later document takes the place of what was there.
-/

namespace Colourway.Document

mutual

/-- The fields of `base` with later fields laid over them. -/
def mergeFields (base : Fields) :
    Fields → Fields
  | [] => base
  | (k, d) :: rest => mergeFields (Assoc.put k (mergeOver (Assoc.get? k base) d) base) rest

/-- A later value laid over what its key held before. -/
def mergeOver (current : Option Document) : Document → Document
  | .map fields =>
    match current with
    | some (.map base) => .map (mergeFields base fields)
    | _ => .map fields
  | d => d

end

/-- A later map laid over an earlier one. -/
def merge (base later : Fields) : Document := .map (mergeFields base later)

end Colourway.Document
