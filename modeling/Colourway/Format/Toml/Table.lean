import Colourway.Document.Basic

/-!
# Tables under construction

A settings file fills tables one statement after the other. Which statements may still reach a table
depends on how it came about, so tables remember the section that defined them. Sections are
numbered; each header starts a new one.

A header may open a table that it only finds in passing, on the way to a table below it, but no
table that has been defined. A key with dots defines the tables on its way; the same section may
pass through them again, later sections may not. Nothing can be put below a finished value.
-/

namespace Colourway.Toml

/-- What stands under a key. -/
inductive Part where
  /-- A finished value. -/
  | value (d : Document)
  /-- A table, with the section that defined it, if one has. -/
  | table (definedBy : Option Nat) (parts : List (Text × Part))
  /-- An array of tables: those that are finished, and the one that is open. -/
  | tables (finished : List Document) (parts : List (Text × Part))

/-- The parts of a table by key, in the order in which they were begun. -/
abbrev Parts := List (Text × Part)

namespace Part

mutual

/-- The finished document. -/
def finish : Part → Document
  | .value d => d
  | .table _ parts => .map (finishAll parts)
  | .tables finished parts => .list (finished ++ [.map (finishAll parts)])

/-- The finished fields of a table. -/
def finishAll : List (Text × Part) → Fields
  | [] => []
  | (k, p) :: rest => (k, p.finish) :: finishAll rest

end

end Part

namespace Parts

/-- Puts a value under a key with dots, for section `now`. -/
def put (now : Nat) (d : Document) : List Text → Parts → Option Parts
  | [], _ => none
  | [k], parts =>
    match Assoc.get? k parts with
    | none => some (Assoc.put k (.value d) parts)
    | some _ => none
  | k :: path, parts =>
    match Assoc.get? k parts with
    | none => (put now d path []).map fun inner => Assoc.put k (.table (some now) inner) parts
    | some (.table definedBy inner) =>
      if definedBy = none ∨ definedBy = some now then
        (put now d path inner).map fun inner => Assoc.put k (.table (some now) inner) parts
      else none
    | some _ => none

/-- Changes the table at a path; tables that are missing are made in passing. Of an array of tables
the open one is meant. -/
def change (f : Parts → Option Parts) : List Text → Parts → Option Parts
  | [], parts => f parts
  | k :: path, parts =>
    match Assoc.get? k parts with
    | none => (change f path []).map fun inner => Assoc.put k (.table none inner) parts
    | some (.table definedBy inner) =>
      (change f path inner).map fun inner => Assoc.put k (.table definedBy inner) parts
    | some (.tables finished inner) =>
      (change f path inner).map fun inner => Assoc.put k (.tables finished inner) parts
    | some (.value _) => none

/-- Defines the table under a key, for section `now`. -/
def define (now : Nat) (key : Text) (parts : Parts) : Option Parts :=
  match Assoc.get? key parts with
  | none => some (Assoc.put key (.table (some now) []) parts)
  | some (.table none inner) => some (Assoc.put key (.table (some now) inner) parts)
  | some _ => none

/-- Opens one more table of the array of tables under a key. -/
def append (key : Text) (parts : Parts) : Option Parts :=
  match Assoc.get? key parts with
  | none => some (Assoc.put key (.tables [] []) parts)
  | some (.tables finished inner) =>
    some (Assoc.put key (.tables (finished ++ [.map (Part.finishAll inner)]) []) parts)
  | some _ => none

end Parts

end Colourway.Toml
