import Colourway.Document.Entries
import Colourway.Failure

/-!
# Assembled themes

The output document: first the header keys of the configuration, then its custom fields, then the
sections of the theme. A section that is named as flat is written as one map from flat paths,
provided that each of its entries has a key below the section.
-/

namespace Colourway

/-- The keys that are taken over from the configuration, in order. -/
def headerKeys : List Text := ["$schema", "name", "type"]

/-- The header and the custom fields. -/
def outputHead (config : Fields) : Fields :=
  let header := headerKeys.filterMap fun k => (config.get? k).map (k, ·)
  Assoc.putAll (((config.get? "custom").bind Document.fields?).getD []) header

/-- The entries by the text of their first segment, in the order of first use. -/
def bySection (entries : List Entry) : Except Fault (List (Text × List Entry)) :=
  entries.foldlM
    (fun done e =>
      match e.path with
      | [] => .error .emptyPath
      | s :: _ => .ok (Assoc.put s.text ((Assoc.get? s.text done).getD [] ++ [e]) done))
    []

/-- Whether an entry has a key right below its section. -/
def keyBelowSection (e : Entry) : Bool :=
  match e.path with
  | _ :: .key _ :: _ => true
  | _ => false

/-- A section as one map from the flat paths below it. -/
def flatSection (entries : List Entry) : Document :=
  .map (Assoc.ofPairs (entries.map fun e => (Path.flat (e.path.drop 1), e.value)))

/-- A section with its parts nested. Sections that are all named by list positions cannot be
looked up by name. -/
def nestedSection (name : Text) (entries : List Entry) : Except Fault Document :=
  let grown := Growth.ofEntries entries
  match Assoc.get? (.key name) grown with
  | some g => .ok g.finish
  | none => .error .listForMap

/-- One section of the output. -/
def outputSection (flat : List Text) (name : Text) (entries : List Entry) :
    Except Fault Document :=
  if flat.contains name && entries.all keyBelowSection then .ok (flatSection entries)
  else nestedSection name entries

/-- The output document for a configuration and the resolved entries of the theme. -/
def assemble (flat : List Text) (config : Fields) (entries : List Entry) :
    Except Fault Fields := do
  let sections ← bySection entries
  sections.foldlM (fun out s => do return Assoc.put s.1 (← outputSection flat s.1 s.2) out)
    (outputHead config)

end Colourway
