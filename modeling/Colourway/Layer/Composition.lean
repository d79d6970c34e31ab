import Colourway.Document.Entries
import Colourway.Document.Merge
import Colourway.Failure
import Colourway.Text.Substitute

/-!
# Layers

Documents are laid over one another in order, the main document last. The palette and the
variables are merged key by key, and so are the maps of the theme; lists of the theme are appended.
Before a map is merged, the carry mark inside its texts is replaced by what the key held before,
which is a fault if that is an integer of too many digits. Each leaf remembers the layer that wrote
it.
-/

namespace Colourway

open Text

/-- The sections that layers share, and the mark for the value of an earlier layer. -/
structure SectionNames where
  /-- The palette. -/
  palette : Text := "palette"
  /-- The variables. -/
  vars : Text := "vars"
  /-- The theme. -/
  theme : Text := "theme"
  /-- The carry mark. -/
  carryMark : Text := "^"

/-- The names of the composed sections, in the order of the composed document. -/
def SectionNames.all (n : SectionNames) : List Text := [n.palette, n.vars, n.theme]

/-- A document that takes part in a composition. -/
structure Layer where
  /-- The name of the layer. -/
  name : Text
  /-- The fields of the document. -/
  fields : Fields

/-- The name of the layer that the main document makes up. -/
def Layer.mainName : Text := "<main>"

/-- A composed document. -/
structure Composition where
  /-- The fields of the document, not resolved yet. -/
  fields : Fields
  /-- The layer that wrote each leaf last, by flat path. -/
  origins : List (Text × Text) := []
  /-- The names of the layers, the main document last. -/
  layers : List Text := []

/-- How the values of one section of the theme come together across layers. -/
inductive SectionPolicy where
  /-- Key by key. -/
  | objectMerge
  /-- One list after the other. -/
  | arrayAppend
  deriving DecidableEq

/-- The name of a policy in answers. -/
def SectionPolicy.name : SectionPolicy → String
  | .objectMerge => "object-merge"
  | .arrayAppend => "array-append"

/-- Lists are appended; everything else is merged. -/
def SectionPolicy.of : Document → SectionPolicy
  | .list _ => .arrayAppend
  | _ => .objectMerge

/-! ## Carrying values forward -/

/-- A leaf with the carry mark in it replaced by the earlier value. Without an earlier scalar the
leaf stays as it is. -/
def carryLeaf (mark : Text) (previous : Option Document) : Document → Except Fault Document
  | .scalar (.text v) =>
    match previous with
    | some (.scalar p) =>
      if p ≠ .null ∧ occursIn mark v then
        match p.spliced? with
        | some s => .ok (.text (replaceAll mark s v))
        | none => .error .longInteger
      else .ok (.text v)
    | _ => .ok (.text v)
  | d => .ok d

mutual

/-- A value with the carry marks in its leaves replaced by what lies under the same keys of the
earlier value. -/
def carryValue (mark : Text) (previous : Option Document) : Document → Except Fault Document
  | .map fields => do
    return .map (← carryFields mark ((previous.bind Document.fields?).getD []) fields)
  | d => carryLeaf mark previous d

/-- Fields with their carry marks replaced from the earlier fields. -/
def carryFields (mark : Text) (prior : Fields) : Fields → Except Fault Fields
  | [] => .ok []
  | (k, d) :: rest => do
    let carried ← carryValue mark (Assoc.get? k prior) d
    return (k, carried) :: (← carryFields mark prior rest)

end

/-! ## Laying one layer over the others -/

/-- The sections composed so far. -/
structure Stack where
  /-- The sections by name. -/
  merged : Fields := []
  /-- The layer that wrote each leaf last. -/
  origins : List (Text × Text) := []

/-- Notes that a layer wrote the leaves of a value at a path. -/
def recordOrigins (origins : List (Text × Text)) (path : Path) (value : Document)
    (layer : Text) : List (Text × Text) :=
  match value with
  | .scalar _ => Assoc.put (Path.flat path) layer origins
  | d => (d.entriesBelow path).foldl (fun o e => Assoc.put e.flat layer o) origins

/-- Notes that a layer wrote items of the list at a path, from position `start` on. -/
def recordItems (origins : List (Text × Text)) (path : Path) (start : Nat)
    (layer : Text) : List Document → List (Text × Text)
  | [] => origins
  | d :: rest =>
    recordItems (recordOrigins origins (path ++ [.index start]) d layer) path (start + 1) layer
      rest

/-- Lays the palette or the variables of a layer over the stack. -/
def Stack.laySection (s : Stack) (mark name : Text) (layer : Layer) : Except Fault Stack :=
  match Assoc.get? name layer.fields with
  | none => .ok s
  | some incoming =>
    if incoming.isVoid then .ok s
    else
      match incoming with
      | .map fields => do
        let base := ((Assoc.get? name s.merged).bind Document.fields?).getD []
        let carried ← carryFields mark base fields
        return {
          merged := Assoc.put name (.merge base carried) s.merged
          origins := recordOrigins s.origins [.key name] (.map carried) layer.name }
      | d =>
        .ok {
          merged := Assoc.put name d s.merged
          origins := recordOrigins s.origins [.key name] d layer.name }

/-- The value of one section of the theme after a layer wrote to it. -/
def layThemeValue (mark : Text) (prior : Option Document) : Document → Except Fault Document
  | .list items =>
    match prior with
    | some (.list earlier) => .ok (.list (earlier ++ items))
    | _ => .ok (.list items)
  | .map fields => do
    let base := (prior.bind Document.fields?).getD []
    return .merge base (← carryFields mark base fields)
  | d => carryLeaf mark prior d

/-- The number of items that a list section has already. -/
def itemCount : Option Document → Nat
  | some (.list items) => items.length
  | _ => 0

/-- Lays one section of a layer's theme over the stack. -/
def Stack.layThemeSection (mark theme layer : Text) (s : Stack) (field : Text × Document) :
    Except Fault Stack := do
  let target := ((Assoc.get? theme s.merged).bind Document.fields?).getD []
  let prior := Assoc.get? field.1 target
  let path := [.key theme, .key field.1]
  let value ← layThemeValue mark prior field.2
  return {
    merged := Assoc.put theme (.map (Assoc.put field.1 value target)) s.merged
    origins :=
      match field.2 with
      | .list items => recordItems s.origins path (itemCount prior) layer items
      | d => recordOrigins s.origins path d layer }

/-- Lays the theme of a layer over the stack. Only a map with fields counts. -/
def Stack.layTheme (s : Stack) (mark theme : Text) (layer : Layer) : Except Fault Stack :=
  match Assoc.get? theme layer.fields with
  | some (.map (f :: fields)) =>
    (f :: fields).foldlM (Stack.layThemeSection mark theme layer.name) s
  | _ => .ok s

/-- Lays a layer over the stack. -/
def Stack.lay (n : SectionNames) (s : Stack) (layer : Layer) : Except Fault Stack := do
  let s ← s.laySection n.carryMark n.palette layer
  let s ← s.laySection n.carryMark n.vars layer
  s.layTheme n.carryMark n.theme layer

/-! ## Composing -/

/-- Lays imports over one another in order and the main document over them. What the main document
holds outside the composed sections is kept. -/
def compose (n : SectionNames) (imports : List Layer) (main : Fields) :
    Except Fault Composition := do
  let layers := imports ++ [⟨Layer.mainName, main⟩]
  let stack ← layers.foldlM (Stack.lay n) {}
  let kept := main.filter fun f => !n.all.contains f.1
  return {
    fields :=
      n.all.foldl
        (fun fields name =>
          match Assoc.get? name stack.merged with
          | some d => Assoc.put name d fields
          | none => fields)
        kept
    origins := stack.origins
    layers := layers.map Layer.name }

end Colourway
