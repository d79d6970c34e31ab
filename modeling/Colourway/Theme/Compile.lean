import Colourway.Layer.Composition
import Colourway.Layer.Imports
import Colourway.Resolve.Scope
import Colourway.Theme.Assemble

/-!
# Compiling themes

A composed document is resolved scope by scope with one store: the palette, the variables, then
the theme. The resolved theme is assembled into the output.
-/

namespace Colourway

/-- How a compiler works. -/
structure CompilerOptions where
  /-- The colour arithmetic. -/
  math : ColourMath := standardMath
  /-- The greatest number of passes over a scope, and of steps on one visit. -/
  limit : Int := 10
  /-- The name of the configuration section. -/
  config : Text := "config"
  /-- The names of the composed sections, and the carry mark. -/
  names : SectionNames := {}
  /-- The sections that are written flat. -/
  flatSections : List Text := ["colors"]

/-- All that one compilation produced. -/
structure Compilation where
  /-- The composed document. -/
  composition : Composition
  /-- The store with every entry and every expression. -/
  store : Store
  /-- The resolved palette by flat path. -/
  palette : Fields
  /-- The resolved variables by flat path. -/
  vars : Fields
  /-- The resolved theme by flat path. -/
  theme : Fields
  /-- The resolved theme as a document. -/
  themeDocument : Document
  /-- The output document. -/
  output : Fields
  /-- The names of the imported layers. -/
  imports : List Text

/-- The entries of a section that stands at `lead`. Anything but a map or list has none. -/
def sectionEntries (lead : Path) (fields : Fields) (name : Text) : List Entry :=
  ((fields.get? name).map (Document.entriesBelow lead)).getD []

/-- Entries as a map from their flat paths. -/
def flatValues (entries : List Entry) : Fields :=
  Assoc.ofPairs (entries.map fun e => (e.flat, e.value))

namespace CompilerOptions

/-- The names of the imports that a document declares. -/
def importNames (o : CompilerOptions) (main : Fields) : Except Failure (List Text) :=
  declaredImports o.config main

/-- Lays imports and the main document over one another. -/
def compose (o : CompilerOptions) (imports : List Layer) (main : Fields) :
    Except Fault Composition :=
  Colourway.compose o.names imports main

/-- Resolves a composed document with a fresh store. -/
def resolve (o : CompilerOptions) (c : Composition) : Except Failure Compilation := do
  let r ← (Resolver.make o.math o.limit o.names.palette).mapError Failure.fault
  let palette := r.evaluate {} .palette
    (sectionEntries [.key o.names.palette] c.fields o.names.palette)
  let paletteEntries ← palette.outcome
  let vars := r.evaluate palette.store .vars (sectionEntries [] c.fields o.names.vars)
  let varsEntries ← vars.outcome
  let theme := r.evaluate vars.store .theme (sectionEntries [] c.fields o.names.theme)
  let themeEntries ← theme.outcome
  let config := ((c.fields.get? o.config).bind Document.fields?).getD []
  let output ← (assemble o.flatSections config themeEntries).mapError Failure.fault
  return {
    composition := c
    store := theme.store
    palette := flatValues paletteEntries
    vars := flatValues varsEntries
    theme := flatValues themeEntries
    themeDocument := Document.ofEntries themeEntries
    output := output
    imports := c.layers.dropLast }

/-- Composes and resolves. -/
def compile (o : CompilerOptions) (imports : List Layer) (main : Fields) :
    Except Failure Compilation := do
  o.resolve (← (o.compose imports main).mapError Failure.fault)

end CompilerOptions

end Colourway
