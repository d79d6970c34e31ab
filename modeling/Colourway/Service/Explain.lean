import Colourway.Service.Compile
import Colourway.Token.Explain

/-!
# Explaining as a service

What a compiled document can be asked for: the derivation of a key, the value of an entry, and the
composed document before resolution.
-/

namespace Colourway

/-- The answer to a question about a key that does not exist. -/
def notFound (op key : Text) : ServiceResult :=
  .failed op ⟨.keyNotFound, "'" ++ key ++ "' not found", [("key", .text key)]⟩

/-- A line of an explanation as a document. -/
def Explained.toDocument (line : Explained) : Document :=
  .map
    [("expression", .text line.expression), ("kind", .text line.kind.name),
      ("depth", .scalar (.int line.depth))]

/-- The answer to the question how a key came about. -/
def explainKey (c : Compilation) (key : Text) : Except Failure ServiceResult :=
  match c.store.find? key with
  | none => .ok (notFound "explain" key)
  | some t => do
    let lines ← (c.store.explain key).mapError Failure.fault
    let token := c.store.token t
    return {
      ok := true
      op := "explain"
      data :=
        [("key", .text key), ("value", token.value),
          ("scope", optionalText (token.scope.map fun scope => scope.name)),
          ("steps", .list (lines.map Explained.toDocument))] }

/-- The answer to the question what an entry became. -/
def lookupKey (c : Compilation) (key : Text) : ServiceResult :=
  match (c.store.find? key).filter fun t => (c.store.token t).isEntry with
  | some t =>
    let token := c.store.token t
    { ok := true
      op := "lookup"
      data := [("key", .text key), ("value", token.value), ("raw", token.raw)] }
  | none => notFound "lookup" key

/-- The derivation of a key of the document at a path. -/
def explainCall (s : Service) (t : FileTree) (path key : Text) : Recorded ServiceResult :=
  Recorded.call "ExplainService.explain" ServiceResult.withSpan <|
    answering "explain" (compileFile s t (s.source path)) fun c =>
      Recorded.lift (explainKey c key)

/-- The value of an entry of the document at a path. -/
def lookupCall (s : Service) (t : FileTree) (path key : Text) : Recorded ServiceResult :=
  Recorded.call "ExplainService.lookup" ServiceResult.withSpan <|
    answering "lookup" (compileFile s t (s.source path)) fun c =>
      Recorded.lift (.ok (lookupKey c key))

/-- The composed document at a path, with the layer that wrote each leaf. -/
def composeFile (s : Service) (t : FileTree) (path : FilePath) : Except Failure Composition := do
  let main ← s.loader.load t path
  let names ← s.compiler.importNames main
  let layers ← s.loader.loadLayers t path.parent names
  (s.compiler.compose layers main).mapError Failure.fault

/-- The document at a path before resolution. -/
def previewCall (s : Service) (t : FileTree) (path : Text) : Recorded ServiceResult :=
  Recorded.call "ExplainService.preview" ServiceResult.withSpan <|
    answering "preview" (Recorded.lift (composeFile s t (s.source path))) fun c =>
      Recorded.lift <| .ok
        { ok := true
          op := "preview"
          data :=
            [("document", .map c.fields),
              ("origins", .map (c.origins.map fun o => (o.1, .text o.2))),
              ("layers", .list (c.layers.map Document.text))] }

end Colourway
