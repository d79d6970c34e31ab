import Colourway.Failure

/-!
# Import lists

A document names the documents that lie under it by a text or a list of texts.
-/

namespace Colourway

/-- The texts of a list, if it holds nothing else. -/
def allTexts? : List Document → Option (List Text)
  | [] => some []
  | d :: rest => do return (← d.text?) :: (← allTexts? rest)

/-- The failure over a declaration that lists no names. -/
def refusedImports (d : Document) : Failure :=
  match d.named? with
  | some shown => .error (.imports ("Imports must be a string or a list of strings, got " ++ shown))
  | none => .fault .longInteger

/-- The names that an import declaration lists; none if there is no declaration. -/
def importList (declared : Option Document) : Except Failure (List Text) :=
  match declared with
  | none => .ok []
  | some (.scalar .null) => .ok []
  | some (.scalar (.text s)) => .ok [s]
  | some (.list items) =>
    match allTexts? items with
    | some names => .ok names
    | none => .error (refusedImports (.list items))
  | some d => .error (refusedImports d)

/-- The names that the configuration section of a document declares. -/
def declaredImports (config : Text) (main : Fields) : Except Failure (List Text) :=
  importList ((Assoc.get? config main).bind (Document.field? "import"))

end Colourway
