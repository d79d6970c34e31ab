import Colourway.Assoc
import Colourway.Text.Basic

/-!
# Documents

A theme document is a tree of ordered maps and lists over scalars. Integers and doubles are
different scalars, since they are written differently.
-/

namespace Colourway

/-- A value without parts. -/
inductive Scalar where
  /-- No value. -/
  | null
  /-- A truth value. -/
  | bool (value : Bool)
  /-- An integer of any size. -/
  | int (value : Int)
  /-- A double. -/
  | float (value : Float)
  /-- A text. -/
  | text (value : Text)
  deriving DecidableEq, Inhabited

/-- A document, or a part of one. -/
inductive Document where
  /-- A leaf. -/
  | scalar (value : Scalar)
  /-- An ordered list. -/
  | list (items : List Document)
  /-- A map from keys, in the order in which they were first written. -/
  | map (fields : List (Text × Document))
  deriving Inhabited

/-- Documents under keys, in the order in which the keys were first written. -/
abbrev Fields := List (Text × Document)

/-- The document under a key. -/
abbrev Fields.get? (key : Text) (fields : Fields) : Option Document := Assoc.get? key fields

namespace Document

/-- The document that holds no value. -/
def null : Document := .scalar .null

/-- The document that is one text. -/
def text (s : Text) : Document := .scalar (.text s)

/-- The text, if the document is one. -/
def text? : Document → Option Text
  | .scalar (.text s) => some s
  | _ => none

/-- The fields, if the document is a map. -/
def fields? : Document → Option Fields
  | .map fs => some fs
  | _ => none

/-- Whether the document is a map or a list. -/
def isContainer : Document → Bool
  | .scalar _ => false
  | _ => true

/-- Whether the document holds no value. -/
def isNull : Document → Bool
  | .scalar .null => true
  | _ => false

/-- What counts as nothing: no value, false, zero, the empty text and the empty containers. -/
def isVoid : Document → Bool
  | .scalar .null => true
  | .scalar (.bool b) => !b
  | .scalar (.int n) => n == 0
  | .scalar (.float x) => x == 0.0
  | .scalar (.text s) => s.isEmpty
  | .list items => items.isEmpty
  | .map fields => fields.isEmpty

/-- The value under a key of a map. -/
def field? (key : Text) (d : Document) : Option Document := d.fields?.bind (Fields.get? key)

/-- The name of the kind of value, as load errors give it. -/
def kindName : Document → String
  | .scalar .null => "NoneType"
  | .scalar (.bool _) => "bool"
  | .scalar (.int _) => "int"
  | .scalar (.float _) => "float"
  | .scalar (.text _) => "str"
  | .list _ => "list"
  | .map _ => "dict"

end Document

end Colourway
