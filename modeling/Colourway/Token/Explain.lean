import Colourway.Failure
import Colourway.Syntax.Kind
import Colourway.Token.Store

/-!
# Explanations

The derivation of a value, from its raw form to its final one. A reference on the trail is preceded
by the derivation of the entry that it refers to, one level deeper, unless that one is being told
already. No expression is told twice. An integer of too many digits cannot be told.
-/

namespace Colourway

/-- A token as messages show it. -/
def Token.shown? (t : Token) : Option Text :=
  t.value.named?.map fun value =>
    "Token(" ++ Document.quotedText t.name ++ ", kind=" ++ t.kind.name ++ ", value=" ++ value
      ++ ")"

/-- One line of an explanation. -/
structure Explained where
  /-- The expression. -/
  expression : Text
  /-- Its kind. -/
  kind : Syntax.ValueKind
  /-- How many references lie between it and the key that is explained. -/
  depth : Nat
  deriving DecidableEq

namespace Explained

/-- The lines with one more for an expression, unless it is told already. -/
def tell (lines : List Explained) (value : Document) (depth : Nat) :
    Except Fault (List Explained) :=
  match value.spliced? with
  | none => .error .longInteger
  | some text =>
    if lines.any (·.expression == text) then .ok lines
    else .ok (lines ++ [⟨text, Syntax.classify text, depth⟩])

end Explained

namespace Store

/-- The value that a derivation starts from. -/
def startValue (t : Token) : Document := if t.raw.isNull then t.value else t.raw

/-- Tells the derivation of a token. `telling` lists the tokens whose derivation is being told. -/
def tellToken (s : Store) (telling : List TokenId) (depth : Nat) (lines : List Explained)
    (t : TokenId) : Except Fault (List Explained) :=
  if _inside : t < s.tokens.size ∧ t ∉ telling then do
    let lines ← Explained.tell lines (startValue (s.token t)) depth
    (s.trailOf t).foldlM
      (fun lines u => do
        let step := s.token u
        let lines ←
          match step.kind, step.dependency with
          | .reference, some entry => tellToken s (t :: telling) (depth + 1) lines entry
          | _, _ => .ok lines
        Explained.tell lines step.value depth)
      lines
  else .ok lines
termination_by s.unseen telling
decreasing_by exact unseen_cons_lt _inside.1 _inside.2

/-- The derivation of the token under a key. -/
def explain (s : Store) (key : Text) : Except Fault (List Explained) :=
  match s.find? key with
  | none => .error (.unknownKey key)
  | some t => s.tellToken [] 0 [] t

end Store

end Colourway
