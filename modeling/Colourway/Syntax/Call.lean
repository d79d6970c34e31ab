import Colourway.Syntax.Reference

/-!
# Calls

A call is a word followed by arguments in round brackets. Only an innermost call is read, one whose
arguments hold no round brackets.
-/

namespace Colourway.Syntax

open Colourway.Text

/-- A call at the front of a text, read as its name and the text of its arguments. -/
def callAt : Pattern (Text × Text) := fun s =>
  match s.takeWhile isWord, s.dropWhile isWord with
  | [], _ => none
  | name, .char '(' :: tail =>
    match tail.takeWhile (fun c => !isParen c), tail.dropWhile (fun c => !isParen c) with
    | args, .char ')' :: rest => some ⟨name ++ "(" ++ args ++ ")", (name, args), rest⟩
    | _, _ => none
  | _, _ => none

/-! ## Arguments -/

/-- Splits a text at its commas outside brackets. `depth` counts the open brackets; a closing
bracket without an opening one is passed over. -/
def splitAtCommas (depth : Nat) : Text → List Text
  | [] => [[]]
  | c :: cs =>
    if c = ',' ∧ depth = 0 then [] :: splitAtCommas 0 cs
    else
      let depth' := if c = '(' then depth + 1 else if c = ')' then depth - 1 else depth
      match splitAtCommas depth' cs with
      | [] => [[c]]
      | part :: parts => (c :: part) :: parts

/-- The arguments of a call: what lies between the outer commas, without white space around it.
White space alone holds no arguments. -/
def splitArgs (s : Text) : List Text :=
  if allBlank s then [] else (splitAtCommas 0 s).map trim

/-- A call inside a value. -/
structure Call where
  /-- The text of the call. -/
  captured : Text
  /-- The name in front of the brackets. -/
  name : Text
  /-- The arguments. -/
  args : List Text

/-- The first innermost call of a value. -/
def findCall (s : Text) : Option Call :=
  (search callAt s).map fun f => ⟨f.matched, f.item.1, splitArgs f.item.2⟩

end Colourway.Syntax
