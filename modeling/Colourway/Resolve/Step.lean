import Colourway.Colour.Transform
import Colourway.Syntax.Kind
import Colourway.Text.Substitute
import Colourway.Token.Store

/-!
# One step of resolution

A value is changed at one place: a hex literal is spelled out, the first reference gives way to
the value of the entry that it refers to, the first innermost call to what it evaluates to. The
result is the draft of a token that stands for the value before the step. A reference to an integer
of too many digits is a fault.
-/

namespace Colourway

open Text Syntax

/-- What resolution needs besides the store. -/
structure Resolver where
  /-- The colour arithmetic. -/
  math : ColourMath
  /-- The greatest number of passes over a scope, and of steps on one visit to a value. -/
  limit : Nat
  /-- The name of the palette section, which aliases refer to. -/
  palette : Text

namespace Resolver

/-- A resolver, refused when it may take no step. -/
def make (math : ColourMath) (limit : Int) (palette : Text) : Except Fault Resolver :=
  if limit < 1 then .error (.iterationLimit limit) else .ok ⟨math, limit.toNat, palette⟩

/-- A value with its aliases written as references. -/
def expand (r : Resolver) : Document → Document
  | .scalar (.text v) => .text (expandAliases r.palette v)
  | d => d

/-- The spelling out of a hex literal. -/
def hexStep (scope : Scope) (value : Text) : Option Draft :=
  (normalHex? value).map fun h =>
    { name := value, kind := .hex, raw := .text value, value := .text h,
      scope := some scope }

/-- The replacement of the first reference. An entry is not replaced by itself. -/
def referenceStep (s : Store) (scope : Scope) (key value : Text) : Except Fault (Option Draft) :=
  match findReference value with
  | none => .ok none
  | some ref =>
    match s.findEntry? ref.path scope.visible with
    | none => .ok none
    | some t =>
      let target := s.token t
      if target.name = key then .ok none
      else
        match target.value.spliced? with
        | none => .error .longInteger
        | some shown =>
          .ok <| some
            { name := value, kind := .reference, raw := .text ref.captured,
              value := .text (replaceFirst ref.captured shown value),
              scope := some scope, dependency := some t }

/-- The evaluation of the first innermost call. -/
def callStep (r : Resolver) (scope : Scope) (value : Text) :
    Except ColourError (Option Draft) :=
  match findCall value with
  | none => .ok none
  | some call =>
    (r.math.apply (.ofName call.name call.args call.captured)).map fun result =>
      some
        { name := value, kind := .call, raw := .text call.captured,
          value := .text (replaceFirst call.captured result value), scope := some scope }

/-- The next step on a value, if there is one. -/
def step (r : Resolver) (s : Store) (scope : Scope) (key value : Text) :
    Except ColourError (Option Draft) :=
  match classify value with
  | .hex => .ok (hexStep scope value)
  | .reference => ColourError.ofFault (referenceStep s scope key value)
  | .call => r.callStep scope value
  | .literal => .ok none

end Resolver

end Colourway
