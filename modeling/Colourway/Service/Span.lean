import Colourway.Failure

/-!
# Spans

A span names a part of the work of a service call and holds the spans of the parts inside it. While
the work goes on, the open spans form a stack, innermost first. A span is closed when its part ends,
by success or by failure, and becomes the last child of the span around it.
-/

namespace Colourway

/-- A part of the work of a call. -/
structure Span where
  /-- What the part is called. -/
  name : Text
  /-- Numbers noted about the part. -/
  notes : List (Text × Int) := []
  /-- The parts inside it, in the order in which they were begun. -/
  children : List Span := []
  deriving Inhabited

/-- The spans that are open. -/
structure Recorder where
  /-- Whether spans are recorded. -/
  enabled : Bool := false
  /-- The open spans, innermost first. -/
  stack : List Span := []
  deriving Inhabited

/-- Work that may fail and whose spans are recorded either way. -/
abbrev Recorded (α : Type) := Recorder → Except Failure α × Recorder

namespace Recorder

/-- Opens a span. -/
def enter (r : Recorder) (name : Text) : Recorder :=
  { r with stack := { name := name } :: r.stack }

/-- Closes the innermost span. -/
def leave (r : Recorder) : Recorder :=
  match r.stack with
  | inner :: outer :: rest =>
    { r with stack := { outer with children := outer.children ++ [inner] } :: rest }
  | _ => { r with stack := [] }

/-- Notes a number about the innermost span. -/
def note (r : Recorder) (key : Text) (value : Int) : Recorder :=
  match r.stack with
  | inner :: rest =>
    { r with stack := { inner with notes := Assoc.put key value inner.notes } :: rest }
  | [] => r

/-- Whether a span can be opened inside another one. -/
def recording (r : Recorder) : Bool := r.enabled && !r.stack.isEmpty

end Recorder

namespace Recorded

variable {α β : Type}

/-- Work without spans. -/
def lift (result : Except Failure α) : Recorded α := fun r => (result, r)

/-- Work that goes on with the result of other work. -/
def bind (first : Recorded α) (next : α → Recorded β) : Recorded β := fun r =>
  match first r with
  | (.ok a, r) => next a r
  | (.error e, r) => (.error e, r)

/-- Notes a number about the innermost span. -/
def note (key : Text) (value : Int) : Recorded Unit := fun r =>
  (.ok (), if r.recording then r.note key value else r)

/-- Work under a span of its own, if one is open around it. -/
def span (name : Text) (work : Recorded α) : Recorded α := fun r =>
  if r.recording then
    let (result, r) := work (r.enter name)
    (result, r.leave)
  else work r

/-- A service call under a root span of its own. The spans that were open before are put aside and
are open again afterwards. `attach` adds the finished span to the result. -/
def call (name : Text) (attach : Span → α → α) (work : Recorded α) : Recorded α := fun r =>
  if r.enabled then
    let (result, inner) := work { r with stack := [{ name := name }] }
    let root := inner.stack.getLast?.getD { name := name }
    (result.map (attach root), { inner with stack := r.stack })
  else work r

end Recorded

end Colourway
