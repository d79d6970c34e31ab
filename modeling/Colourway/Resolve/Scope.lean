import Colourway.Document.Entries
import Colourway.Resolve.Step
import Colourway.Token.Checkpoint

/-!
# Resolution of a scope

The entries of a scope are put into the store, then visited in order, again and again, until a
pass changes nothing or the limit is reached. A visit follows steps on one value until there is
none, a value comes up for the second time, or the limit is reached. Later entries of a pass see
the new values of earlier ones.

A scope resolves completely or not at all: when an error is reported, the store is rolled back. A
fault leaves the store as it stands.
-/

namespace Colourway

/-- An entry under resolution. -/
structure Slot where
  /-- The entry as it was given. -/
  entry : Entry
  /-- Its token. -/
  token : TokenId
  /-- Its value now. -/
  value : Document

/-- Something that may fail, with the store that a failure leaves. -/
abbrev Attempt (α : Type) := Except (Failure × Store) α

/-- A value after a visit. -/
structure Visited where
  /-- The store after the visit. -/
  store : Store
  /-- The value reached. -/
  value : Text
  /-- The expressions passed through, in order. -/
  trail : List TokenId

namespace Resolver

/-- A colour error as a failure of the entry at `key`. -/
def blame (key : Text) : ColourError → Failure
  | .refused expression reason => .error (.colour expression reason (some key))
  | .fault f => .fault f

/-- Follows at most `steps` steps on a value. `seen` lists the values that have come up. -/
def follow (r : Resolver) (scope : Scope) (key : Text) :
    (steps : Nat) → (seen : List Text) → Visited → Attempt Visited
  | 0, _, here => .ok here
  | steps + 1, seen, here =>
    match r.step here.store scope key here.value with
    | .error e => .error (blame key e, here.store)
    | .ok none => .ok here
    | .ok (some draft) =>
      let next := draft.value.text?.getD here.value
      if next = here.value then .ok here
      else
        let (s, t) := here.store.add draft
        let here : Visited := ⟨s.setParent t (some key), next, here.trail ++ [t]⟩
        if next ∈ seen then .ok here else follow r scope key steps (next :: seen) here

/-- Visits one entry: its value is followed, and its token learns the value and the trail. The
flag says whether the value changed. -/
def visit (r : Resolver) (scope : Scope) (s : Store) (slot : Slot) :
    Attempt (Store × Slot × Bool) :=
  match slot.value.text? with
  | none => .ok (s, slot, false)
  | some value =>
    (r.follow scope slot.entry.flat r.limit [value] ⟨s, value, []⟩).map fun v =>
      let s := (v.store.setValue slot.token (.text v.value)).addTrail slot.token v.trail
      (s, { slot with value := .text v.value }, v.value != value)

/-- Visits every entry once. The flag says whether any value changed. -/
def pass (r : Resolver) (scope : Scope) : Store → List Slot → Attempt (Store × List Slot × Bool)
  | s, [] => .ok (s, [], false)
  | s, slot :: rest =>
    match r.visit scope s slot with
    | .error e => .error e
    | .ok (s, slot, changed) =>
      match pass r scope s rest with
      | .error e => .error e
      | .ok (s, rest, changed') => .ok (s, slot :: rest, changed || changed')

/-- The state of a scope between passes. -/
structure Progress where
  /-- The store. -/
  store : Store
  /-- The entries. -/
  slots : List Slot
  /-- The number of passes that changed a value. -/
  changing : Nat

/-- Makes at most `left` passes. A failure reports how many passes before it changed a value. -/
def passes (r : Resolver) (scope : Scope) :
    (left : Nat) → Progress → Except (Failure × Store × Nat) Progress
  | 0, p => .ok p
  | left + 1, p =>
    match r.pass scope p.store p.slots with
    | .error (e, s) => .error (e, s, p.changing)
    | .ok (s, slots, changed) =>
      if changed then passes r scope left ⟨s, slots, p.changing + 1⟩
      else .ok ⟨s, slots, p.changing⟩

/-- Puts an entry into the store under its flat path. -/
def enter (r : Resolver) (scope : Scope) (s : Store) (e : Entry) : Store × Slot :=
  let value := r.expand e.value
  let (s, t) := s.add
    { name := e.flat, kind := .input, raw := e.value, value := value, scope := some scope }
  (s, ⟨e, t, value⟩)

/-- Puts entries into the store one after the other. -/
def enterAll (r : Resolver) (scope : Scope) : Store → List Entry → Store × List Slot
  | s, [] => (s, [])
  | s, e :: rest =>
    let (s, slot) := r.enter scope s e
    let (s, slots) := enterAll r scope s rest
    (s, slot :: slots)

/-- Whether an entry still holds a reference or a call. -/
def unfinished (slot : Slot) : Bool :=
  slot.value.text?.any fun v => Syntax.hasUnresolved v

/-- The outcome of resolving a scope. -/
structure Evaluation where
  /-- The entries with their final values, in the order given, or the failure. -/
  outcome : Except Failure (List Entry)
  /-- The number of passes that changed a value. -/
  changingPasses : Nat
  /-- The store afterwards. -/
  store : Store

/-- Resolves the entries of a scope, without undoing anything on failure. -/
def evaluateFrom (r : Resolver) (s : Store) (scope : Scope) (entries : List Entry) :
    Evaluation :=
  let (s, slots) := r.enterAll scope s entries
  match r.passes scope r.limit ⟨s, slots, 0⟩ with
  | .error (e, s, changing) => ⟨.error e, changing, s⟩
  | .ok p =>
    match (p.slots.filter unfinished).map (·.entry.flat) with
    | [] => ⟨.ok (p.slots.map fun slot => slot.entry.withValue slot.value), p.changing, p.store⟩
    | paths => ⟨.error (.error (.unresolved paths (some scope.name))), p.changing, p.store⟩

/-- Resolves the entries of a scope. -/
def evaluate (r : Resolver) (s : Store) (scope : Scope) (entries : List Entry) : Evaluation :=
  let (s, start) := s.checkpoint
  let e := r.evaluateFrom s scope entries
  match e.outcome with
  | .error (.error _) => { e with store := e.store.rollback start }
  | _ => e

end Resolver

end Colourway
