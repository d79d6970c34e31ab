import Colourway.Token.Basic

/-!
# The token store

The tokens of one compilation. A key leads to at most one token; adding another token of the same
kind and scope under the key updates the token that is there, so that trails can name it once.
Any other token takes the key over.
-/

namespace Colourway

/-- All tokens made so far, all trails, and the keys in the order in which they were first used. -/
structure Store where
  /-- The tokens by number. -/
  tokens : Array Token := #[]
  /-- The trails by number. -/
  trails : Array (List TokenId) := #[]
  /-- The token under each key. -/
  index : List (Text × TokenId) := []
  deriving Inhabited

namespace Store

/-! ## Looking up -/

/-- The token with a number. -/
def token (s : Store) (t : TokenId) : Token := s.tokens.getD t default

/-- The trail of a token. -/
def trailOf (s : Store) (t : TokenId) : List TokenId := s.trails.getD (s.token t).trail []

/-- The number of keys. -/
def size (s : Store) : Nat := s.index.length

/-- The tokens under the keys, in order. -/
def ids (s : Store) : List TokenId := s.index.map Prod.snd

/-- The token under a key. -/
def find? (s : Store) (key : Text) : Option TokenId := Assoc.get? key s.index

/-- The entry at a path that can be seen from the given scopes. -/
def findEntry? (s : Store) (path : Text) (visible : List Scope) : Option TokenId :=
  (s.find? path).filter fun t =>
    (s.token t).isEntry && (s.token t).scope.any visible.contains

/-- The value under a key. -/
def value? (s : Store) (key : Text) : Option Document :=
  (s.find? key).map fun t => (s.token t).value

/-- The token whose key is the value of a token, unless that is the token itself. -/
def reverse? (s : Store) (t : TokenId) : Option TokenId :=
  ((s.token t).value.text?.bind s.find?).filter (· ≠ t)

/-- The entries, of one scope if one is given, in the order of their keys. -/
def entries (s : Store) (scope : Option Scope) : List TokenId :=
  s.ids.filter fun t =>
    (s.token t).isEntry && (scope.isNone || (s.token t).scope == scope)

/-! ## Changing tokens -/

/-- Changes the token with a number. -/
def update (s : Store) (t : TokenId) (f : Token → Token) : Store :=
  { s with tokens := s.tokens.modify t f }

/-- Sets the value of a token. -/
def setValue (s : Store) (t : TokenId) (value : Document) : Store :=
  s.update t fun token => { token with value := value }

/-- Sets the dependency of a token. -/
def setDependency (s : Store) (t : TokenId) (dependency : Option TokenId) : Store :=
  s.update t fun token => { token with dependency := dependency }

/-- Sets the entry that a token is ascribed to. -/
def setParent (s : Store) (t : TokenId) (parent : Option Text) : Store :=
  s.update t fun token => { token with parent := parent }

/-- A trail with further steps: those that it lists already, and its own token, are left out. -/
def extended (t : TokenId) (trail steps : List TokenId) : List TokenId :=
  steps.foldl (fun done u => if u = t ∨ u ∈ done then done else done ++ [u]) trail

/-- Appends steps to the trail of a token. -/
def addTrail (s : Store) (t : TokenId) (steps : List TokenId) : Store :=
  { s with trails := s.trails.modify (s.token t).trail fun trail => extended t trail steps }

/-! ## Adding tokens -/

/-- Makes a token with an empty trail, under no key yet. -/
def create (s : Store) (d : Draft) : Store × TokenId :=
  ({ s with
      tokens := s.tokens.push { d with trail := s.trails.size }
      trails := s.trails.push [] },
    s.tokens.size)

/-- Puts a token under its name, with a dependency if one is given, and returns the token that is
there afterwards. One of the same kind and scope stays, with the value of the new one, and with
its dependency if it has any. -/
def register (s : Store) (t : TokenId) (dependency : Option TokenId) : Store × TokenId :=
  let s := if dependency.isSome then s.setDependency t dependency else s
  let new := s.token t
  let takeOver := { s with index := Assoc.put new.name t s.index }
  match s.find? new.name with
  | none => (takeOver, t)
  | some old =>
    if (s.token old).kind = new.kind ∧ (s.token old).scope = new.scope then
      let kept := s.setValue old new.value
      (if new.dependency.isSome then kept.setDependency old new.dependency else kept, old)
    else (takeOver, t)

/-- Makes a token and puts it under its name. -/
def add (s : Store) (d : Draft) : Store × TokenId :=
  let (s, t) := s.create d
  s.register t none

/-! ## Dependencies -/

/-- The number of tokens that are not in a list. -/
def unseen (s : Store) (seen : List TokenId) : Nat :=
  ((List.range s.tokens.size).filter (· ∉ seen)).length

theorem unseen_cons_lt {s : Store} {seen : List TokenId} {t : TokenId}
    (inside : t < s.tokens.size) (new : t ∉ seen) : s.unseen (t :: seen) < s.unseen seen := by
  unfold unseen
  have sub : (List.range s.tokens.size).filter (· ∉ t :: seen)
      = ((List.range s.tokens.size).filter (· ∉ seen)).filter (· ≠ t) := by
    rw [List.filter_filter]
    apply List.filter_congr
    intro u _
    by_cases h : u = t <;> simp [h]
  rw [sub, List.length_filter_lt_length_iff_exists]
  exact ⟨t, by simp [inside, new], by simp⟩

/-- Whether the walk along dependencies from `t` meets `candidate` before it comes back to a token
that it has seen. -/
def walkMeets (s : Store) (candidate : TokenId) (seen : List TokenId) (t : TokenId) : Bool :=
  if _inside : t < s.tokens.size ∧ t ∉ seen then
    if t = candidate then true
    else
      match (s.token t).dependency with
      | none => false
      | some next => walkMeets s candidate (t :: seen) next
  else false
termination_by s.unseen seen
decreasing_by exact unseen_cons_lt _inside.1 _inside.2

/-- Whether `candidate` is reached from `t` by following dependencies, `t` itself included. -/
def isAncestor (s : Store) (candidate t : TokenId) : Bool := s.walkMeets candidate [] t

end Store

end Colourway
