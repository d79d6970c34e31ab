import Colourway.Token.Store

/-!
# Checkpoints

A checkpoint holds the keys of a store and, for each token under them, what resolution may change.
It copies the trails when it is taken. Rolling back hands these copies to the tokens: from then on
token and checkpoint share them.
-/

namespace Colourway

/-- What a checkpoint keeps of one token. -/
structure SavedToken where
  /-- The token. -/
  token : TokenId
  /-- Its value. -/
  value : Document
  /-- Its dependency. -/
  dependency : Option TokenId
  /-- The entry that it was ascribed to. -/
  parent : Option Text
  /-- The copy of its trail. -/
  trail : TrailId

/-- A state that a store can be brought back to. -/
structure Checkpoint where
  /-- The token under each key. -/
  index : List (Text × TokenId)
  /-- The tokens under the keys. -/
  saved : List SavedToken

namespace Store

/-- Saves one token, with a copy of its trail. -/
def save (s : Store) (t : TokenId) : Store × SavedToken :=
  let token := s.token t
  ({ s with trails := s.trails.push (s.trailOf t) },
    ⟨t, token.value, token.dependency, token.parent, s.trails.size⟩)

/-- Saves tokens one after the other. -/
def saveAll (s : Store) : List TokenId → Store × List SavedToken
  | [] => (s, [])
  | t :: rest =>
    let (s, saved) := s.save t
    let (s, others) := s.saveAll rest
    (s, saved :: others)

/-- Takes a checkpoint. -/
def checkpoint (s : Store) : Store × Checkpoint :=
  let (s', saved) := s.saveAll s.ids
  (s', ⟨s.index, saved⟩)

/-- Gives a token back what was saved of it. -/
def restore (s : Store) (saved : SavedToken) : Store :=
  s.update saved.token fun token =>
    { token with
      value := saved.value
      dependency := saved.dependency
      parent := saved.parent
      trail := saved.trail }

/-- Brings the store back to a checkpoint. -/
def rollback (s : Store) (c : Checkpoint) : Store :=
  c.saved.foldl restore { s with index := c.index }

end Store

end Colourway
