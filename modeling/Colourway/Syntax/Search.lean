import Colourway.Text.Basic

/-!
# Leftmost search

A pattern reads a match at the front of a text. A search tries it at each place from the left and
reports the first match with the text before and after it.
-/

namespace Colourway.Syntax

/-- A match at the front of a text. -/
structure Hit (α : Type) where
  /-- The text that was matched. -/
  matched : Text
  /-- What the match means. -/
  item : α
  /-- The text behind it. -/
  rest : Text

/-- A reader of matches at the front of a text. -/
abbrev Pattern (α : Type) := Text → Option (Hit α)

/-- A match somewhere in a text. -/
structure Found (α : Type) where
  /-- The text before the match. -/
  before : Text
  /-- The text that was matched. -/
  matched : Text
  /-- What the match means. -/
  item : α
  /-- The text after the match. -/
  after : Text

/-- The leftmost match of a pattern. Patterns match no empty text, so the end is not tried. -/
def search {α : Type} (pattern : Pattern α) : Text → Option (Found α)
  | [] => none
  | c :: cs =>
    match pattern (c :: cs) with
    | some hit => some ⟨[], hit.matched, hit.item, hit.rest⟩
    | none => (search pattern cs).map fun f => { f with before := c :: f.before }

/-- Whether a pattern matches anywhere. -/
def occurs {α : Type} (pattern : Pattern α) (s : Text) : Bool := (search pattern s).isSome

/-- The text before a match, the match and the text after it make up the whole text, provided
that the pattern splits what it reads. -/
theorem search_append {α : Type} {pattern : Pattern α}
    (split : ∀ s hit, pattern s = some hit → hit.matched ++ hit.rest = s)
    {s : Text} {f : Found α} (h : search pattern s = some f) :
    f.before ++ f.matched ++ f.after = s := by
  induction s generalizing f with
  | nil => simp [search] at h
  | cons c cs ih =>
    unfold search at h
    split at h
    · next hit hp =>
      cases h
      simpa using split _ _ hp
    · next hp =>
      obtain ⟨g, hg, rfl⟩ := Option.map_eq_some_iff.1 h
      simpa using ih hg

end Colourway.Syntax
