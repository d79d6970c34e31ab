import Colourway.Syntax.Search
import Colourway.Text.Blank
import Colourway.Text.Word

/-!
# References and aliases

A reference is written `$(path)`, `$path.to.value` or `${path}`. An alias has a second dollar sign
in front and names a palette entry; it stands for the reference to that entry. The bare form ends
at the first character that is neither a word character nor a dot with a word character behind it.
-/

namespace Colourway.Syntax

open Colourway.Text

/-! ## The three spellings of a name -/

/-- A round bracket. -/
def isParen (c : CodePoint) : Bool := c == '(' || c == ')'

/-- A round or curly bracket. -/
def isBracket (c : CodePoint) : Bool := isParen c || c == '\x7b' || c == '\x7d'

/-- The non-empty text up to the first character that stops it, which has to be `close`. -/
def enclosed (stops : CodePoint → Bool) (close : CodePoint) (s : Text) :
    Option (Text × Text) :=
  let body := s.takeWhile fun c => !stops c
  match s.dropWhile fun c => !stops c with
  | [] => none
  | c :: rest => if body ≠ [] ∧ c = close then some (body, rest) else none

/-- A name in round brackets. -/
def inParens : Pattern Text
  | .char '(' :: s =>
    (enclosed isParen ')' s).map fun (body, rest) => ⟨"(" ++ body ++ ")", body, rest⟩
  | _ => none

/-- A name in curly brackets. -/
def inBraces : Pattern Text
  | .char '\x7b' :: s =>
    (enclosed isBracket '\x7d' s).map fun (body, rest) =>
      ⟨"\x7b" ++ body ++ "\x7d", body, rest⟩
  | _ => none

/-- Splits off the longest run of word characters and of dots with a word character behind. -/
def dottedRun : Text → Text × Text
  | [] => ([], [])
  | c :: cs =>
    if isWord c || (c == '.' && cs.head?.any isWord) then
      (c :: (dottedRun cs).1, (dottedRun cs).2)
    else ([], c :: cs)

/-- Words joined by dots. -/
def dottedWords : Pattern Text
  | [] => none
  | c :: cs =>
    if isWord c then
      let split := dottedRun (c :: cs)
      some ⟨split.1, split.1, split.2⟩
    else none

/-- The match of a pattern behind a dollar sign. -/
def Hit.dollar {α : Type} (hit : Hit α) : Hit α := { hit with matched := '$' :: hit.matched }

/-! ## References -/

/-- A reference, read as the path between its brackets. -/
def referenceAt : Pattern Text
  | .char '$' :: s => ((inParens s).or ((dottedWords s).or (inBraces s))).map Hit.dollar
  | _ => none

/-- A reference inside a value. -/
structure Reference where
  /-- The text of the reference. -/
  captured : Text
  /-- The flat path that it refers to. -/
  path : Text

/-- The first reference of a value. -/
def findReference (s : Text) : Option Reference :=
  (search referenceAt s).map fun f => ⟨f.matched, trim f.item⟩

/-! ## Aliases -/

/-- An alias, read as the name between its brackets. -/
def aliasAt : Pattern Text
  | .char '$' :: .char '$' :: s =>
    ((inParens s).or ((inBraces s).or (dottedWords s))).map fun hit => hit.dollar.dollar
  | _ => none

/-- The reference to an entry of the palette section. -/
def paletteReference (palette name : Text) : Text :=
  "$(" ++ palette ++ "." ++ trim name ++ ")"

theorem enclosed_rest_lt {stops : CodePoint → Bool} {close : CodePoint} {s body rest : Text}
    (h : enclosed stops close s = some (body, rest)) : rest.length < s.length := by
  unfold enclosed at h
  have le := (List.dropWhile_sublist (fun c => !stops c) (l := s)).length_le
  split at h
  · cases h
  · next c rest' hrest =>
    dsimp only at h
    split at h
    · cases h
      rw [hrest] at le
      exact le
    · cases h

theorem dottedRun_rest_le (s : Text) : (dottedRun s).2.length ≤ s.length := by
  induction s with
  | nil => simp [dottedRun]
  | cons c cs ih =>
    unfold dottedRun
    split <;> simp
    omega

theorem inParens_rest_lt {s : Text} {hit : Hit Text} (h : inParens s = some hit) :
    hit.rest.length < s.length := by
  unfold inParens at h
  split at h
  · next t =>
    obtain ⟨⟨b, r⟩, hb, rfl⟩ := Option.map_eq_some_iff.1 h
    have := enclosed_rest_lt hb
    simp; omega
  · cases h

theorem inBraces_rest_lt {s : Text} {hit : Hit Text} (h : inBraces s = some hit) :
    hit.rest.length < s.length := by
  unfold inBraces at h
  split at h
  · next t =>
    obtain ⟨⟨b, r⟩, hb, rfl⟩ := Option.map_eq_some_iff.1 h
    have := enclosed_rest_lt hb
    simp; omega
  · cases h

theorem dottedWords_rest_le {s : Text} {hit : Hit Text}
    (h : dottedWords s = some hit) : hit.rest.length ≤ s.length := by
  unfold dottedWords at h
  split at h
  · cases h
  · next c cs =>
    split at h
    · cases h
      exact dottedRun_rest_le (c :: cs)
    · cases h

/-- An alias takes characters away, so that reading on behind it comes to an end. -/
theorem aliasAt_rest_lt {s : Text} {hit : Hit Text} (h : aliasAt s = some hit) :
    hit.rest.length < s.length := by
  unfold aliasAt at h
  split at h
  · next t =>
    obtain ⟨g, hg, rfl⟩ := Option.map_eq_some_iff.1 h
    simp only [Hit.dollar, List.length_cons]
    cases hp : inParens t with
    | some g' =>
      simp [hp] at hg; subst hg
      have := inParens_rest_lt hp; omega
    | none =>
      cases hb : inBraces t with
      | some g' =>
        simp [hp, hb] at hg; subst hg
        have := inBraces_rest_lt hb; omega
      | none =>
        simp [hp, hb] at hg
        have := dottedWords_rest_le hg; omega
  · cases h

/-- The value with every alias written as the reference that it stands for. -/
def expandAliases (palette : Text) (s : Text) : Text :=
  match _h : aliasAt s with
  | some hit => paletteReference palette hit.item ++ expandAliases palette hit.rest
  | none =>
    match s with
    | [] => []
    | c :: cs => c :: expandAliases palette cs
termination_by s.length
decreasing_by
  · exact aliasAt_rest_lt (by assumption)
  · simp

end Colourway.Syntax
