import Colourway.Text.Basic

/-!
# Finding and replacing text

Occurrences are taken from the left and do not overlap. The empty text occurs before every
character and at the end.
-/

namespace Colourway.Text

/-- Whether `target` occurs in the text. -/
def occursIn (target : Text) : Text → Bool
  | [] => target.isEmpty
  | c :: cs => target.isPrefixOf (c :: cs) || occursIn target cs

/-- The text with the first occurrence of `target` replaced; unchanged if there is none. -/
def replaceFirst (target replacement : Text) : Text → Text
  | [] => if target = [] then replacement else []
  | c :: cs =>
    match target.isPrefixOf? (c :: cs) with
    | some rest => replacement ++ rest
    | none => c :: replaceFirst target replacement cs

/-- The text with every occurrence of a non-empty `target` replaced. The counter holds how many
characters of the last occurrence are still to be passed over. -/
def replaceFrom (target replacement : Text) : Nat → Text → Text
  | _, [] => []
  | passed + 1, _ :: cs => replaceFrom target replacement passed cs
  | 0, c :: cs =>
    if target.isPrefixOf (c :: cs) then
      replacement ++ replaceFrom target replacement (target.length - 1) cs
    else c :: replaceFrom target replacement 0 cs

/-- The text with `filling` before every character and at the end. -/
def interleave (filling s : Text) : Text :=
  s.foldr (fun c done => filling ++ c :: done) filling

/-- The text with every occurrence of `target` replaced. -/
def replaceAll (target replacement s : Text) : Text :=
  if target = [] then interleave replacement s else replaceFrom target replacement 0 s

end Colourway.Text
