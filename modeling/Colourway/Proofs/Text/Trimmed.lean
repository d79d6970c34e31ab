import Colourway.Text.Blank
import Mathlib.Data.List.TakeWhile

/-!
# White space around a text

A text is what is left of it when it is trimmed, with white space on either side (`exists_padding`).
White space that is put around a text does not change what is left of it (`trim_padded`), so nothing
is trimmed twice (`trimmed_trim`).

* `trim_eq_nil_iff` — nothing is left of white space only.
* `trimmed_of_ends` — a text that white space neither opens nor closes stays as it is.
-/

namespace Colourway.Text

variable {s lead trail : Text}

theorem allBlank_iff : allBlank s = true ↔ ∀ c ∈ s, isBlank c = true := List.all_eq_true

theorem trim_lead (hlead : allBlank lead = true) : trim (lead ++ s) = trim s := by
  rw [trim, trim, dropLead, dropLead, List.dropWhile_append_of_pos (allBlank_iff.mp hlead)]

theorem trim_trail (htrail : allBlank trail = true) : trim (s ++ trail) = trim s := by
  have hreverse : ∀ c ∈ trail.reverse, isBlank c = true :=
    fun c hc => allBlank_iff.mp htrail c (List.mem_reverse.mp hc)
  rw [trim, trim, dropLead, dropLead, List.dropWhile_append]
  split
  · next hblank =>
    rw [List.isEmpty_iff.mp hblank, List.dropWhile_eq_nil_iff.mpr (allBlank_iff.mp htrail)]
  · rw [dropTail, dropTail, List.reverse_append, List.dropWhile_append_of_pos hreverse]

/-- **White space around a text is trimmed away.** -/
theorem trim_padded (hlead : allBlank lead = true) (htrail : allBlank trail = true) :
    trim (lead ++ s ++ trail) = trim s := by
  rw [trim_trail htrail, trim_lead hlead]

/-- **A text is what is left of it, with white space on either side.** -/
theorem exists_padding (s : Text) : ∃ lead trail, allBlank lead = true ∧ allBlank trail = true ∧
    s = lead ++ trim s ++ trail := by
  refine ⟨s.takeWhile isBlank, ((dropLead isBlank s).reverse.takeWhile isBlank).reverse, ?_, ?_, ?_⟩
  · exact allBlank_iff.mpr fun c hc => List.mem_takeWhile_imp hc
  · exact allBlank_iff.mpr fun c hc => List.mem_takeWhile_imp (List.mem_reverse.mp hc)
  · have htail : dropLead isBlank s =
        trim s ++ ((dropLead isBlank s).reverse.takeWhile isBlank).reverse := by
      rw [trim, dropTail, ← List.reverse_append, List.takeWhile_append_dropWhile,
        List.reverse_reverse]
    rw [List.append_assoc, ← htail, dropLead, List.takeWhile_append_dropWhile]

theorem mem_of_mem_trim {c : CodePoint} (h : c ∈ trim s) : c ∈ s := by
  obtain ⟨lead, trail, -, -, hs⟩ := exists_padding s
  rw [hs]
  exact List.mem_append_left _ (List.mem_append_right _ h)

/-- What is left of a text does not end in white space. -/
theorem isBlank_getLast?_trim {c : CodePoint} (h : (trim s).getLast? = some c) :
    isBlank c = false := by
  unfold trim dropTail at h
  rw [List.getLast?_reverse] at h
  have hnot := List.head?_dropWhile_not isBlank (dropLead isBlank s).reverse
  rw [h] at hnot
  exact hnot

/-- **What is left of a text is trimmed.** -/
theorem trimmed_trim (s : Text) : Trimmed (trim s) := by
  obtain ⟨lead, trail, hlead, htrail, hs⟩ := exists_padding s
  calc trim (trim s) = trim (lead ++ trim s ++ trail) := (trim_padded hlead htrail).symm
    _ = trim s := by rw [← hs]

theorem trim_eq_nil_iff : trim s = [] ↔ allBlank s = true := by
  constructor
  · intro h
    obtain ⟨lead, trail, hlead, htrail, hs⟩ := exists_padding s
    rw [h, List.append_nil] at hs
    rw [hs, allBlank, List.all_append, Bool.and_eq_true]
    exact ⟨hlead, htrail⟩
  · intro h
    rw [← List.nil_append s, trim_trail h]
    rfl

/-- A text that white space neither opens nor closes is trimmed. -/
theorem trimmed_of_ends {c d : CodePoint} (hc : isBlank c = false)
    (hd : isBlank d = false) : Trimmed (c :: (s ++ [d])) := by
  rw [Trimmed, trim, dropLead, List.dropWhile_cons_of_neg (by rw [hc]; decide), dropTail,
    List.reverse_cons, List.reverse_append, List.reverse_singleton, List.cons_append,
    List.cons_append, List.dropWhile_cons_of_neg (by rw [hd]; decide)]
  simp

end Colourway.Text
