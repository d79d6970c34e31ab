import Colourway.Proofs.Resolve.Run
import Colourway.Proofs.Syntax.Spelling

/-!
# Where a step changes a value

A step searches for the first reference, or the first innermost call, but puts the new text in the
place of the first occurrence of the text that it found.  These are the same place
(**`replaced_in_place`**): wherever the text of a reference stands, whatever is around it, a
reference can be read, so the search has passed none by.  The same goes for calls.

* `IsReference`, `IsCall` — what references and innermost calls look like, apart from how they are
  read.
* `Leftmost` — the first place in a text where a text of a language stands, and the longest such
  text there.
* `Pattern.Reads` — a pattern that reads a language; `Reads.search_leftmost` — a search for it finds
  the leftmost text of the language.
-/

namespace Colourway

open Text

namespace Syntax

/-! ## References and calls -/

/-- A reference in one of its three spellings. -/
inductive IsReference : Text → Prop
  /-- A path in round brackets. -/
  | parens {path : Text} (nonempty : path ≠ []) (plain : ∀ c ∈ path, isParen c = false) :
      IsReference (Spelling.parens.write path)
  /-- Words with dots between them. -/
  | bare {path : Text} (dotted : IsDotted path) : IsReference (Spelling.bare.write path)
  /-- A path in curly brackets. -/
  | braces {path : Text} (nonempty : path ≠ []) (plain : ∀ c ∈ path, isBracket c = false) :
      IsReference (Spelling.braces.write path)

/-- A call without brackets among its arguments. -/
inductive IsCall : Text → Prop
  | intro {name args : Text} (nonempty : name ≠ []) (word : ∀ c ∈ name, isWord c = true)
      (plain : ∀ c ∈ args, isParen c = false) : IsCall (name ++ "(" ++ args ++ ")")

/-! ## Patterns and languages -/

/-- The text splits at the first place where a text of the language `L` stands, and `matched` is the
longest one that stands there. -/
structure Leftmost (L : Text → Prop) (s before matched after : Text) : Prop where
  /-- The three parts make up the text. -/
  whole : before ++ matched ++ after = s
  /-- The part in the middle belongs to the language. -/
  mem : L matched
  /-- No text of the language stands further to the left. -/
  first : ∀ lead m rest, lead ++ m ++ rest = s → L m → before.length ≤ lead.length
  /-- No longer one stands at the same place. -/
  longest : ∀ m rest, m ++ rest = matched ++ after → L m → m.length ≤ matched.length

/-- A pattern that reads the texts of a language at the front of any text. -/
structure Pattern.Reads {α : Type} (pattern : Pattern α) (L : Text → Prop) : Prop where
  /-- The match and what is behind it make up the text. -/
  split : ∀ {s hit}, pattern s = some hit → hit.matched ++ hit.rest = s
  /-- A match belongs to the language. -/
  mem : ∀ {s hit}, pattern s = some hit → L hit.matched
  /-- Where a text of the language stands, there is a match, and none that is shorter. -/
  longest : ∀ {m}, L m → ∀ rest, ∃ hit, pattern (m ++ rest) = some hit ∧
    m.length ≤ hit.matched.length
  /-- The empty text does not belong to the language. -/
  nonempty : ¬ L []

namespace Pattern.Reads

variable {α : Type} {pattern : Pattern α} {L : Text → Prop}

theorem steady (reads : pattern.Reads L) : pattern.Steady where
  split := reads.split
  again h rest := by
    obtain ⟨hit, hhit, -⟩ := reads.longest (reads.mem h) rest
    exact Option.isSome_of_eq_some hhit

/-- **A search finds the leftmost text of the language.** -/
theorem search_leftmost (reads : pattern.Reads L) {s : Text} {f : Found α}
    (h : search pattern s = some f) : Leftmost L s f.before f.matched f.after := by
  induction s generalizing f with
  | nil => cases h
  | cons c s ih =>
    cases hhere : pattern (c :: s) with
    | some hit =>
      rw [search_cons_of_some hhere] at h
      cases h
      have hsplit : hit.matched ++ hit.rest = c :: s := reads.split hhere
      refine ⟨hsplit, reads.mem hhere, fun _ _ _ _ _ => Nat.zero_le _, ?_⟩
      intro m rest heq hm
      obtain ⟨hit', hhit', hle⟩ := reads.longest hm rest
      rw [heq, hsplit, hhere] at hhit'
      cases hhit'
      exact hle
    | none =>
      rw [search_cons_of_none hhere] at h
      obtain ⟨g, hg, rfl⟩ := Option.map_eq_some_iff.mp h
      have hbehind := ih hg
      refine ⟨congrArg (c :: ·) hbehind.whole, hbehind.mem, ?_, hbehind.longest⟩
      intro lead m rest heq hm
      cases lead with
      | nil =>
        -- a text of the language at the front would have been the match
        obtain ⟨hit, hhit, -⟩ := reads.longest hm rest
        rw [List.nil_append] at heq
        rw [heq, hhere] at hhit
        cases hhit
      | cons d lead =>
        have htail : lead ++ m ++ rest = s := (List.cons.inj heq).2
        exact Nat.succ_le_succ (hbehind.first lead m rest htail hm)

/-- Where a search finds nothing, no text of the language stands. -/
theorem search_none (reads : pattern.Reads L) {s : Text} (h : search pattern s = none)
    (lead m rest : Text) (heq : lead ++ m ++ rest = s) : ¬ L m := by
  induction s generalizing lead with
  | nil =>
    obtain rfl : m = [] := by simp at heq; exact heq.2.1
    exact reads.nonempty
  | cons c s ih =>
    cases hhere : pattern (c :: s) with
    | some hit =>
      rw [search_cons_of_some hhere] at h
      cases h
    | none =>
      rw [search_cons_of_none hhere, Option.map_eq_none_iff] at h
      cases lead with
      | nil =>
        intro hm
        obtain ⟨hit, hhit, -⟩ := reads.longest hm rest
        rw [List.nil_append] at heq
        rw [heq, hhere] at hhit
        cases hhit
      | cons d lead => exact ih h lead (List.cons.inj heq).2

end Pattern.Reads

/-! ## Dotted words are what the bare spelling reads -/

theorem IsDotted.cons_word {c : CodePoint} {p : Text} (hc : isWord c = true) (h : IsDotted p) :
    IsDotted (c :: p) := by
  obtain ⟨words, hne, hwords, rfl⟩ := h
  cases words with
  | nil => exact absurd rfl hne
  | cons w words =>
    obtain ⟨⟨-, hw⟩, hrest⟩ := List.forall_mem_cons.mp hwords
    refine ⟨(c :: w) :: words, List.cons_ne_nil _ _, ?_, ?_⟩
    · exact List.forall_mem_cons.mpr
        ⟨⟨List.cons_ne_nil _ _, List.forall_mem_cons.mpr ⟨hc, hw⟩⟩, hrest⟩
    · cases words <;> simp [Text.join, List.intercalate_cons_cons]

theorem IsDotted.cons_dot {c : CodePoint} {p : Text} (hc : isWord c = true) (h : IsDotted p) :
    IsDotted (c :: .char '.' :: p) := by
  obtain ⟨words, hne, hwords, rfl⟩ := h
  cases words with
  | nil => exact absurd rfl hne
  | cons w words =>
    refine ⟨[c] :: w :: words, List.cons_ne_nil _ _, ?_, ?_⟩
    · exact List.forall_mem_cons.mpr
        ⟨⟨List.cons_ne_nil _ _, List.forall_mem_singleton.mpr hc⟩, hwords⟩
    · simp [Text.join, Text.ofString, List.intercalate_cons_cons]

/-- A run that starts with a word character consists of words with dots between them. -/
theorem isDotted_run : ∀ {s : Text}, s.head?.any isWord = true → IsDotted (dottedRun s).1
  | [], h => by cases h
  | [c], h => by
    have hc : isWord c = true := h
    rw [dottedRun, if_pos (by rw [hc]; rfl)]
    exact IsDotted.of_word (List.cons_ne_nil _ _) (List.forall_mem_singleton.mpr hc)
  | c :: d :: s, h => by
    have hc : isWord c = true := h
    rw [dottedRun, if_pos (by rw [hc]; rfl)]
    by_cases hd : isWord d = true
    · exact (isDotted_run (s := d :: s) hd).cons_word hc
    · by_cases hdot : (isWord d || (d == .char '.' && s.head?.any isWord)) = true
      · have hd' : isWord d = false := by simpa using hd
        rw [hd', Bool.false_or, Bool.and_eq_true, beq_iff_eq] at hdot
        obtain ⟨rfl, hhead⟩ := hdot
        rw [dottedRun, if_pos (by rw [hhead]; simp)]
        exact (isDotted_run hhead).cons_dot hc
      · rw [dottedRun, if_neg hdot]
        exact IsDotted.of_word (List.cons_ne_nil _ _) (List.forall_mem_singleton.mpr hc)

/-- A run goes on at least as far in front of another text. -/
theorem length_le_dottedRun {p : Text} (h : dottedRun p = (p, [])) (rest : Text) :
    p.length ≤ (dottedRun (p ++ rest)).1.length := by
  induction p with
  | nil => exact Nat.zero_le _
  | cons c p ih =>
    rw [dottedRun] at h
    split at h
    · next hc =>
      have hrun : dottedRun p = (p, []) := by
        obtain ⟨hfirst, hsecond⟩ := Prod.ext_iff.mp h
        exact Prod.ext (List.cons.inj hfirst).2 hsecond
      have hc' : (isWord c || (c == .char '.' && (p ++ rest).head?.any isWord)) = true := by
        simp only [Bool.or_eq_true, Bool.and_eq_true] at hc ⊢
        refine hc.imp id fun hdot => ⟨hdot.1, ?_⟩
        cases p with
        | nil => exact absurd hdot.2 (by decide)
        | cons d p => exact hdot.2
      rw [List.cons_append, dottedRun, if_pos hc']
      exact Nat.succ_le_succ (ih hrun)
    · exact absurd (Prod.ext_iff.mp h).2 (List.cons_ne_nil _ _)

/-! ## Reading references and calls -/

theorem IsReference.read {m : Text} (h : IsReference m) (rest : Text) :
    ∃ hit, referenceAt (m ++ rest) = some hit ∧ m.length ≤ hit.matched.length := by
  cases h with
  | @parens path nonempty plain =>
    have hread : inParens (.char '(' :: (path ++ .char ')' :: rest)) =
        some ⟨"(" ++ path ++ ")", path, rest⟩ :=
      inParens_eq_some_iff.mpr ⟨path, rest, nonempty, plain, rfl, rfl⟩
    refine ⟨⟨Spelling.parens.write path, path, rest⟩, ?_, le_refl _⟩
    simpa [Spelling.write, Text.ofString, Hit.dollar] using referenceAt_of_parens hread
  | @bare path dotted =>
    obtain ⟨hrun, hfirst⟩ := dotted.run
    obtain ⟨c, tail, rfl⟩ := List.exists_cons_of_ne_nil dotted.ne_nil
    have hc : isWord c = true := hfirst
    have hread : dottedWords (c :: (tail ++ rest)) =
        some ⟨(dottedRun (c :: tail ++ rest)).1, (dottedRun (c :: tail ++ rest)).1,
          (dottedRun (c :: tail ++ rest)).2⟩ := by
      rw [dottedWords, if_pos hc]
      rfl
    exact ⟨_, referenceAt_of_words hread, Nat.succ_le_succ (length_le_dottedRun hrun rest)⟩
  | @braces path nonempty plain =>
    have hread : inBraces (.char '\x7b' :: (path ++ .char '\x7d' :: rest)) =
        some ⟨"\x7b" ++ path ++ "\x7d", path, rest⟩ :=
      inBraces_eq_some_iff.mpr ⟨path, rest, nonempty, plain, rfl, rfl⟩
    refine ⟨⟨Spelling.braces.write path, path, rest⟩, ?_, le_refl _⟩
    simpa [Spelling.write, Text.ofString, Hit.dollar] using referenceAt_of_braces hread

theorem isReference_of_referenceAt {s : Text} {hit : Hit Text} (h : referenceAt s = some hit) :
    IsReference hit.matched := by
  obtain ⟨t, g, -, rfl, hparens | hwords | hbraces⟩ := referenceAt_cases h
  · obtain ⟨path, rest, nonempty, plain, -, rfl⟩ := inParens_eq_some_iff.mp hparens
    exact .parens nonempty plain
  · unfold dottedWords at hwords
    split at hwords
    · cases hwords
    · next c cs =>
      split at hwords
      · next hc =>
        cases hwords
        exact .bare (isDotted_run (s := c :: cs) hc)
      · cases hwords
  · obtain ⟨path, rest, nonempty, plain, -, rfl⟩ := inBraces_eq_some_iff.mp hbraces
    exact .braces nonempty plain

theorem referenceAt_reads : referenceAt.Reads IsReference where
  split := referenceAt_steady.split
  mem := isReference_of_referenceAt
  longest := IsReference.read
  nonempty := by
    intro h
    obtain ⟨hit, hhit, -⟩ := h.read []
    cases hhit

theorem callAt_reads : callAt.Reads IsCall where
  split := callAt_steady.split
  mem h := by
    obtain ⟨name, args, rest, hne, hname, hargs, -, rfl⟩ := callAt_eq_some_iff.mp h
    exact .intro hne hname hargs
  longest h rest := by
    obtain @⟨name, args, hne, hname, hargs⟩ := h
    have hread : callAt (name ++ "(" ++ args ++ ")" ++ rest) =
        some ⟨name ++ "(" ++ args ++ ")", (name, args), rest⟩ :=
      callAt_eq_some_iff.mpr
        ⟨name, args, rest, hne, hname, hargs, by simp [Text.ofString], rfl⟩
    exact ⟨_, hread, le_refl _⟩
  nonempty := by
    generalize hs : ([] : Text) = s
    rintro ⟨hne, -, -⟩
    simp [Text.ofString] at hs

/-! ## Replacing what was found -/

/-- Replacing the first occurrence of `captured` puts the new text in the place of the leftmost text
of the language, before which `captured` does not occur. -/
def ReplacedInPlace (L : Text → Prop) (value captured : Text) : Prop :=
  ∃ before after, Leftmost L value before captured after ∧
    (∀ lead rest, lead ++ captured ++ rest = value → before.length ≤ lead.length) ∧
    ∀ replacement, replaceFirst captured replacement value = before ++ replacement ++ after

theorem Pattern.Reads.replaced {α : Type} {pattern : Pattern α} {L : Text → Prop}
    (reads : pattern.Reads L) {value : Text} {f : Found α} (h : search pattern value = some f) :
    ReplacedInPlace L value f.matched := by
  have hleft := reads.search_leftmost h
  exact ⟨f.before, f.after, hleft, fun lead rest heq => hleft.first lead _ rest heq hleft.mem,
    replaceFirst_found reads.steady h⟩

theorem findReference_replaced {value : Text} {ref : Reference}
    (h : findReference value = some ref) : ReplacedInPlace IsReference value ref.captured := by
  obtain ⟨f, hf, rfl⟩ := Option.map_eq_some_iff.mp h
  exact referenceAt_reads.replaced hf

theorem findCall_replaced {value : Text} {call : Call} (h : findCall value = some call) :
    ReplacedInPlace IsCall value call.captured := by
  obtain ⟨f, hf, rfl⟩ := Option.map_eq_some_iff.mp h
  exact callAt_reads.replaced hf

end Syntax

open Syntax

/-- The draft of a step puts a new text in the place of the leftmost text of a language, which it
names as the raw value. -/
def Draft.Splices (d : Draft) (L : Text → Prop) (value : Text) : Prop :=
  ∃ before captured after new, Leftmost L value before captured after ∧
    d.raw = .text captured ∧ d.value = .text (before ++ new ++ after)

theorem Resolver.step_splices {r : Resolver} {s : Store} {scope : Scope} {key value : Text}
    {d : Draft} (h : r.step s scope key value = .ok (some d)) :
    d.kind = .hex ∨ d.kind = .reference ∧ d.Splices IsReference value ∨
      d.kind = .call ∧ d.Splices IsCall value := by
  unfold step at h
  split at h
  · obtain ⟨x, -, rfl⟩ := Option.map_eq_some_iff.mp (Except.ok.inj h)
    exact .inl rfl
  · obtain ⟨ref, t, shown, href, -, -, -, hd⟩ := referenceStep_draft h
    obtain ⟨before, after, hleft, -, hreplace⟩ := findReference_replaced href
    rw [hd]
    exact .inr (.inl ⟨rfl, before, _, after, _, hleft, rfl, congrArg Document.text (hreplace _)⟩)
  · obtain ⟨call, result, hcall, -, hd⟩ := callStep_draft h
    obtain ⟨before, after, hleft, -, hreplace⟩ := findCall_replaced hcall
    rw [hd]
    exact .inr (.inr ⟨rfl, before, _, after, _, hleft, rfl, congrArg Document.text (hreplace _)⟩)
  · cases h

/-- **A step replaces exactly the text that it found.**  Where a reference is found in a value, it
is the leftmost text that is a reference in any of its spellings, its text does not occur further to
the left, and replacing the first occurrence replaces it where it was found; where none is found,
the value holds none.  The same goes for innermost calls, and so for the value that a step leaves
behind. -/
theorem replaced_in_place (value : Text) :
    (∀ ref, findReference value = some ref → ReplacedInPlace IsReference value ref.captured) ∧
    (findReference value = none → ∀ lead m rest, lead ++ m ++ rest = value → ¬ IsReference m) ∧
    (∀ call, findCall value = some call → ReplacedInPlace IsCall value call.captured) ∧
    (findCall value = none → ∀ lead m rest, lead ++ m ++ rest = value → ¬ IsCall m) ∧
    ∀ (r : Resolver) (s : Store) (scope : Scope) (key : Text) (d : Draft),
      r.step s scope key value = .ok (some d) →
        d.kind = .hex ∨ d.kind = .reference ∧ d.Splices IsReference value ∨
          d.kind = .call ∧ d.Splices IsCall value := by
  refine ⟨fun ref => findReference_replaced, ?_, fun call => findCall_replaced, ?_,
    fun r s scope key d => Resolver.step_splices⟩
  · intro hnone
    exact referenceAt_reads.search_none (Option.map_eq_none_iff.mp hnone)
  · intro hnone
    exact callAt_reads.search_none (Option.map_eq_none_iff.mp hnone)

/-- The text that is found occurs again behind its place, as part of a longer path or on its own,
and stands among other signs; a text of dollar signs holds no reference, and one whose brackets do
not match no call. -/
theorem repeats_replaced_in_place :
    (∃ ref, findReference "$.$a$a.b" = some ref ∧ ref.captured = "$a" ∧
      ReplacedInPlace IsReference "$.$a$a.b" ref.captured) ∧
    (∃ call, findCall "g(1f(g(1)g(1)))" = some call ∧ call.captured = "g(1)" ∧
      ReplacedInPlace IsCall "g(1f(g(1)g(1)))" call.captured) ∧
    ¬ IsReference "$$" ∧ ¬ IsCall "f(g" := by
  obtain ⟨ref, href, hcaptured⟩ := Option.map_eq_some_iff.mp
    (by decide +kernel : (findReference "$.$a$a.b").map (·.captured) = some "$a")
  obtain ⟨call, hcall, hwritten⟩ := Option.map_eq_some_iff.mp
    (by decide +kernel : (findCall "g(1f(g(1)g(1)))").map (·.captured) = some "g(1)")
  have hreference := (replaced_in_place "$.$a$a.b").1 ref href
  have hinner := (replaced_in_place "g(1f(g(1)g(1)))").2.2.1 call hcall
  have hdollars := (replaced_in_place "$$").2.1 (by decide +kernel) [] "$$" [] rfl
  have hopen := (replaced_in_place "f(g").2.2.2.1 (by decide +kernel) [] "f(g" [] rfl
  exact ⟨⟨ref, href, hcaptured, hreference⟩, ⟨call, hcall, hwritten, hinner⟩, hdollars, hopen⟩

end Colourway
