import Colourway.Syntax.Call
import Colourway.Text.Substitute
import Mathlib.Data.List.Basic
import Mathlib.Data.List.TakeWhile

/-!
# What searches find

Calls and references are read from the front of a text; this file says exactly when, and follows
the searches for them through longer texts.

* `callAt_eq_some_iff`, `inParens_eq_some_iff` — what a call and a bracketed reference look like.
* `search_skip` — a search passes over a text at whose places nothing matches.
* `replaceFirst_found` — replacing the first occurrence of what was found replaces it where it was
  found, for the patterns of calls and of references alike.
-/

namespace Colourway.Syntax

open Text

/-! ## Runs of characters -/

section Runs

variable {p : CodePoint → Bool} {a b : Text} {c : CodePoint}

/-- A run of characters ends where the next character does not belong to it. -/
theorem takeWhile_stop (ha : ∀ x ∈ a, p x = true) (hc : p c = false) :
    (a ++ c :: b).takeWhile p = a := by
  rw [List.takeWhile_append_of_pos ha, List.takeWhile_cons_of_neg (by rw [hc]; decide),
    List.append_nil]

theorem dropWhile_stop (ha : ∀ x ∈ a, p x = true) (hc : p c = false) :
    (a ++ c :: b).dropWhile p = c :: b := by
  rw [List.dropWhile_append_of_pos ha, List.dropWhile_cons_of_neg (by rw [hc]; decide)]

/-- Where the first stop of a text is does not depend on how the text is told. -/
theorem run_unique (stop : CodePoint → Bool) {a' b' : Text} {c' : CodePoint}
    (ha : ∀ x ∈ a, stop x = false) (hc : stop c = true) (ha' : ∀ x ∈ a', stop x = false)
    (hc' : stop c' = true) (h : a ++ c :: b = a' ++ c' :: b') : a = a' ∧ c = c' ∧ b = b' := by
  have hrun : ∀ {s : Text}, (∀ x ∈ s, stop x = false) → ∀ x ∈ s, (!stop x) = true := by
    intro s hs x hx
    simp [hs x hx]
  have hend : ∀ {d}, stop d = true → (!stop d) = false := by
    intro d hd
    simp [hd]
  have htake := congrArg (List.takeWhile fun x => !stop x) h
  have hdrop := congrArg (List.dropWhile fun x => !stop x) h
  rw [takeWhile_stop (hrun ha) (hend hc), takeWhile_stop (hrun ha') (hend hc')] at htake
  rw [dropWhile_stop (hrun ha) (hend hc), dropWhile_stop (hrun ha') (hend hc'),
    List.cons.injEq] at hdrop
  exact ⟨htake, hdrop⟩

end Runs

/-! ## Calls -/

/-- The characters that values are built with are no word characters. -/
theorem isWord_mark {c : CodePoint} (h : c ∈ Text.ofString "$(), ") : isWord c = false := by
  revert c
  decide +kernel

/-- **What a call is**: a word, and between round brackets a text without round brackets. -/
theorem callAt_eq_some_iff {s : Text} {hit : Hit (Text × Text)} :
    callAt s = some hit ↔ ∃ name args rest, name ≠ [] ∧ (∀ c ∈ name, isWord c = true) ∧
      (∀ c ∈ args, isParen c = false) ∧ s = name ++ .char '(' :: (args ++ .char ')' :: rest) ∧
      hit = ⟨name ++ "(" ++ args ++ ")", (name, args), rest⟩ := by
  constructor
  · intro h
    unfold callAt at h
    split at h
    · cases h
    · next htail hname =>
      split at h
      · next hrest =>
        refine ⟨_, _, _, hname, fun c hc => List.mem_takeWhile_imp hc, ?_, ?_,
          (Option.some.inj h).symm⟩
        · intro c hc
          simpa using List.mem_takeWhile_imp hc
        · rw [← hrest, List.takeWhile_append_dropWhile, ← htail, List.takeWhile_append_dropWhile]
      · cases h
    · cases h
  · rintro ⟨name, args, rest, hne, hname, hargs, rfl, rfl⟩
    have hopen : isWord (.char '(') = false := isWord_mark (by decide)
    have hargs' : ∀ c ∈ args, (!isParen c) = true := by
      intro c hc
      rw [hargs c hc]
      rfl
    have htake := takeWhile_stop (p := fun c => !isParen c) (b := rest) hargs' (c := .char ')') rfl
    have hdrop := dropWhile_stop (p := fun c => !isParen c) (b := rest) hargs' (c := .char ')') rfl
    unfold callAt
    rw [takeWhile_stop hname hopen, dropWhile_stop hname hopen]
    cases name with
    | nil => exact absurd rfl hne
    | cons c name => simp only [htake, hdrop]

/-! ## References -/

theorem enclosed_eq_some_iff {stops : CodePoint → Bool} {close : CodePoint}
    (hclose : stops close = true) {s body rest : Text} :
    enclosed stops close s = some (body, rest) ↔
      body ≠ [] ∧ (∀ c ∈ body, stops c = false) ∧ s = body ++ close :: rest := by
  constructor
  · intro h
    unfold enclosed at h
    split at h
    · cases h
    · next hdrop =>
      dsimp only at h
      split at h
      · next hcond =>
        obtain ⟨hne, rfl⟩ := hcond
        cases h
        refine ⟨hne, ?_, ?_⟩
        · intro c hc
          simpa using List.mem_takeWhile_imp hc
        · rw [← hdrop, List.takeWhile_append_dropWhile]
      · cases h
  · rintro ⟨hne, hbody, rfl⟩
    have hbody' : ∀ c ∈ body, (!stops c) = true := by
      intro c hc
      rw [hbody c hc]
      rfl
    have hclose' : (!stops close) = false := by
      rw [hclose]
      rfl
    unfold enclosed
    rw [dropWhile_stop (p := fun c => !stops c) hbody' hclose',
      takeWhile_stop (p := fun c => !stops c) hbody' hclose']
    exact if_pos ⟨hne, rfl⟩

theorem inParens_eq_some_iff {s : Text} {hit : Hit Text} :
    inParens s = some hit ↔ ∃ body rest, body ≠ [] ∧ (∀ c ∈ body, isParen c = false) ∧
      s = .char '(' :: (body ++ .char ')' :: rest) ∧ hit = ⟨"(" ++ body ++ ")", body, rest⟩ := by
  constructor
  · intro h
    unfold inParens at h
    split at h
    · obtain ⟨⟨body, rest⟩, hbody, rfl⟩ := Option.map_eq_some_iff.1 h
      obtain ⟨hne, hnone, rfl⟩ := (enclosed_eq_some_iff rfl).1 hbody
      exact ⟨body, rest, hne, hnone, rfl, rfl⟩
    · cases h
  · rintro ⟨body, rest, hne, hbody, rfl, rfl⟩
    rw [inParens, (enclosed_eq_some_iff rfl).2 ⟨hne, hbody, rfl⟩]
    rfl

theorem inBraces_eq_some_iff {s : Text} {hit : Hit Text} :
    inBraces s = some hit ↔ ∃ body rest, body ≠ [] ∧ (∀ c ∈ body, isBracket c = false) ∧
      s = .char '\x7b' :: (body ++ .char '\x7d' :: rest) ∧
      hit = ⟨"\x7b" ++ body ++ "\x7d", body, rest⟩ := by
  constructor
  · intro h
    unfold inBraces at h
    split at h
    · obtain ⟨⟨body, rest⟩, hbody, rfl⟩ := Option.map_eq_some_iff.1 h
      obtain ⟨hne, hnone, rfl⟩ := (enclosed_eq_some_iff rfl).1 hbody
      exact ⟨body, rest, hne, hnone, rfl, rfl⟩
    · cases h
  · rintro ⟨body, rest, hne, hbody, rfl, rfl⟩
    rw [inBraces, (enclosed_eq_some_iff rfl).2 ⟨hne, hbody, rfl⟩]
    rfl

/-- A name in brackets is read again in front of any text. -/
theorem inParens_again {s : Text} {hit : Hit Text} (h : inParens s = some hit) (b : Text) :
    inParens (hit.matched ++ b) = some ⟨hit.matched, hit.item, b⟩ := by
  obtain ⟨body, rest, hne, hbody, -, rfl⟩ := inParens_eq_some_iff.1 h
  exact inParens_eq_some_iff.2 ⟨body, b, hne, hbody, by simp [Text.ofString], rfl⟩

theorem inBraces_again {s : Text} {hit : Hit Text} (h : inBraces s = some hit) (b : Text) :
    inBraces (hit.matched ++ b) = some ⟨hit.matched, hit.item, b⟩ := by
  obtain ⟨body, rest, hne, hbody, -, rfl⟩ := inBraces_eq_some_iff.1 h
  exact inBraces_eq_some_iff.2 ⟨body, b, hne, hbody, by simp [Text.ofString], rfl⟩

theorem dottedRun_append (s : Text) : (dottedRun s).1 ++ (dottedRun s).2 = s := by
  induction s with
  | nil => rfl
  | cons c cs ih =>
    unfold dottedRun
    split
    · exact congrArg (c :: ·) ih
    · rfl

/-- Words joined by dots start with a word character; that is all it takes. -/
theorem dottedWords_isSome {c : CodePoint} (hc : isWord c = true) (s : Text) :
    (dottedWords (c :: s)).isSome = true := by
  rw [dottedWords, if_pos hc]
  rfl

theorem dottedWords_matched {s : Text} {hit : Hit Text} (h : dottedWords s = some hit) :
    hit.matched ++ hit.rest = s ∧ ∃ c tail, isWord c = true ∧ hit.matched = c :: tail := by
  unfold dottedWords at h
  split at h
  · cases h
  · next c cs =>
    split at h
    · next hc =>
      cases h
      refine ⟨dottedRun_append (c :: cs), c, (dottedRun cs).1, hc, ?_⟩
      dsimp only
      rw [dottedRun, if_pos (by rw [hc]; rfl)]
    · cases h

/-! ## Searching -/

section Searching

variable {α : Type} {pattern : Pattern α} {s : Text} {f : Found α}

/-- What a search found before a text is put in front of the one that it looked through. -/
def Found.behind (lead : Text) (f : Found α) : Found α := { f with before := lead ++ f.before }

theorem Found.behind_behind (a b : Text) (f : Found α) :
    (f.behind b).behind a = f.behind (a ++ b) := by
  simp [Found.behind]

theorem search_cons_of_none {c : CodePoint} (h : pattern (c :: s) = none) :
    search pattern (c :: s) = (search pattern s).map (Found.behind [c]) := by
  rw [search, h]
  rfl

theorem search_cons_of_some {c : CodePoint} {hit : Hit α} (h : pattern (c :: s) = some hit) :
    search pattern (c :: s) = some ⟨[], hit.matched, hit.item, hit.rest⟩ := by
  rw [search, h]

/-- A search passes over a text at whose places the pattern does not match. -/
theorem search_skip {a b : Text}
    (quiet : ∀ a', a' <:+ a → a' ≠ [] → pattern (a' ++ b) = none) :
    search pattern (a ++ b) = (search pattern b).map (Found.behind a) := by
  induction a with
  | nil =>
    rw [List.nil_append]
    exact Option.map_id'.symm
  | cons c a ih =>
    have hhere := quiet (c :: a) List.suffix_rfl (List.cons_ne_nil c a)
    have hrest := ih fun a' ha' => quiet a' (ha'.trans (List.suffix_cons c a))
    rw [List.cons_append] at hhere ⊢
    rw [search_cons_of_none hhere, hrest, Option.map_map]
    exact Option.map_congr fun f _ => Found.behind_behind [c] a f

/-- A match that a search reports is one of the pattern. -/
theorem search_hit (h : search pattern s = some f) :
    ∃ s', pattern s' = some ⟨f.matched, f.item, f.after⟩ := by
  induction s generalizing f with
  | nil => cases h
  | cons c s ih =>
    unfold search at h
    split at h
    · next hit hp =>
      cases h
      exact ⟨_, hp⟩
    · obtain ⟨g, hg, rfl⟩ := Option.map_eq_some_iff.1 h
      obtain ⟨s', hs'⟩ := ih hg
      exact ⟨s', hs'⟩

/-- A pattern that splits the text that it reads, and that matches again what it once matched,
whatever follows. -/
structure Pattern.Steady (pattern : Pattern α) : Prop where
  /-- The match and what is behind it make up the text. -/
  split : ∀ {s hit}, pattern s = some hit → hit.matched ++ hit.rest = s
  /-- In front of any other text there is a match again. -/
  again : ∀ {s hit}, pattern s = some hit → ∀ z, (pattern (hit.matched ++ z)).isSome = true

/-- **Replacing what was found.**  The first occurrence of the text that a search found is where it
was found. -/
theorem replaceFirst_found (hp : pattern.Steady) (h : search pattern s = some f)
    (replacement : Text) :
    replaceFirst f.matched replacement s = f.before ++ replacement ++ f.after := by
  induction s generalizing f with
  | nil => cases h
  | cons c s ih =>
    cases hhere : pattern (c :: s) with
    | some hit =>
      rw [search_cons_of_some hhere] at h
      cases h
      have hprefix : hit.matched.isPrefixOf? (c :: s) = some hit.rest :=
        List.isPrefixOf?_eq_some_iff_append_eq.2 (hp.split hhere)
      rw [replaceFirst, hprefix]
      rfl
    | none =>
      rw [search_cons_of_none hhere] at h
      obtain ⟨g, hg, rfl⟩ := Option.map_eq_some_iff.1 h
      obtain ⟨s', hs'⟩ := search_hit hg
      -- An occurrence in front of the match would have been the match.
      have hprefix : g.matched.isPrefixOf? (c :: s) = none := by
        cases hpre : g.matched.isPrefixOf? (c :: s) with
        | none => rfl
        | some rest =>
          have hagain := hp.again hs' rest
          rw [List.isPrefixOf?_eq_some_iff_append_eq.1 hpre, hhere] at hagain
          cases hagain
      show replaceFirst g.matched replacement (c :: s) = _
      rw [replaceFirst, hprefix]
      exact congrArg (c :: ·) (ih hg)

end Searching

theorem callAt_steady : callAt.Steady where
  split h := by
    obtain ⟨name, args, rest, -, -, -, rfl, rfl⟩ := callAt_eq_some_iff.1 h
    simp [Text.ofString]
  again h z := by
    obtain ⟨name, args, rest, hne, hname, hargs, rfl, rfl⟩ := callAt_eq_some_iff.1 h
    have : callAt (name ++ "(" ++ args ++ ")" ++ z) = some ⟨_, (name, args), z⟩ :=
      callAt_eq_some_iff.2 ⟨name, args, z, hne, hname, hargs, by simp [Text.ofString], rfl⟩
    exact Option.isSome_of_eq_some this

theorem referenceAt_steady : referenceAt.Steady where
  split h := by
    unfold referenceAt at h
    split at h
    · next s =>
      obtain ⟨hit, hhit, rfl⟩ := Option.map_eq_some_iff.1 h
      refine congrArg (_ :: ·) ?_
      show hit.matched ++ hit.rest = s
      rcases Option.or_eq_some_iff.1 hhit with hp | ⟨-, hrest⟩
      · obtain ⟨body, rest, -, -, rfl, rfl⟩ := inParens_eq_some_iff.1 hp
        simp [Text.ofString]
      · rcases Option.or_eq_some_iff.1 hrest with hw | ⟨-, hb⟩
        · exact (dottedWords_matched hw).1
        · obtain ⟨body, rest, -, -, rfl, rfl⟩ := inBraces_eq_some_iff.1 hb
          simp [Text.ofString]
    · cases h
  again h z := by
    unfold referenceAt at h
    split at h
    · next s =>
      obtain ⟨hit, hhit, rfl⟩ := Option.map_eq_some_iff.1 h
      show (referenceAt (.char '$' :: (hit.matched ++ z))).isSome = true
      rw [referenceAt, Option.isSome_map, Option.isSome_or, Option.isSome_or]
      rcases Option.or_eq_some_iff.1 hhit with hp | ⟨-, hrest⟩
      · rw [Option.isSome_of_eq_some (inParens_again hp z), Bool.true_or]
      · rcases Option.or_eq_some_iff.1 hrest with hw | ⟨-, hb⟩
        · obtain ⟨-, c, tail, hc, htail⟩ := dottedWords_matched hw
          rw [htail, List.cons_append, dottedWords_isSome hc, Bool.true_or, Bool.or_true]
        · rw [Option.isSome_of_eq_some (inBraces_again hb z), Bool.or_true, Bool.or_true]
    · cases h

end Colourway.Syntax
