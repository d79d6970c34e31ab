import Colourway.Proofs.Syntax.Spelling

/-!
# Aliases written out

One reading of a value from the left finds its aliases (`AliasesIn`), and writing them out puts a
reference to the palette section in the place of each.  New aliases can come about: a dollar sign
that was kept before an alias goes with the reference that the alias became, and a name in brackets
may itself hold an alias.

* `occurs_append` — where a pattern occurs in a text that was put together.
* `occurs_written` — an alias occurs in what was written for an alias, and around it, for one of
  these two reasons only.
* **`expandAliases_complete_iff`** — so they are all written out at once, and nothing is left for a
  second time, exactly if neither is the case anywhere.
-/

namespace Colourway.Syntax

open Text

/-! ## Where a pattern occurs -/

section Occurs

variable {α : Type} {pattern : Pattern α}

theorem occurs_nil : occurs pattern [] = false := rfl

theorem occurs_cons (c : CodePoint) (s : Text) :
    occurs pattern (c :: s) = ((pattern (c :: s)).isSome || occurs pattern s) := by
  unfold occurs
  cases h : pattern (c :: s) with
  | some hit => rw [search_cons_of_some h]; rfl
  | none => rw [search_cons_of_none h, Option.isSome_map]; rfl

/-- A pattern matches from within the first part of a text, or it occurs in the second. -/
theorem occurs_append {a b : Text} :
    occurs pattern (a ++ b) = true ↔
      (∃ a', a' <:+ a ∧ a' ≠ [] ∧ (pattern (a' ++ b)).isSome = true) ∨
        occurs pattern b = true := by
  induction a with
  | nil =>
    constructor
    · exact Or.inr
    · rintro (⟨a', hsuffix, hne, -⟩ | h)
      · exact absurd (List.suffix_nil.mp hsuffix) hne
      · exact h
  | cons c a ih =>
    rw [List.cons_append, occurs_cons, Bool.or_eq_true, ih]
    constructor
    · rintro (h | ⟨a', hsuffix, hne, h⟩ | h)
      · exact .inl ⟨c :: a, List.suffix_rfl, List.cons_ne_nil c a, h⟩
      · exact .inl ⟨a', hsuffix.trans (List.suffix_cons c a), hne, h⟩
      · exact .inr h
    · rintro (⟨a', hsuffix, hne, h⟩ | h)
      · rcases List.suffix_cons_iff.mp hsuffix with rfl | hsuffix
        · exact .inl h
        · exact .inr (.inl ⟨a', hsuffix, hne, h⟩)
      · exact .inr (.inr h)

/-- Before the leftmost match there is none. -/
theorem search_quiet {s : Text} {f : Found α} (h : search pattern s = some f) :
    ∃ hit, pattern hit = some ⟨f.matched, f.item, f.after⟩ ∧ s = f.before ++ hit ∧
      ∀ a', a' <:+ f.before → a' ≠ [] → pattern (a' ++ hit) = none := by
  induction s generalizing f with
  | nil => cases h
  | cons c s ih =>
    cases hhere : pattern (c :: s) with
    | some hit =>
      rw [search_cons_of_some hhere] at h
      cases h
      exact ⟨c :: s, hhere, rfl, fun a' hsuffix hne => absurd (List.suffix_nil.mp hsuffix) hne⟩
    | none =>
      rw [search_cons_of_none hhere] at h
      obtain ⟨g, hg, rfl⟩ := Option.map_eq_some_iff.mp h
      obtain ⟨hit, hhit, rfl, hquiet⟩ := ih hg
      refine ⟨hit, hhit, rfl, fun a' hsuffix hne => ?_⟩
      rcases List.suffix_cons_iff.mp hsuffix with rfl | hsuffix
      · exact hhere
      · exact hquiet a' hsuffix hne

end Occurs

/-! ## What an alias looks like -/

theorem isSome_dottedWords (s : Text) : (dottedWords s).isSome = s.head?.any isWord := by
  cases s with
  | nil => rfl
  | cons c s =>
    cases hc : isWord c with
    | true => simp [dottedWords_isSome hc, hc]
    | false => simp [dottedWords, hc]

theorem isSome_inParens_iff {s : Text} : (inParens s).isSome = true ↔
    ∃ body rest, body ≠ [] ∧ (∀ c ∈ body, isParen c = false) ∧
      s = .char '(' :: (body ++ .char ')' :: rest) := by
  simp only [Option.isSome_iff_exists, inParens_eq_some_iff]
  constructor
  · rintro ⟨hit, body, rest, hne, hbody, hs, -⟩
    exact ⟨body, rest, hne, hbody, hs⟩
  · rintro ⟨body, rest, hne, hbody, hs⟩
    exact ⟨_, body, rest, hne, hbody, hs, rfl⟩

theorem isSome_inBraces_iff {s : Text} : (inBraces s).isSome = true ↔
    ∃ body rest, body ≠ [] ∧ (∀ c ∈ body, isBracket c = false) ∧
      s = .char '\x7b' :: (body ++ .char '\x7d' :: rest) := by
  simp only [Option.isSome_iff_exists, inBraces_eq_some_iff]
  constructor
  · rintro ⟨hit, body, rest, hne, hbody, hs, -⟩
    exact ⟨body, rest, hne, hbody, hs⟩
  · rintro ⟨body, rest, hne, hbody, hs⟩
    exact ⟨_, body, rest, hne, hbody, hs, rfl⟩

/-- Two dollar signs and a name in one of the three spellings. -/
theorem isSome_aliasAt_iff {s : Text} : (aliasAt s).isSome = true ↔
    ∃ t, s = .char '$' :: .char '$' :: t ∧ ((inParens t).isSome = true ∨
      (inBraces t).isSome = true ∨ t.head?.any isWord = true) := by
  constructor
  · intro h
    unfold aliasAt at h
    split at h
    · next t =>
      refine ⟨t, rfl, ?_⟩
      simpa [Option.isSome_or, isSome_dottedWords] using h
    · cases h
  · rintro ⟨t, rfl, h⟩
    simpa [aliasAt, Option.isSome_or, isSome_dottedWords] using h

theorem aliasAt_steady : aliasAt.Steady where
  split h := by
    unfold aliasAt at h
    split at h
    · next t =>
      obtain ⟨hit, hhit, rfl⟩ := Option.map_eq_some_iff.mp h
      refine congrArg (_ :: _ :: ·) ?_
      show hit.matched ++ hit.rest = t
      rcases Option.or_eq_some_iff.mp hhit with hp | ⟨-, hrest⟩
      · obtain ⟨body, rest, -, -, rfl, rfl⟩ := inParens_eq_some_iff.mp hp
        simp [Text.ofString]
      · rcases Option.or_eq_some_iff.mp hrest with hb | ⟨-, hw⟩
        · obtain ⟨body, rest, -, -, rfl, rfl⟩ := inBraces_eq_some_iff.mp hb
          simp [Text.ofString]
        · exact (dottedWords_matched hw).1
    · cases h
  again h z := by
    unfold aliasAt at h
    split at h
    · next t =>
      obtain ⟨hit, hhit, rfl⟩ := Option.map_eq_some_iff.mp h
      refine isSome_aliasAt_iff.mpr ⟨hit.matched ++ z, rfl, ?_⟩
      rcases Option.or_eq_some_iff.mp hhit with hp | ⟨-, hrest⟩
      · exact .inl (Option.isSome_of_eq_some (inParens_again hp z))
      · rcases Option.or_eq_some_iff.mp hrest with hb | ⟨-, hw⟩
        · exact .inr (.inl (Option.isSome_of_eq_some (inBraces_again hb z)))
        · obtain ⟨-, c, tail, hc, htail⟩ := dottedWords_matched hw
          rw [htail]
          exact .inr (.inr hc)
    · cases h

/-- A bracket that is closed before the first other bracket behind a text is closed in the text. -/
theorem closes_inside (stop : CodePoint → Bool) (lead : Text) {close x : CodePoint}
    (hclose : stop close = true) (hx : stop x = true) (hne : x ≠ close)
    (hlead : ∀ c ∈ lead, stop c = false) {a body w rest : Text} (hbody : ∀ c ∈ body, stop c = false)
    (h : a ++ (lead ++ x :: w) = body ++ close :: rest) : ∃ rest', a = body ++ close :: rest' := by
  induction a generalizing body with
  | nil => exact absurd (run_unique stop hlead hx hbody hclose h).2.1 hne
  | cons c a ih =>
    cases body with
    | nil => exact ⟨a, congrArg (· :: a) (List.cons.inj h).1⟩
    | cons d body =>
      obtain ⟨rfl, htail⟩ := List.cons.inj h
      obtain ⟨rest', rfl⟩ := ih (List.forall_mem_cons.mp hbody).2 htail
      exact ⟨rest', rfl⟩

/-- Round brackets that open before a reference close before it, or not at all. -/
theorem inParens_before_reference {a z : Text}
    (h : (inParens (a ++ .char '$' :: .char '(' :: z)).isSome = true) (y : Text) :
    (inParens (a ++ y)).isSome = true := by
  obtain ⟨body, rest, hne, hbody, heq⟩ := isSome_inParens_iff.mp h
  cases a with
  | nil => cases heq
  | cons c a =>
    obtain ⟨hc, heq⟩ := List.cons.inj heq
    obtain ⟨rest', rfl⟩ := closes_inside isParen [.char '$']
      rfl rfl (by decide) (by decide) hbody heq
    exact isSome_inParens_iff.mpr ⟨body, rest' ++ y, hne, hbody, by simp [hc]⟩

/-- Curly brackets that open before a round one close before it, or not at all. -/
theorem inBraces_before_paren (lead : Text) (hlead : ∀ c ∈ lead, isBracket c = false)
    {x : CodePoint} (hx : isParen x = true) {a w : Text}
    (h : (inBraces (a ++ (lead ++ x :: w))).isSome = true) (y : Text) :
    (inBraces (a ++ y)).isSome = true := by
  have hbrace : ∀ {c}, isParen c = true → c ≠ .char '\x7b' ∧ c ≠ .char '\x7d' := by
    intro c hc
    constructor
    all_goals
      rintro rfl
      exact absurd hc (by decide)
  have hstop : isBracket x = true := by simp [isBracket, hx]
  obtain ⟨body, rest, hne, hbody, heq⟩ := isSome_inBraces_iff.mp h
  cases a with
  | nil =>
    cases lead with
    | nil => exact absurd (List.cons.inj heq).1 (hbrace hx).1
    | cons c lead =>
      obtain ⟨rfl, -⟩ := List.cons.inj heq
      exact absurd (hlead (.char '\x7b') List.mem_cons_self) (by decide)
  | cons c a =>
    obtain ⟨hc, heq⟩ := List.cons.inj heq
    obtain ⟨rest', rfl⟩ := closes_inside isBracket lead rfl hstop (hbrace hx).2 hlead hbody heq
    exact isSome_inBraces_iff.mpr ⟨body, rest' ++ y, hne, hbody, by simp [hc]⟩

/-- An alias that starts before the place of a reference, and not with the last dollar sign there,
ends before it: it is there whatever follows. -/
theorem aliasAt_before_reference {a z : Text} (hne : a ≠ []) (hlone : a ≠ [.char '$'])
    (h : (aliasAt (a ++ .char '$' :: .char '(' :: z)).isSome = true) (y : Text) :
    (aliasAt (a ++ y)).isSome = true := by
  obtain ⟨t, ht, hname⟩ := isSome_aliasAt_iff.mp h
  rcases a with - | ⟨c, - | ⟨d, a⟩⟩
  · exact absurd rfl hne
  · exact absurd (congrArg (· :: []) (List.cons.inj ht).1) hlone
  · simp only [List.cons_append, List.cons.injEq] at ht
    obtain ⟨rfl, rfl, rfl⟩ := ht
    refine isSome_aliasAt_iff.mpr ⟨a ++ y, rfl, ?_⟩
    rcases hname with hparens | hbraces | hword
    · exact .inl (inParens_before_reference hparens y)
    · exact .inr (.inl (inBraces_before_paren [.char '$'] (by decide) rfl hbraces y))
    · cases a with
      | nil =>
        have hdollar : isWord (.char '$') = false := isWord_mark (by decide)
        rw [List.nil_append, List.head?_cons, Option.any_some, hdollar] at hword
        cases hword
      | cons e a => exact .inr (.inr hword)

/-- In a name without round brackets, an alias is there whether or not the name is closed. -/
theorem isSome_aliasAt_closed {a : Text} (hfree : ∀ c ∈ a, isParen c = false) (hne : a ≠ [])
    (z : Text) : (aliasAt (a ++ .char ')' :: z)).isSome = true ↔ (aliasAt a).isSome = true := by
  constructor
  · intro h
    obtain ⟨t, ht, hname⟩ := isSome_aliasAt_iff.mp h
    rcases a with - | ⟨c, - | ⟨d, a⟩⟩
    · exact absurd rfl hne
    · cases (List.cons.inj ht).2
    · simp only [List.cons_append, List.cons.injEq] at ht
      obtain ⟨rfl, rfl, rfl⟩ := ht
      refine isSome_aliasAt_iff.mpr ⟨a, rfl, ?_⟩
      rcases hname with hparens | hbraces | hword
      · obtain ⟨_, _, -, -, heq⟩ := isSome_inParens_iff.mp hparens
        cases a with
        | nil => cases heq
        | cons e a =>
          obtain ⟨rfl, -⟩ := List.cons.inj heq
          cases hfree (.char '(') (by simp)
      · have hbefore := inBraces_before_paren [] (by simp) rfl hbraces []
        rw [List.append_nil] at hbefore
        exact .inr (.inl hbefore)
      · cases a with
        | nil =>
          have hclose : isWord (.char ')') = false := isWord_mark (by decide)
          rw [List.nil_append, List.head?_cons, Option.any_some, hclose] at hword
          cases hword
        | cons e a => exact .inr (.inr hword)
  · intro h
    obtain ⟨hit, hhit⟩ := Option.isSome_iff_exists.mp h
    have hagain := aliasAt_steady.again hhit (hit.rest ++ .char ')' :: z)
    rwa [← List.append_assoc, aliasAt_steady.split hhit] at hagain

/-! ## What is written for an alias -/

theorem aliasAt_of_single {c : CodePoint} (h : c ≠ .char '$') (d : CodePoint) (s : Text) :
    aliasAt (d :: c :: s) = none := by
  unfold aliasAt
  split
  · next heq => exact absurd (List.cons.inj (List.cons.inj heq).2).1 h
  · rfl

/-- An alias occurs in a name and behind it, and nowhere else, once the name is closed. -/
theorem occurs_closed {name : Text} (hname : ∀ c ∈ name, isParen c = false) (rest : Text) :
    occurs aliasAt (name ++ .char ')' :: rest) = true ↔
      occurs aliasAt name = true ∨ occurs aliasAt rest = true := by
  have hin : occurs aliasAt name = true ↔
      ∃ a, a <:+ name ∧ a ≠ [] ∧ (aliasAt a).isSome = true := by
    have h : occurs aliasAt (name ++ []) = true ↔ _ := occurs_append
    simpa [occurs_nil] using h
  have hclose : aliasAt (.char ')' :: rest) = none := Expr.aliasAt_of_ne (by decide) rest
  rw [occurs_append, occurs_cons, hclose, hin, Option.isSome_none, Bool.false_or]
  refine or_congr_left (exists_congr fun a => and_congr_right fun hsuffix => ?_)
  refine and_congr_right fun hne => ?_
  exact isSome_aliasAt_closed (fun c hc => hname c (hsuffix.subset hc)) hne rest

section Written

variable {palette : Text} (hpalette : ∀ c ∈ palette, isWord c = true ∨ c = .char '.')

include hpalette

/-- In a reference to the palette section, and behind it, an alias occurs in the name or behind the
reference. -/
theorem occurs_paletteReference {name : Text} (hname : ∀ c ∈ name, isParen c = false)
    (rest : Text) : occurs aliasAt (paletteReference palette name ++ rest) = true ↔
      occurs aliasAt (trim name) = true ∨ occurs aliasAt rest = true := by
  have hshape : paletteReference palette name ++ rest =
      .char '$' :: .char '(' :: ((palette ++ [.char '.']) ++ (trim name ++ .char ')' :: rest)) := by
    simp [paletteReference_append]
  have hlead : ∀ c ∈ palette ++ [.char '.'], c ≠ .char '$' := by
    intro c hc
    rcases List.mem_append.mp hc with hc | hc
    · exact (not_bracket_of_word (hpalette c hc)).2
    · rw [List.mem_singleton.mp hc]
      decide
  have hskip : ¬ ∃ a, a <:+ palette ++ [.char '.'] ∧ a ≠ [] ∧
      (aliasAt (a ++ (trim name ++ .char ')' :: rest))).isSome = true := by
    rintro ⟨a, hsuffix, hne, h⟩
    cases a with
    | nil => exact hne rfl
    | cons c a =>
      rw [List.cons_append, Expr.aliasAt_of_ne (hlead c (hsuffix.subset List.mem_cons_self))] at h
      cases h
  have htrim : ∀ c ∈ trim name, isParen c = false := fun c hc => hname c (mem_of_mem_trim hc)
  rw [hshape, occurs_cons, occurs_cons, aliasAt_of_single (by decide),
    Expr.aliasAt_of_ne (by decide), Option.isSome_none, Bool.false_or, Bool.false_or,
    occurs_append, or_iff_right hskip, occurs_closed htrim]

/-- **Where aliases occur in what was written.**  In front of the reference there is none but the
one that the last dollar sign makes of it. -/
theorem occurs_written {before hit name : Text} (hname : ∀ c ∈ name, isParen c = false)
    (quiet : ∀ a, a <:+ before → a ≠ [] → aliasAt (a ++ hit) = none) (rest : Text) :
    occurs aliasAt (before ++ (paletteReference palette name ++ rest)) = true ↔
      before.getLast? = some (.char '$') ∨ occurs aliasAt (trim name) = true ∨
        occurs aliasAt rest = true := by
  have hpaletteParen : ∀ c ∈ palette, isParen c = false := by
    intro c hc
    have hbracket := (not_bracket_of_word (hpalette c hc)).1
    simp only [isBracket, Bool.or_eq_false_iff] at hbracket
    exact hbracket.1.1
  have hbody := not_paren_paletteName hpaletteParen hname
  rw [occurs_append, occurs_paletteReference hpalette hname]
  refine or_congr_left ?_
  constructor
  · rintro ⟨a, hsuffix, hne, h⟩
    by_cases hlone : a = [.char '$']
    · obtain ⟨lead, rfl⟩ := hsuffix
      rw [hlone]
      exact List.getLast?_concat
    · rw [paletteReference_append] at h
      have hthere := aliasAt_before_reference hne hlone h hit
      rw [quiet a hsuffix hne] at hthere
      cases hthere
  · intro hlast
    obtain ⟨lead, rfl⟩ := List.getLast?_eq_some_iff.mp hlast
    refine ⟨[.char '$'], List.suffix_append lead _, by decide, isSome_aliasAt_iff.mpr ?_⟩
    rw [paletteReference_append]
    exact ⟨_, rfl, .inl (isSome_inParens_iff.mpr ⟨_, rest, by simp, hbody, rfl⟩)⟩

end Written

/-! ## The aliases of a value -/

/-- An alias where it stands in a value. -/
structure Alias where
  /-- The text in front of it, back to the alias before. -/
  before : Text
  /-- The text of the alias. -/
  matched : Text
  /-- The name in it. -/
  name : Text

/-- The aliases that are found from the left, each behind the one before, and the text that is left
behind the last. -/
inductive AliasesIn : Text → List Alias → Text → Prop
  /-- There is no alias. -/
  | none {s : Text} (none : search aliasAt s = none) : AliasesIn s [] s
  /-- Behind the first alias are the others. -/
  | first {s : Text} {f : Found Text} {found : List Alias} {tail : Text}
      (first : search aliasAt s = some f) (behind : AliasesIn f.after found tail) :
      AliasesIn s (⟨f.before, f.matched, f.item⟩ :: found) tail

theorem length_after_lt {s : Text} {f : Found Text} (h : search aliasAt s = some f) :
    f.after.length < s.length := by
  obtain ⟨hit, hhit, rfl, -⟩ := search_quiet h
  have hlt := aliasAt_rest_lt hhit
  rw [List.length_append]
  exact Nat.lt_of_lt_of_le hlt (Nat.le_add_left _ _)

theorem exists_aliasesIn (s : Text) : ∃ found tail, AliasesIn s found tail := by
  induction hn : s.length using Nat.strong_induction_on generalizing s with
  | _ n ih =>
    cases hsearch : search aliasAt s with
    | none => exact ⟨[], s, .none hsearch⟩
    | some f =>
      have hlt : f.after.length < n := hn ▸ length_after_lt hsearch
      obtain ⟨found, tail, hrest⟩ := ih _ hlt f.after rfl
      exact ⟨_, tail, .first hsearch hrest⟩

theorem expandAliases_of_none {palette s : Text} (h : search aliasAt s = none) :
    expandAliases palette s = s := by
  induction s with
  | nil => exact expandAliases_nil palette
  | cons c s ih =>
    cases hhere : aliasAt (c :: s) with
    | some hit =>
      rw [search_cons_of_some hhere] at h
      cases h
    | none =>
      rw [search_cons_of_none hhere, Option.map_eq_none_iff] at h
      rw [Expr.expandAliases_cons hhere, ih h]

/-- Up to the first alias a value is kept, and behind it writing out goes on. -/
theorem expandAliases_of_some {palette s : Text} {f : Found Text} (h : search aliasAt s = some f) :
    expandAliases palette s =
      f.before ++ (paletteReference palette f.item ++ expandAliases palette f.after) := by
  induction s generalizing f with
  | nil => cases h
  | cons c s ih =>
    cases hhere : aliasAt (c :: s) with
    | some hit =>
      rw [search_cons_of_some hhere] at h
      cases h
      rw [expandAliases]
      split
      · next hit' hhit =>
        rw [hhere] at hhit
        cases hhit
        rfl
      · next hnone =>
        rw [hhere] at hnone
        cases hnone
    | none =>
      rw [search_cons_of_none hhere] at h
      obtain ⟨g, hg, rfl⟩ := Option.map_eq_some_iff.mp h
      rw [Expr.expandAliases_cons hhere, ih hg]
      rfl

/-- Writing out changes every value that holds an alias. -/
theorem expandAliases_eq_self_iff {palette s : Text} :
    expandAliases palette s = s ↔ occurs aliasAt s = false := by
  rw [occurs, Option.isSome_eq_false_iff, Option.isNone_iff_eq_none]
  constructor
  · intro h
    cases hsearch : search aliasAt s with
    | none => rfl
    | some f =>
      exfalso
      obtain ⟨hit, hhit, hs, -⟩ := search_quiet hsearch
      obtain ⟨t, ht, -⟩ := isSome_aliasAt_iff.mp (Option.isSome_of_eq_some hhit)
      rw [expandAliases_of_some hsearch, hs, ht, paletteReference_append] at h
      have hsecond := List.append_cancel_left h
      simp at hsecond
  · exact expandAliases_of_none

section Whole

variable {palette : Text} (hpalette : ∀ c ∈ palette, isWord c = true ∨ c = .char '.')

/-- What stands around the aliases stays where it is, and each alias becomes a reference. -/
theorem AliasesIn.written (palette : Text) {s tail : Text} {found : List Alias}
    (h : AliasesIn s found tail) :
    s = found.flatMap (fun a => a.before ++ a.matched) ++ tail ∧
      expandAliases palette s =
        found.flatMap (fun a => a.before ++ paletteReference palette a.name) ++ tail := by
  induction h with
  | none hnone => exact ⟨rfl, expandAliases_of_none hnone⟩
  | first hfirst _ ih =>
    obtain ⟨hsource, hwritten⟩ := ih
    obtain ⟨hit, hhit, hs, -⟩ := search_quiet hfirst
    constructor
    · rw [hs, ← aliasAt_steady.split hhit, List.flatMap_cons, List.append_assoc, List.append_assoc]
      exact congrArg _ (congrArg _ hsource)
    · rw [expandAliases_of_some hfirst, hwritten, List.flatMap_cons]
      simp

include hpalette in
/-- Whether an alias occurs in what was written is told by the aliases alone. -/
theorem AliasesIn.occurs_written_iff {s tail : Text} {found : List Alias}
    (h : AliasesIn s found tail) : occurs aliasAt (expandAliases palette s) = true ↔
      ∃ a ∈ found, a.before.getLast? = some (.char '$') ∨ occurs aliasAt (trim a.name) = true := by
  induction h with
  | none hnone =>
    rw [expandAliases_of_none hnone, occurs, hnone]
    simp
  | first hfirst _ ih =>
    obtain ⟨hit, hhit, -, quiet⟩ := search_quiet hfirst
    rw [expandAliases_of_some hfirst,
      occurs_written hpalette (not_paren_of_aliasAt hhit) quiet, ih, ← or_assoc]
    simp

include hpalette in
/-- **When aliases are written out once and for all.**  What is no alias is kept verbatim and in
order.  No alias is left, and writing out again changes nothing, exactly if no alias stands behind a
dollar sign that is kept and no name of an alias holds an alias. -/
theorem expandAliases_complete_iff (s : Text) : ∃ found tail, AliasesIn s found tail ∧
    s = found.flatMap (fun a => a.before ++ a.matched) ++ tail ∧
    expandAliases palette s =
      found.flatMap (fun a => a.before ++ paletteReference palette a.name) ++ tail ∧
    (occurs aliasAt (expandAliases palette s) = false ↔ ∀ a ∈ found,
      a.before.getLast? ≠ some (.char '$') ∧ occurs aliasAt (trim a.name) = false) ∧
    (expandAliases palette (expandAliases palette s) = expandAliases palette s ↔
      occurs aliasAt (expandAliases palette s) = false) := by
  obtain ⟨found, tail, h⟩ := exists_aliasesIn s
  obtain ⟨hsource, hwritten⟩ := h.written palette
  refine ⟨found, tail, h, hsource, hwritten, ?_, expandAliases_eq_self_iff⟩
  rw [← Bool.not_eq_true, h.occurs_written_iff hpalette]
  simp

end Whole

/-- Two spellings of an alias in a call are written out once and for all. -/
theorem call_of_aliases_complete :
    (∀ c ∈ ("palette" : Text), isWord c = true ∨ c = .char '.') ∧
      expandAliases "palette" "mix($$\x7bred\x7d, $$( blue ), 50)" =
        "mix($(palette.red), $(palette.blue), 50)" ∧
      occurs aliasAt "mix($(palette.red), $(palette.blue), 50)" = false ∧
      expandAliases "palette" "mix($(palette.red), $(palette.blue), 50)" =
        "mix($(palette.red), $(palette.blue), 50)" := by
  have hpalette : ∀ c ∈ ("palette" : Text), isWord c = true ∨ c = .char '.' := by decide +kernel
  have hwritten : expandAliases "palette" "mix($$\x7bred\x7d, $$( blue ), 50)" =
      "mix($(palette.red), $(palette.blue), 50)" := by decide +kernel
  obtain ⟨-, -, -, -, -, -, hagain⟩ :=
    expandAliases_complete_iff hpalette "mix($$\x7bred\x7d, $$( blue ), 50)"
  rw [hwritten] at hagain
  have hfree : occurs aliasAt "mix($(palette.red), $(palette.blue), 50)" = false := by
    decide +kernel
  exact ⟨hpalette, hwritten, hfree, hagain.mpr hfree⟩

/-- A dollar sign that is kept makes an alias of the reference behind it. -/
theorem kept_dollar_leaves_alias :
    expandAliases "palette" "$$$(a)" = "$$(palette.a)" ∧
      occurs aliasAt (expandAliases "palette" "$$$(a)") = true ∧
      expandAliases "palette" (expandAliases "palette" "$$$(a)") ≠
        expandAliases "palette" "$$$(a)" := by
  have hwritten : expandAliases "palette" "$$$(a)" = "$$(palette.a)" := by decide +kernel
  have hleft : occurs aliasAt "$$(palette.a)" = true := by decide +kernel
  rw [hwritten]
  refine ⟨rfl, hleft, fun h => ?_⟩
  rw [expandAliases_eq_self_iff.mp h] at hleft
  cases hleft

end Colourway.Syntax
