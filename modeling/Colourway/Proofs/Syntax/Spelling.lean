import Colourway.Proofs.Syntax.Tidy
import Colourway.Proofs.Text.Trimmed

/-!
# The spellings of a reference

* `Spelling` — the three ways to write a reference; `IsDotted` — the paths that all of them can
  write.
* `Spelling.referenceAt_write` — each of them is read as the path, and `expandAliases_write` — none
  as an alias.
* **`Spelling.alike`** — they are alike.
-/

namespace Colourway.Syntax

open Text

/-- The ways to write a reference. -/
inductive Spelling where
  /-- In round brackets. -/
  | parens
  /-- With nothing around the path. -/
  | bare
  /-- In curly brackets. -/
  | braces
  deriving DecidableEq

/-- The reference to a path. -/
def Spelling.write : Spelling → Text → Text
  | parens, p => "$(" ++ p ++ ")"
  | bare, p => "$" ++ p
  | braces, p => "$\x7b" ++ p ++ "\x7d"

/-! ## Dotted words -/

/-- Words with dots between them. -/
def IsDotted (p : Text) : Prop :=
  ∃ words : List Text, words ≠ [] ∧ (∀ w ∈ words, w ≠ [] ∧ ∀ c ∈ w, isWord c = true) ∧
    p = Text.join "." words

/-- A run of words goes on behind a word. -/
theorem dottedRun_word {w : Text} (hw : ∀ c ∈ w, isWord c = true) (s : Text) :
    dottedRun (w ++ s) = (w ++ (dottedRun s).1, (dottedRun s).2) := by
  induction w with
  | nil => rfl
  | cons c w ih =>
    have hc := hw c List.mem_cons_self
    rw [List.cons_append, dottedRun, if_pos (by rw [hc]; rfl),
      ih fun d hd => hw d (List.mem_cons_of_mem _ hd)]
    rfl

theorem not_bracket_of_word {c : CodePoint} (hc : isWord c = true ∨ c = .char '.') :
    isBracket c = false ∧ c ≠ .char '$' := by
  have hmarks : ∀ d ∈ Text.ofString "$()\x7b\x7d", isWord d = false ∧ d ≠ .char '.' := by
    decide +kernel
  have hne : ∀ d ∈ Text.ofString "$()\x7b\x7d", c ≠ d := by
    rintro d hd rfl
    obtain ⟨hword, hdot⟩ := hmarks _ hd
    rcases hc with hc | hc
    · rw [hword] at hc
      cases hc
    · exact hdot hc
  refine ⟨?_, hne _ (by decide)⟩
  simp only [isBracket, isParen, Bool.or_eq_false_iff, beq_eq_false_iff_ne]
  exact ⟨⟨⟨hne _ (by decide), hne _ (by decide)⟩, hne _ (by decide)⟩, hne _ (by decide)⟩

namespace IsDotted

variable {p : Text}

theorem of_word (hne : p ≠ []) (h : ∀ c ∈ p, isWord c = true) : IsDotted p := by
  refine ⟨[p], List.cons_ne_nil _ _, ?_, by simp [Text.join]⟩
  intro w hw
  rw [List.mem_singleton.1 hw]
  exact ⟨hne, h⟩

/-- Dotted words are read as one run, and start with a word. -/
theorem run (h : IsDotted p) : dottedRun p = (p, []) ∧ p.head?.any isWord = true := by
  obtain ⟨words, hne, hwords, rfl⟩ := h
  induction words with
  | nil => exact absurd rfl hne
  | cons w words ih =>
    obtain ⟨hw, hchars⟩ := hwords w List.mem_cons_self
    have hhead : ∀ s : Text, (w ++ s).head?.any isWord = true := by
      intro s
      cases w with
      | nil => exact absurd rfl hw
      | cons c w => exact hchars c List.mem_cons_self
    cases words with
    | nil =>
      have hjoin : Text.join "." [w] = w ++ [] := by simp [Text.join]
      rw [hjoin, dottedRun_word hchars]
      exact ⟨rfl, hhead []⟩
    | cons w' words =>
      obtain ⟨hrun, hfirst⟩ := ih (List.cons_ne_nil _ _) fun v hv =>
        hwords v (List.mem_cons_of_mem _ hv)
      have hjoin : Text.join "." (w :: w' :: words) =
          w ++ .char '.' :: Text.join "." (w' :: words) := by
        simp [Text.join, Text.ofString, List.intercalate_cons_cons]
      have hdot : dottedRun (.char '.' :: Text.join "." (w' :: words)) =
          (.char '.' :: Text.join "." (w' :: words), []) := by
        rw [dottedRun, if_pos (by rw [hfirst]; simp), hrun]
      rw [hjoin, dottedRun_word hchars, hdot]
      exact ⟨rfl, hhead _⟩

theorem mem (h : IsDotted p) {c : CodePoint} (hc : c ∈ p) :
    isBracket c = false ∧ c ≠ .char '$' := by
  obtain ⟨words, -, hwords, rfl⟩ := h
  refine not_bracket_of_word ?_
  induction words with
  | nil => cases hc
  | cons w words ih =>
    have hw := (hwords w List.mem_cons_self).2
    cases words with
    | nil =>
      have hc' : c ∈ w := by simpa [Text.join] using hc
      exact Or.inl (hw c hc')
    | cons w' words =>
      have hcases : c ∈ w ∨ c = .char '.' ∨ c ∈ Text.join "." (w' :: words) := by
        simpa [Text.join, Text.ofString, List.intercalate_cons_cons] using hc
      rcases hcases with hc | hc | hc
      · exact Or.inl (hw c hc)
      · exact Or.inr hc
      · exact ih (fun v hv => hwords v (List.mem_cons_of_mem _ hv)) hc

theorem not_paren (h : IsDotted p) : ∀ c ∈ p, isParen c = false := by
  intro c hc
  have hbracket := (h.mem hc).1
  simp only [isBracket, Bool.or_eq_false_iff] at hbracket
  exact hbracket.1.1

theorem ne_nil (h : IsDotted p) : p ≠ [] := by
  rintro rfl
  exact absurd h.run.2 (by decide)

end IsDotted

/-! ## Reading what was written -/

theorem expandAliases_nil (palette : Text) : expandAliases palette [] = [] := by
  rw [expandAliases]
  rfl

namespace Spelling

variable {p : Text}

theorem inParens_write (hp : IsDotted p) :
    inParens ("(" ++ p ++ ")") = some ⟨"(" ++ p ++ ")", p, []⟩ :=
  inParens_eq_some_iff.2 ⟨p, [], hp.ne_nil, hp.not_paren, rfl, rfl⟩

theorem inBraces_write (hp : IsDotted p) :
    inBraces ("\x7b" ++ p ++ "\x7d") = some ⟨"\x7b" ++ p ++ "\x7d", p, []⟩ :=
  inBraces_eq_some_iff.2 ⟨p, [], hp.ne_nil, fun _ hc => (hp.mem hc).1, rfl, rfl⟩

/-- Each spelling is read as the path. -/
theorem referenceAt_write (σ : Spelling) (hp : IsDotted p) :
    referenceAt (σ.write p) = some ⟨σ.write p, p, []⟩ := by
  cases σ with
  | parens => exact referenceAt_of_parens (inParens_write hp)
  | bare =>
    obtain ⟨hrun, hfirst⟩ := hp.run
    cases p with
    | nil => exact absurd rfl hp.ne_nil
    | cons c s =>
      have hwords : dottedWords (c :: s) = some ⟨c :: s, c :: s, []⟩ := by
        rw [dottedWords, if_pos (show isWord c = true from hfirst), hrun]
      exact referenceAt_of_words hwords
  | braces => exact referenceAt_of_braces (inBraces_write hp)

/-- A spelling with brackets is read the same whatever follows it. -/
theorem alone (σ : Spelling) (hσ : σ ≠ bare) (hp : IsDotted p) : Hit.Alone ⟨σ.write p, p, []⟩ := by
  intro b
  cases σ with
  | parens => exact referenceAt_of_parens (inParens_again (inParens_write hp) b)
  | bare => exact absurd rfl hσ
  | braces => exact referenceAt_of_braces (inBraces_again (inBraces_write hp) b)

section Alike

variable {isSealed : Text → Prop} {free : Prop}

/-- A reference in front of a tidy text that cuts it off leaves the text tidy. -/
theorem tidy_append (σ : Spelling) (hp : IsDotted p) {s : Text} (hs : CutOff free s)
    (h : Tidy isSealed free s) : Tidy isSealed free (σ.write p ++ s) :=
  .reference (referenceAt_again (σ.referenceAt_write hp) hs.endsPath) (Or.inr hs) h

/-- So does a bracketed reference to a sealed path in front of any tidy text. -/
theorem tidy_append_sealed (σ : Spelling) (hσ : σ ≠ bare) (hp : IsDotted p)
    (hseal : isSealed (trim p)) {s : Text} (h : Tidy isSealed free s) :
    Tidy isSealed free (σ.write p ++ s) :=
  .reference (σ.alone hσ hp s) (Or.inl ⟨hseal, σ.alone hσ hp⟩) h

/-- **The spellings of a reference are alike.** -/
theorem alike (σ τ : Spelling) (hp : IsDotted p) (hfree : ¬ free) :
    Alike isSealed free [trim p] (σ.write p) (τ.write p) :=
  .reference (σ.referenceAt_write hp) (τ.referenceAt_write hp) rfl
    (Or.inr (.of_endsPath endsPath_nil hfree)) (Or.inr (.of_endsPath endsPath_nil hfree)) .nil

end Alike

/-- No spelling of a reference is one of an alias. -/
theorem expandAliases_write (palette : Text) (σ : Spelling) (hp : IsDotted p) :
    expandAliases palette (σ.write p) = σ.write p := by
  obtain ⟨c, s, hwrite, hc⟩ : ∃ c s, σ.write p = .char '$' :: c :: s ∧
      ∀ d ∈ c :: s, d ≠ .char '$' := by
    have hdollar : ∀ d ∈ p, d ≠ .char '$' := fun d hd => (hp.mem hd).2
    have hquoted : ∀ {o e : CodePoint}, o ≠ .char '$' → e ≠ .char '$' →
        ∀ d ∈ o :: (p ++ [e]), d ≠ .char '$' := by
      intro o e ho he d hd
      rcases List.mem_cons.1 hd with rfl | hd
      · exact ho
      · rcases List.mem_append.1 hd with hd | hd
        · exact hdollar d hd
        · rwa [List.mem_singleton.1 hd]
    cases σ with
    | parens => exact ⟨.char '(', p ++ [.char ')'], rfl, hquoted (by decide) (by decide)⟩
    | bare =>
      cases p with
      | nil => exact absurd rfl hp.ne_nil
      | cons c s => exact ⟨c, s, rfl, hdollar⟩
    | braces =>
      exact ⟨.char '\x7b', p ++ [.char '\x7d'], rfl, hquoted (by decide) (by decide)⟩
  have halias : aliasAt (.char '$' :: c :: s) = none := by
    unfold aliasAt
    split
    · next heq => exact absurd (List.cons.inj (List.cons.inj heq).2).1 (hc c List.mem_cons_self)
    · rfl
  have hrest : expandAliases palette ((c :: s) ++ []) = c :: s ++ expandAliases palette [] :=
    Expr.expandAliases_append hc []
  rw [List.append_nil, expandAliases_nil, List.append_nil] at hrest
  rw [hwrite, Expr.expandAliases_cons halias, hrest]

end Spelling

/-! ## Aliases become references -/

theorem mem_dottedRun {s : Text} {c : CodePoint} (h : c ∈ (dottedRun s).1) :
    isWord c = true ∨ c = .char '.' := by
  induction s with
  | nil => cases h
  | cons d s ih =>
    unfold dottedRun at h
    split at h
    · next hd =>
      rcases List.mem_cons.mp h with rfl | h
      · simp only [Bool.or_eq_true, Bool.and_eq_true, beq_iff_eq] at hd
        exact hd.imp id And.left
      · exact ih h
    · cases h

/-- The name of an alias holds no round brackets. -/
theorem not_paren_of_aliasAt {s : Text} {hit : Hit Text} (h : aliasAt s = some hit) :
    ∀ c ∈ hit.item, isParen c = false := by
  have hbracket : ∀ {c}, isBracket c = false → isParen c = false := by
    intro c hc
    simp only [isBracket, Bool.or_eq_false_iff] at hc
    exact hc.1.1
  unfold aliasAt at h
  split at h
  · next t =>
    obtain ⟨g, hg, rfl⟩ := Option.map_eq_some_iff.mp h
    rcases Option.or_eq_some_iff.mp hg with hp | ⟨-, hg⟩
    · obtain ⟨body, rest, -, hbody, -, rfl⟩ := inParens_eq_some_iff.mp hp
      exact hbody
    · rcases Option.or_eq_some_iff.mp hg with hb | ⟨-, hw⟩
      · obtain ⟨body, rest, -, hbody, -, rfl⟩ := inBraces_eq_some_iff.mp hb
        exact fun c hc => hbracket (hbody c hc)
      · unfold dottedWords at hw
        split at hw
        · cases hw
        · split at hw
          · cases hw
            exact fun c hc => hbracket (not_bracket_of_word (mem_dottedRun hc)).1
          · cases hw
  · cases h

theorem paletteReference_append (palette name rest : Text) :
    paletteReference palette name ++ rest =
      .char '$' :: .char '(' :: ((palette ++ .char '.' :: trim name) ++ .char ')' :: rest) := by
  simp [paletteReference, Text.ofString]

theorem not_paren_paletteName {palette name : Text} (hpalette : ∀ c ∈ palette, isParen c = false)
    (hname : ∀ c ∈ name, isParen c = false) :
    ∀ c ∈ palette ++ .char '.' :: trim name, isParen c = false := by
  intro c hc
  rw [List.mem_append, List.mem_cons] at hc
  rcases hc with hc | rfl | hc
  · exact hpalette c hc
  · rfl
  · exact hname c (mem_of_mem_trim hc)

/-- What an alias stands for is read as a reference. -/
theorem search_paletteReference {palette name : Text} (hpalette : ∀ c ∈ palette, isParen c = false)
    (hname : ∀ c ∈ name, isParen c = false) (rest : Text) :
    search referenceAt (paletteReference palette name ++ rest) ≠ none := by
  have hbody := not_paren_paletteName hpalette hname
  have hread := referenceAt_of_parens
    (inParens_eq_some_iff.mpr ⟨_, rest, by simp, hbody, rfl, rfl⟩)
  rw [paletteReference_append, search_cons_of_some hread]
  exact Option.some_ne_none _

/-- **Where nothing is left to resolve once the aliases are written out, there were none**, provided
that the name of the palette section holds no round brackets. -/
theorem expandAliases_eq_self {palette : Text} (hpalette : ∀ c ∈ palette, isParen c = false)
    {s : Text} (h : hasUnresolved (expandAliases palette s) = false) :
    expandAliases palette s = s := by
  have hsearch : search referenceAt (expandAliases palette s) = none := by
    rw [hasUnresolved, Bool.or_eq_false_iff] at h
    simpa [occurs] using h.1
  clear h
  induction s with
  | nil => exact expandAliases_nil palette
  | cons c s ih =>
    cases halias : aliasAt (c :: s) with
    | none =>
      rw [Expr.expandAliases_cons halias] at hsearch ⊢
      rw [ih]
      unfold search at hsearch
      split at hsearch
      · cases hsearch
      · simpa using hsearch
    | some hit =>
      exfalso
      rw [expandAliases] at hsearch
      split at hsearch
      · next hit' hhit =>
        exact search_paletteReference hpalette (not_paren_of_aliasAt hhit) _ hsearch
      · next hnone =>
        rw [halias] at hnone
        cases hnone

end Colourway.Syntax
