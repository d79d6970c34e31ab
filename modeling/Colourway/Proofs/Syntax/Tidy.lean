import Colourway.Proofs.Syntax.Hex

/-!
# Texts in which references can be respelled

A reference may be written in three ways, and the bare one reads on into what follows it.  This file
says when the way does not matter.  It depends on what a reference leads to: a path is *sealed* if
its value does not end in a reference that may read on.

* `Plain` — texts without references, in which every dollar sign is followed by a character that
  opens none.
* `CutOff` — texts that no path in front of them goes on into.
* `Tidy` — texts in which every dollar sign is followed by a character that opens nothing, or opens
  a reference: one that is cut off, or a bracketed one to a sealed path.
* `Alike` — two texts with references to the same paths in the same places and the same text
  around them.  **`Tidy.alike`** and **`Alike.unique`**: a tidy text has one list of paths.
* **`Alike.append`** — alike texts in front of alike texts.
* **`Alike.found`** — searches for references come to the same place in alike texts.
-/

namespace Colourway.Syntax

open Text

/-! ## Where paths end -/

/-- A text that no path in front of it goes on into. -/
def EndsPath (s : Text) : Prop := (dottedRun s).1 = []

theorem endsPath_nil : EndsPath [] := rfl

theorem endsPath_cons_iff {c : CodePoint} {s : Text} :
    EndsPath (c :: s) ↔ isWord c = false ∧ (c = .char '.' → s.head?.any isWord = false) := by
  rw [EndsPath, dottedRun]
  by_cases hword : isWord c = true
  · simp [hword]
  · have hword' : isWord c = false := by simpa using hword
    by_cases hdot : c = .char '.'
    · subst hdot
      by_cases hnext : s.head?.any isWord = true <;> simp [hword', hnext]
    · simp [hword', hdot]

theorem EndsPath.head {s : Text} (h : EndsPath s) : s.head?.any isWord = false := by
  cases s with
  | nil => rfl
  | cons c s => exact (endsPath_cons_iff.1 h).1

theorem EndsPath.append {a b : Text} (ha : EndsPath a) (hb : EndsPath b) : EndsPath (a ++ b) := by
  cases a with
  | nil => exact hb
  | cons c a =>
    obtain ⟨hword, hdot⟩ := endsPath_cons_iff.1 ha
    refine endsPath_cons_iff.2 ⟨hword, fun hc => ?_⟩
    cases a with
    | nil => exact hb.head
    | cons d a => exact hdot hc

theorem EndsPath.run {s : Text} (h : EndsPath s) : dottedRun s = ([], s) := by
  have happend := dottedRun_append s
  rw [h, List.nil_append] at happend
  exact Prod.ext h happend

/-- A run of words is the same in front of any text that ends it. -/
theorem dottedRun_again {b : Text} (hb : EndsPath b) (s : Text) :
    dottedRun ((dottedRun s).1 ++ b) = ((dottedRun s).1, b) := by
  induction s with
  | nil => exact hb.run
  | cons c s ih =>
    rw [dottedRun]
    split
    · next hc =>
      -- The character behind a dot is in the run, so that the dot is.
      have hhead : s.head?.any isWord = true →
          ((dottedRun s).1 ++ b).head?.any isWord = true := by
        cases s with
        | nil => exact fun h => absurd h (by decide)
        | cons d s =>
          intro hd
          have hd' : isWord d = true := hd
          rw [dottedRun, if_pos (by rw [hd']; rfl)]
          exact hd
      have hc' : (isWord c || (c == .char '.' &&
          ((dottedRun s).1 ++ b).head?.any isWord)) = true := by
        simp only [Bool.or_eq_true, Bool.and_eq_true] at hc ⊢
        exact hc.imp id fun h => ⟨h.1, hhead h.2⟩
      rw [List.cons_append, dottedRun, if_pos hc', ih]
    · exact hb.run

theorem dottedWords_again {s b : Text} {hit : Hit Text} (h : dottedWords s = some hit)
    (hb : EndsPath b) : dottedWords (hit.matched ++ b) = some ⟨hit.matched, hit.item, b⟩ := by
  unfold dottedWords at h
  split at h
  · cases h
  · next c s =>
    split at h
    · next hc =>
      cases h
      have hrun : (dottedRun (c :: s)).1 = c :: (dottedRun s).1 := by
        rw [dottedRun, if_pos (by rw [hc]; rfl)]
      have hagain := dottedRun_again hb (c :: s)
      dsimp only
      rw [hrun, List.cons_append] at hagain ⊢
      rw [dottedWords, if_pos hc, hagain]
    · cases h

/-- No path goes on into the text with what may follow it: anything if `free` holds, else what ends
a path itself. -/
def CutOff (free : Prop) (s : Text) : Prop := ∀ b, free ∨ EndsPath b → EndsPath (s ++ b)

namespace CutOff

variable {free : Prop} {s : Text}

theorem of_endsPath (h : EndsPath s) (hfree : ¬ free) : CutOff free s :=
  fun _ hb => h.append (hb.resolve_left hfree)

theorem endsPath (h : CutOff free s) : EndsPath s := by
  have hs := h [] (Or.inr endsPath_nil)
  rwa [List.append_nil] at hs

end CutOff

/-! ## References in front of other texts -/

/-- A character that may follow the dollar sign of a reference or of an alias. -/
def opensReference (c : CodePoint) : Bool :=
  c == .char '$' || c == .char '(' || c == .char '\x7b' || isWord c

theorem inParens_of_ne {c : CodePoint} (h : c ≠ .char '(') (s : Text) :
    inParens (c :: s) = none := by
  unfold inParens
  split
  · next heq => exact absurd (List.cons.inj heq).1 h
  · rfl

theorem inBraces_of_ne {c : CodePoint} (h : c ≠ .char '\x7b') (s : Text) :
    inBraces (c :: s) = none := by
  unfold inBraces
  split
  · next heq => exact absurd (List.cons.inj heq).1 h
  · rfl

theorem dottedWords_of_not_word {c : CodePoint} (h : isWord c = false) (s : Text) :
    dottedWords (c :: s) = none := by
  rw [dottedWords, h]
  rfl

theorem not_word_brace : isWord (.char '\x7b') = false := by decide +kernel

theorem referenceAt_of_parens {s : Text} {hit : Hit Text} (h : inParens s = some hit) :
    referenceAt (.char '$' :: s) = some hit.dollar := by
  rw [referenceAt, h]
  rfl

theorem referenceAt_of_words {s : Text} {hit : Hit Text} (h : dottedWords s = some hit) :
    referenceAt (.char '$' :: s) = some hit.dollar := by
  obtain ⟨hsplit, c, tail, hc, htail⟩ := dottedWords_matched h
  have hne : c ≠ .char '(' := by
    rintro rfl
    rw [isWord_mark (by decide)] at hc
    cases hc
  have hparens : inParens s = none := by
    rw [← hsplit, htail, List.cons_append, inParens_of_ne hne]
  rw [referenceAt, hparens, h]
  rfl

theorem referenceAt_of_braces {s : Text} {hit : Hit Text} (h : inBraces s = some hit) :
    referenceAt (.char '$' :: s) = some hit.dollar := by
  obtain ⟨body, rest, -, -, rfl, -⟩ := inBraces_eq_some_iff.1 h
  rw [referenceAt, inParens_of_ne (by decide), dottedWords_of_not_word not_word_brace, h]
  rfl

/-- What is read as a reference is a dollar sign with one of the three forms behind it. -/
theorem referenceAt_cases {s : Text} {hit : Hit Text} (h : referenceAt s = some hit) :
    ∃ t g, s = .char '$' :: t ∧ hit = Hit.dollar g ∧
      (inParens t = some g ∨ dottedWords t = some g ∨ inBraces t = some g) := by
  unfold referenceAt at h
  split at h
  · next t =>
    obtain ⟨g, hg, rfl⟩ := Option.map_eq_some_iff.1 h
    refine ⟨t, g, rfl, rfl, ?_⟩
    rcases Option.or_eq_some_iff.1 hg with hp | ⟨-, hg⟩
    · exact Or.inl hp
    · exact Or.inr ((Option.or_eq_some_iff.1 hg).imp id fun hb => hb.2)
  · cases h

/-- A reference is read again in front of any text that ends a path. -/
theorem referenceAt_again {s b : Text} {hit : Hit Text} (h : referenceAt s = some hit)
    (hb : EndsPath b) : referenceAt (hit.matched ++ b) = some ⟨hit.matched, hit.item, b⟩ := by
  obtain ⟨t, g, -, rfl, hp | hw | hr⟩ := referenceAt_cases h
  · exact referenceAt_of_parens (inParens_again hp b)
  · exact referenceAt_of_words (dottedWords_again hw hb)
  · exact referenceAt_of_braces (inBraces_again hr b)

/-- A reference that is read the same whatever follows it. -/
def Hit.Alone (hit : Hit Text) : Prop :=
  ∀ b, referenceAt (hit.matched ++ b) = some ⟨hit.matched, hit.item, b⟩

/-- A dollar sign in front of a character that opens nothing is none of a reference. -/
theorem referenceAt_closed {d : CodePoint} (hd : opensReference d = false) (s : Text) :
    referenceAt (.char '$' :: d :: s) = none := by
  simp only [opensReference, Bool.or_eq_false_iff, beq_eq_false_iff_ne, ne_eq] at hd
  obtain ⟨⟨⟨-, hparen⟩, hbrace⟩, hword⟩ := hd
  rw [referenceAt, inParens_of_ne hparen, dottedWords_of_not_word hword, inBraces_of_ne hbrace]
  rfl

/-- A hex literal holds no dollar sign. -/
theorem isHex_of_dollar {s : Text} (h : .char '$' ∈ s) : isHex s = false := by
  have hno : ∀ digits, hexBody? s ≠ some digits := by
    intro digits hbody
    obtain ⟨hdigits, hshape⟩ := hexBody?_eq_some_iff.1 hbody
    have hmem : CodePoint.char '$' ∈ digits := by
      rcases hshape with rfl | rfl <;> simpa using h
    exact absurd (hdigits _ hmem) (by decide)
  have hnone : hexBody? s = none := Option.eq_none_iff_forall_ne_some.2 hno
  simp [isHex, isLongHex, isShortHex, hnone]

/-! ## Plain texts -/

/-- A text without references, in which no dollar sign comes to open one when another text is put
behind. -/
inductive Plain : Text → Prop where
  /-- The empty text. -/
  | nil : Plain []
  /-- A character that is no dollar sign. -/
  | char {c : CodePoint} {s : Text} : c ≠ .char '$' → Plain s → Plain (c :: s)
  /-- A dollar sign in front of a character that opens nothing. -/
  | dollar {d : CodePoint} {s : Text} :
      opensReference d = false → Plain s → Plain (.char '$' :: d :: s)

namespace Plain

theorem of_ne {s : Text} (h : ∀ c ∈ s, c ≠ .char '$') : Plain s := by
  induction s with
  | nil => exact .nil
  | cons c s ih =>
    exact .char (h c List.mem_cons_self) (ih fun d hd => h d (List.mem_cons_of_mem _ hd))

theorem append {a b : Text} (ha : Plain a) (hb : Plain b) : Plain (a ++ b) := by
  induction ha with
  | nil => exact hb
  | char hc _ ih => exact .char hc ih
  | dollar hd _ ih => exact .dollar hd ih

theorem ne_dollar_of_closed {d : CodePoint} (h : opensReference d = false) : d ≠ .char '$' := by
  rintro rfl
  exact absurd h (by decide)

theorem tail {c : CodePoint} {s : Text} (h : Plain (c :: s)) : Plain s := by
  cases h with
  | char _ hs => exact hs
  | dollar hd hs => exact .char (ne_dollar_of_closed hd) hs

/-- What stands behind a part of a plain text is plain. -/
theorem behind {a b : Text} (h : Plain (a ++ b)) : Plain b := by
  induction a with
  | nil => exact h
  | cons c a ih => exact ih h.tail

/-- What stands in front of a word in a plain text is plain. -/
theorem before {a b : Text} {c : CodePoint} (hc : opensReference c = true)
    (h : Plain (a ++ c :: b)) : Plain a := by
  induction a with
  | nil => exact .nil
  | cons d a ih =>
    have ha := ih h.tail
    rw [List.cons_append] at h
    generalize htail : a ++ c :: b = s at h
    cases h with
    | char hd _ => exact .char hd ha
    | @dollar e s hd _ =>
      cases a with
      | nil =>
        obtain ⟨rfl, -⟩ := List.cons.inj htail
        rw [hc] at hd
        cases hd
      | cons e' a =>
        obtain ⟨rfl, -⟩ := List.cons.inj htail
        exact .dollar hd ha.tail

theorem search_none {s : Text} (h : Plain s) : search referenceAt s = none := by
  induction h with
  | nil => rfl
  | char hc _ ih => rw [search_cons_of_none (referenceAt_of_ne hc _), ih, Option.map_none]
  | dollar hd _ ih =>
    rw [search_cons_of_none (referenceAt_closed hd _),
      search_cons_of_none (referenceAt_of_ne (ne_dollar_of_closed hd) _), ih]
    rfl

/-- A plain text in place of a call leaves a plain text plain. -/
theorem replace_call {s y : Text} {f : Found (Text × Text)} (hs : Plain s)
    (h : search callAt s = some f) (hy : Plain y) : Plain (replaceFirst f.matched y s) := by
  have hsplit : f.before ++ f.matched ++ f.after = s :=
    search_append (fun _ _ => callAt_steady.split) h
  obtain ⟨s', hs'⟩ := search_hit h
  obtain ⟨name, args, rest, hne, hname, -, -, hhit⟩ := callAt_eq_some_iff.1 hs'
  have hmatched : f.matched = name ++ "(" ++ args ++ ")" := congrArg Hit.matched hhit
  have hbefore : Plain f.before := by
    cases name with
    | nil => exact absurd rfl hne
    | cons c name =>
      have hopens : opensReference c = true := by
        simp [opensReference, hname c List.mem_cons_self]
      rw [← hsplit, hmatched, List.append_assoc] at hs
      exact hs.before hopens
  have hafter : Plain f.after := by
    rw [← hsplit] at hs
    exact hs.behind
  rw [replaceFirst_found callAt_steady h]
  exact (hbefore.append hy).append hafter

end Plain

/-! ## Texts that are alike -/

/-- A reference that ends where it ends however it and what it leads to are spelled: nothing reads
on behind it, or it is bracketed and leads to a sealed path. -/
def Hit.Bounded (isSealed : Text → Prop) (free : Prop) (hit : Hit Text) : Prop :=
  (isSealed (trim hit.item) ∧ hit.Alone) ∨ CutOff free hit.rest

/-- The two texts have references to these paths, in this order, and the same text around them. The
references are bounded, if `free` holds in front of any text. -/
inductive Alike (isSealed : Text → Prop) (free : Prop) : List Text → Text → Text → Prop where
  /-- The empty texts. -/
  | nil : Alike isSealed free [] [] []
  /-- A character that is no dollar sign. -/
  | char {ps : List Text} {c : CodePoint} {s t : Text} :
      c ≠ .char '$' → Alike isSealed free ps s t → Alike isSealed free ps (c :: s) (c :: t)
  /-- A dollar sign in front of a character that opens nothing. -/
  | dollar {ps : List Text} {d : CodePoint} {s t : Text} : opensReference d = false →
      Alike isSealed free ps s t →
      Alike isSealed free ps (.char '$' :: d :: s) (.char '$' :: d :: t)
  /-- A reference to the same path. -/
  | reference {ps : List Text} {s t : Text} {hit hit' : Hit Text} : referenceAt s = some hit →
      referenceAt t = some hit' → trim hit.item = trim hit'.item → hit.Bounded isSealed free →
      hit'.Bounded isSealed free → Alike isSealed free ps hit.rest hit'.rest →
      Alike isSealed free (trim hit.item :: ps) s t

/-- A text in which every dollar sign is followed by a character that opens nothing, or opens a
reference that is bounded, if `free` holds in front of any text. -/
inductive Tidy (isSealed : Text → Prop) (free : Prop) : Text → Prop where
  /-- The empty text. -/
  | nil : Tidy isSealed free []
  /-- A character that is no dollar sign. -/
  | char {c : CodePoint} {s : Text} :
      c ≠ .char '$' → Tidy isSealed free s → Tidy isSealed free (c :: s)
  /-- A dollar sign in front of a character that opens nothing. -/
  | dollar {d : CodePoint} {s : Text} :
      opensReference d = false → Tidy isSealed free s → Tidy isSealed free (.char '$' :: d :: s)
  /-- A bounded reference. -/
  | reference {s : Text} {hit : Hit Text} : referenceAt s = some hit →
      hit.Bounded isSealed free → Tidy isSealed free hit.rest → Tidy isSealed free s

section Tidy

variable {isSealed : Text → Prop} {free : Prop}

theorem Tidy.prepend {a s : Text} (ha : Plain a) (h : Tidy isSealed free s) :
    Tidy isSealed free (a ++ s) := by
  induction ha with
  | nil => exact h
  | char hc _ ih => exact .char hc ih
  | dollar hd _ ih => exact .dollar hd ih

theorem Tidy.of_plain {s : Text} (h : Plain s) : Tidy isSealed free s := by
  have hself := Tidy.prepend h (show Tidy isSealed free [] from .nil)
  rwa [List.append_nil] at hself

/-- A tidy text is like itself. -/
theorem Tidy.alike {s : Text} (h : Tidy isSealed free s) : ∃ ps, Alike isSealed free ps s s := by
  induction h with
  | nil => exact ⟨[], .nil⟩
  | char hc _ ih =>
    obtain ⟨ps, hps⟩ := ih
    exact ⟨ps, .char hc hps⟩
  | dollar hd _ ih =>
    obtain ⟨ps, hps⟩ := ih
    exact ⟨ps, .dollar hd hps⟩
  | reference hhit hbounded _ ih =>
    obtain ⟨ps, hps⟩ := ih
    exact ⟨_, .reference hhit hhit rfl hbounded hbounded hps⟩

end Tidy

/-- A bounded reference is read again in front of what may follow it, and is bounded there. -/
theorem Hit.Bounded.append {isSealed : Text → Prop} {free free' : Prop} {s b : Text}
    {hit : Hit Text} (h : hit.Bounded isSealed free) (hs : referenceAt s = some hit)
    (hb : free ∨ CutOff free' b) :
    referenceAt (s ++ b) = some ⟨hit.matched, hit.item, hit.rest ++ b⟩ ∧
      Hit.Bounded isSealed free' ⟨hit.matched, hit.item, hit.rest ++ b⟩ := by
  rw [← referenceAt_steady.split hs, List.append_assoc]
  rcases h with ⟨hseal, halone⟩ | hcut
  · exact ⟨halone _, Or.inl ⟨hseal, fun c => halone c⟩⟩
  · refine ⟨referenceAt_again hs (hcut b (hb.imp_right CutOff.endsPath)), Or.inr fun c hc => ?_⟩
    rw [List.append_assoc]
    exact hcut (b ++ c) (hb.imp_right fun h => h c hc)

namespace Alike

variable {isSealed : Text → Prop} {free free' : Prop} {ps qs : List Text} {s t u : Text}

theorem symm (h : Alike isSealed free ps s t) : Alike isSealed free ps t s := by
  induction h with
  | nil => exact .nil
  | char hc _ ih => exact .char hc ih
  | dollar hd _ ih => exact .dollar hd ih
  | reference hs ht heq hbounded hbounded' _ ih =>
    rw [heq]
    exact .reference ht hs heq.symm hbounded' hbounded ih

theorem left (h : Alike isSealed free ps s t) : Alike isSealed free ps s s := by
  induction h with
  | nil => exact .nil
  | char hc _ ih => exact .char hc ih
  | dollar hd _ ih => exact .dollar hd ih
  | reference hs _ _ hbounded _ _ ih => exact .reference hs hs rfl hbounded hbounded ih

theorem right (h : Alike isSealed free ps s t) : Alike isSealed free ps t t := h.symm.left

/-- A text has its references at one list of paths only. -/
theorem unique (h : Alike isSealed free ps s t) (h' : Alike isSealed free' qs s u) : ps = qs := by
  induction h generalizing qs u with
  | nil =>
    cases h' with
    | nil => rfl
    | reference hs => cases hs
  | char hc _ ih =>
    cases h' with
    | char _ hrest => exact ih hrest
    | dollar => exact absurd rfl hc
    | reference hs =>
      rw [referenceAt_of_ne hc] at hs
      cases hs
  | dollar hd _ ih =>
    cases h' with
    | char hc => exact absurd rfl hc
    | dollar _ hrest => exact ih hrest
    | reference hs =>
      rw [referenceAt_closed hd] at hs
      cases hs
  | reference hs _ _ _ _ _ ih =>
    cases h' with
    | nil => cases hs
    | char hc =>
      rw [referenceAt_of_ne hc] at hs
      cases hs
    | dollar hd =>
      rw [referenceAt_closed hd] at hs
      cases hs
    | reference hs' _ _ _ _ hrest =>
      obtain rfl := Option.some.inj (hs.symm.trans hs')
      rw [ih hrest]

/-- Texts without references are alike only if they are the same. -/
theorem eq_of_nil (h : Alike isSealed free [] s t) : s = t ∧ Plain s := by
  generalize hps : ([] : List Text) = ps at h
  induction h with
  | nil => exact ⟨rfl, .nil⟩
  | char hc _ ih =>
    obtain ⟨rfl, hplain⟩ := ih hps
    exact ⟨rfl, .char hc hplain⟩
  | dollar hd _ ih =>
    obtain ⟨rfl, hplain⟩ := ih hps
    exact ⟨rfl, .dollar hd hplain⟩
  | reference => cases hps

/-- The same plain text may be put in front. -/
theorem prepend {a : Text} (ha : Plain a) (h : Alike isSealed free ps s t) :
    Alike isSealed free ps (a ++ s) (a ++ t) := by
  induction ha with
  | nil => exact h
  | char hc _ ih => exact .char hc ih
  | dollar hd _ ih => exact .dollar hd ih

theorem of_plain (h : Plain s) : Alike isSealed free [] s s := by
  have hself := prepend h (show Alike isSealed free [] [] [] from .nil)
  rwa [List.append_nil] at hself

/-- Alike texts may be put in front of alike texts that may follow them. -/
theorem append {a b : Text} (h : Alike isSealed free ps s t) (hab : Alike isSealed free' qs a b)
    (ha : free ∨ CutOff free' a) (hb : free ∨ CutOff free' b) :
    Alike isSealed free' (ps ++ qs) (s ++ a) (t ++ b) := by
  induction h with
  | nil => exact hab
  | char hc _ ih => exact .char hc ih
  | dollar hd _ ih => exact .dollar hd ih
  | reference hs ht heq hbounded hbounded' _ ih =>
    obtain ⟨hs', hnew⟩ := hbounded.append hs ha
    obtain ⟨ht', hnew'⟩ := hbounded'.append ht hb
    have hfront := reference hs' ht' heq hnew hnew' ih
    exact hfront

/-- **Searches come to the same place.**  What stands before the first reference is the same plain
text, and what stands behind it is alike, and cut off unless the reference is to a sealed path. -/
theorem found {p : Text} (h : Alike isSealed free (p :: ps) s t) :
    ∃ x m m' i i' a b, search referenceAt s = some ⟨x, m, i, a⟩ ∧
      search referenceAt t = some ⟨x, m', i', b⟩ ∧ trim i = p ∧ trim i' = p ∧ Plain x ∧
      (isSealed p ∨ CutOff free a) ∧ (isSealed p ∨ CutOff free b) ∧
      Alike isSealed free ps a b := by
  generalize hqs : p :: ps = qs at h
  induction h with
  | nil => cases hqs
  | char hc _ ih =>
    obtain ⟨x, m, m', i, i', a, b, hs, ht, hi, hi', hx, hrest⟩ := ih hqs
    refine ⟨_ :: x, m, m', i, i', a, b, ?_, ?_, hi, hi', .char hc hx, hrest⟩
    · rw [search_cons_of_none (referenceAt_of_ne hc _), hs]
      rfl
    · rw [search_cons_of_none (referenceAt_of_ne hc _), ht]
      rfl
  | dollar hd _ ih =>
    obtain ⟨x, m, m', i, i', a, b, hs, ht, hi, hi', hx, hrest⟩ := ih hqs
    have hd' := Plain.ne_dollar_of_closed hd
    refine ⟨_ :: _ :: x, m, m', i, i', a, b, ?_, ?_, hi, hi', .dollar hd hx, hrest⟩
    · rw [search_cons_of_none (referenceAt_closed hd _),
        search_cons_of_none (referenceAt_of_ne hd' _), hs]
      rfl
    · rw [search_cons_of_none (referenceAt_closed hd _),
        search_cons_of_none (referenceAt_of_ne hd' _), ht]
      rfl
  | @reference qs s t hit hit' hs ht heq hbounded hbounded' hrest _ =>
    obtain ⟨rfl, rfl⟩ := List.cons.inj hqs
    obtain ⟨u, -, rfl, -⟩ := referenceAt_cases hs
    obtain ⟨w, -, rfl, -⟩ := referenceAt_cases ht
    refine ⟨[], _, _, _, _, _, _, search_cons_of_some hs, search_cons_of_some ht, rfl, heq.symm,
      .nil, hbounded.imp_left And.left, ?_, hrest⟩
    rw [heq]
    exact hbounded'.imp_left And.left

end Alike

end Colourway.Syntax
