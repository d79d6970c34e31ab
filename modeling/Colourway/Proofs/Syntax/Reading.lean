import Colourway.Proofs.Syntax.Arguments
import Colourway.Proofs.Syntax.Printed

/-!
# Reading the texts of trees

What the searches of `Syntax` find in the text of a well-formed tree is what the tree has there.

* `Ctx.find_reference`, `Ctx.replace_reference` — the leftmost reference of a tree is found, and
  replacing it in the text replaces it in the tree.
* `Ctx.find_call`, `Ctx.replace_call` — the same for the leftmost innermost call of a tree without
  references.
* `Expr.classify_word`, `Expr.classify_of_hasRef`, `Ctx.classify_call` — the kinds of texts.
-/

namespace Colourway

open Text Syntax

/-! ## The characters of a tree's text -/

namespace Expr

theorem mem_printRest {c : CodePoint} {args : List Expr} (h : c ∈ printRest args) :
    c = .char ',' ∨ c = .char ' ' ∨ ∃ e ∈ args, c ∈ e.print := by
  induction args with
  | nil => cases h
  | cons e args ih =>
    have h' : c ∈ printRest (e :: args) ++ [] := by rwa [List.append_nil]
    rw [printRest_cons_append, List.append_nil, List.mem_cons, List.mem_cons, List.mem_append] at h'
    rcases h' with h | h | h | h
    · exact Or.inl h
    · exact Or.inr (Or.inl h)
    · exact Or.inr (Or.inr ⟨e, List.mem_cons_self, h⟩)
    · rcases ih h with h | h | ⟨a, ha, h⟩
      · exact Or.inl h
      · exact Or.inr (Or.inl h)
      · exact Or.inr (Or.inr ⟨a, List.mem_cons_of_mem _ ha, h⟩)

theorem mem_printArgs {c : CodePoint} {args : List Expr} (h : c ∈ printArgs args) :
    c = .char ',' ∨ c = .char ' ' ∨ ∃ e ∈ args, c ∈ e.print := by
  cases args with
  | nil => cases h
  | cons e args =>
    rw [printArgs, List.mem_append] at h
    rcases h with h | h
    · exact Or.inr (Or.inr ⟨e, List.mem_cons_self, h⟩)
    · rcases mem_printRest h with h | h | ⟨a, ha, h⟩
      · exact Or.inl h
      · exact Or.inr (Or.inl h)
      · exact Or.inr (Or.inr ⟨a, List.mem_cons_of_mem _ ha, h⟩)

theorem mem_print_call {c : CodePoint} {name : Text} {args : List Expr} :
    c ∈ (call name args).print ↔
      c ∈ name ∨ c = .char '(' ∨ c ∈ printArgs args ∨ c = .char ')' := by
  have h := print_call_append name args []
  rw [List.append_nil] at h
  rw [h]
  simp

/-- A tree without references is written without dollar signs. -/
theorem ne_dollar_of_not_hasRef {P : Text → Prop} {e : Expr} (he : e.WellFormed P)
    (hno : ¬ e.HasRef) : ∀ c ∈ e.print, c ≠ .char '$' := by
  induction e with
  | word w =>
    cases he with
    | word hw => exact fun c hc => ne_dollar (hw.unmarked c hc)
  | ref p => exact absurd ⟨p, .here⟩ hno
  | call name args ih =>
    cases he with
    | call hname hargs =>
      intro c hc
      rcases mem_print_call.1 hc with hc | rfl | hc | rfl
      · exact ne_dollar (hname.unmarked hc)
      · decide
      · rcases mem_printArgs hc with rfl | rfl | ⟨a, ha, hc⟩
        · decide
        · decide
        · refine ih a ha (hargs a ha) ?_ c hc
          rintro ⟨p, hp⟩
          exact hno ⟨p, .arg ha hp⟩
      · decide

end Expr

/-! ## Finding references -/

theorem referenceAt_of_ne {c : CodePoint} (h : c ≠ .char '$') (s : Text) :
    referenceAt (c :: s) = none := by
  unfold referenceAt
  split
  · next heq => exact absurd (List.cons.inj heq).1 h
  · rfl

/-- A search for references passes over a text without dollar signs. -/
theorem search_reference_skip {a : Text} (ha : ∀ c ∈ a, c ≠ .char '$') (b : Text) :
    search referenceAt (a ++ b) = (search referenceAt b).map (Found.behind a) := by
  refine search_skip ?_
  intro a' hsuf hne
  cases a' with
  | nil => exact absurd rfl hne
  | cons c a' => exact referenceAt_of_ne (ha c (hsuf.subset List.mem_cons_self)) _

theorem search_reference_none {a : Text} (ha : ∀ c ∈ a, c ≠ .char '$') :
    search referenceAt a = none := by
  have h := search_reference_skip ha []
  rwa [List.append_nil] at h

theorem referenceAt_ref {p : Text} (hp : IsPath p) (z : Text) :
    referenceAt ((Expr.ref p).print ++ z) = some ⟨(Expr.ref p).print, p, z⟩ := by
  have hin : inParens (.char '(' :: (p ++ .char ')' :: z)) = some ⟨"(" ++ p ++ ")", p, z⟩ :=
    inParens_eq_some_iff.2 ⟨p, z, hp.nonempty, fun c hc => (hp.unmarked c hc).2, rfl, rfl⟩
  rw [Expr.print_ref_append, referenceAt, hin]
  rfl

namespace Ctx

/-- In front of the leftmost reference there is no dollar sign. -/
theorem before_ne_dollar {P : Text → Prop} {c : Ctx} {x : Expr} (h : (c.fill x).WellFormed P)
    (hc : c.Passed fun e => ¬ e.HasRef) : ∀ d ∈ c.before, d ≠ .char '$' := by
  induction c with
  | here => exact fun d hd => absurd hd List.not_mem_nil
  | arg name done inner rest ih =>
    cases h with
    | call hname hargs =>
      intro d hd
      simp only [before, List.mem_append, lead, List.mem_flatMap] at hd
      rcases hd with ((hd | hd) | ⟨e, he, hd | hd⟩) | hd
      · exact Expr.ne_dollar (hname.unmarked hd)
      · rintro rfl
        exact absurd hd (by decide)
      · exact Expr.ne_dollar_of_not_hasRef (hargs e (List.mem_append_left _ he)) (hc.1 e he) d hd
      · rintro rfl
        exact absurd hd (by decide)
      · exact ih (hargs _ (List.mem_append_right _ List.mem_cons_self)) hc.2 d hd

variable {c : Ctx} {p : Text}

/-- The leftmost reference of a tree is the one that a search finds in its text. -/
theorem search_reference (h : (c.fill (.ref p)).WellFormed IsPath)
    (hc : c.Passed fun e => ¬ e.HasRef) :
    search referenceAt (c.fill (.ref p)).print =
      some ⟨c.before, (Expr.ref p).print, p, c.after⟩ := by
  have hp : IsPath p := h.of_within (c.within_fill _)
  have hhere : search referenceAt ((Expr.ref p).print ++ c.after) =
      some ⟨[], (Expr.ref p).print, p, c.after⟩ := by
    have hhit := referenceAt_ref hp c.after
    rw [Expr.print_ref_append] at hhit ⊢
    exact search_cons_of_some hhit
  rw [print_fill, List.append_assoc, search_reference_skip (before_ne_dollar h hc), hhere]
  simp [Found.behind]

theorem find_reference (h : (c.fill (.ref p)).WellFormed IsPath)
    (hc : c.Passed fun e => ¬ e.HasRef) :
    findReference (c.fill (.ref p)).print = some ⟨(Expr.ref p).print, p⟩ := by
  have hp : IsPath p := h.of_within (c.within_fill _)
  rw [findReference, search_reference h hc, Option.map_some]
  exact congrArg (fun q => some (Reference.mk _ q)) hp.trimmed

/-- Replacing the first reference in the text puts something else into the tree. -/
theorem replace_reference (h : (c.fill (.ref p)).WellFormed IsPath)
    (hc : c.Passed fun e => ¬ e.HasRef) (y : Expr) :
    replaceFirst (Expr.ref p).print y.print (c.fill (.ref p)).print = (c.fill y).print := by
  rw [print_fill c y]
  exact replaceFirst_found referenceAt_steady (search_reference h hc) y.print

end Ctx

/-! ## Finding calls -/

theorem callAt_of_not_word {c : CodePoint} (h : isWord c = false) (s : Text) :
    callAt (c :: s) = none := by
  refine Option.eq_none_iff_forall_ne_some.2 fun hit hhit => ?_
  obtain ⟨name, args, rest, hne, hname, -, heq, -⟩ := callAt_eq_some_iff.1 hhit
  cases name with
  | nil => exact hne rfl
  | cons d name =>
    have hd := hname d List.mem_cons_self
    cases heq
    rw [h] at hd
    cases hd

/-- A run of unmarked characters is no call unless a bracket opens behind it. -/
theorem callAt_of_mark {a b : Text} {c : CodePoint} (ha : ∀ x ∈ a, isMark x = false)
    (hc : isMark c = true) (hne : c ≠ .char '(') : callAt (a ++ c :: b) = none := by
  refine Option.eq_none_iff_forall_ne_some.2 fun hit hhit => ?_
  obtain ⟨name, args, rest, -, hname, -, heq, -⟩ := callAt_eq_some_iff.1 hhit
  obtain ⟨-, rfl, -⟩ :=
    run_unique isMark ha hc (fun x hx => isMark_of_isWord (hname x hx)) rfl heq
  exact hne rfl

/-- The first round bracket of a text is an opening one. -/
def Opens (s : Text) : Prop := ∃ q s', s = q ++ .char '(' :: s' ∧ ∀ c ∈ q, isParen c = false

theorem Opens.append {a s : Text} (ha : ∀ c ∈ a, isParen c = false) (h : Opens s) :
    Opens (a ++ s) := by
  obtain ⟨q, s', rfl, hq⟩ := h
  refine ⟨a ++ q, s', by rw [List.append_assoc], ?_⟩
  intro c hc
  rcases List.mem_append.1 hc with hc | hc
  · exact ha c hc
  · exact hq c hc

/-- A call whose arguments hold a bracket is no innermost one. -/
theorem callAt_of_opens {name s : Text} (hname : ∀ c ∈ name, isWord c = true) (hs : Opens s) :
    callAt (name ++ .char '(' :: s) = none := by
  refine Option.eq_none_iff_forall_ne_some.2 fun hit hhit => ?_
  obtain ⟨name', args, rest, -, hname', hargs, heq, -⟩ := callAt_eq_some_iff.1 hhit
  obtain ⟨-, -, rfl⟩ := run_unique isMark (fun c hc => isMark_of_isWord (hname c hc)) rfl
    (fun c hc => isMark_of_isWord (hname' c hc)) rfl heq
  obtain ⟨q, s', heq, hq⟩ := hs
  obtain ⟨-, hclose, -⟩ := run_unique isParen hargs rfl hq rfl heq
  cases hclose

theorem isParen_of_unmarked {c : CodePoint} (h : isMark c = false) : isParen c = false := by
  simp only [isMark, isParen, Bool.or_eq_false_iff] at h ⊢
  exact ⟨h.1.1.2, h.1.2⟩

/-- A search for calls passes over a name and its bracket when another bracket opens behind. -/
theorem search_call_name {name s : Text} (hname : ∀ c ∈ name, isWord c = true) (hs : Opens s) :
    search callAt (name ++ .char '(' :: s) =
      (search callAt s).map (Found.behind (name ++ [.char '('])) := by
  have hskip : search callAt (name ++ .char '(' :: s) =
      (search callAt (.char '(' :: s)).map (Found.behind name) := by
    refine search_skip ?_
    intro a hsuf _
    exact callAt_of_opens (fun c hc => hname c (hsuf.subset hc)) hs
  rw [hskip, search_cons_of_none (callAt_of_not_word (isWord_mark (by decide)) s), Option.map_map]
  exact Option.map_congr fun f _ => Found.behind_behind _ _ f

/-- A search for calls passes over a word and the comma behind it. -/
theorem search_call_word {w : Text} (hw : IsWord w) (s : Text) :
    search callAt (w ++ .char ',' :: .char ' ' :: s) =
      (search callAt s).map (Found.behind (w ++ ", ")) := by
  have hskip : search callAt (w ++ .char ',' :: .char ' ' :: s) =
      (search callAt (.char ',' :: .char ' ' :: s)).map (Found.behind w) := by
    refine search_skip ?_
    intro a hsuf _
    exact callAt_of_mark (fun c hc => hw.unmarked c (hsuf.subset hc)) rfl (by decide)
  rw [hskip, search_cons_of_none (callAt_of_not_word (isWord_mark (by decide)) _),
    search_cons_of_none (callAt_of_not_word (isWord_mark (by decide)) _), Option.map_map,
    Option.map_map]
  refine Option.map_congr fun f _ => ?_
  simp [Found.behind, Text.ofString]

namespace Expr

/-- A tree that is a word. -/
def IsLeaf (e : Expr) : Prop := ∃ w, e = word w

/-- The call of words. -/
def callOf (name : Text) (words : List Text) : Expr := call name (words.map word)

theorem print_callOf (name : Text) (words : List Text) :
    (callOf name words).print = callText name words := by
  have hid : print ∘ word = id := rfl
  rw [callOf, print_call, List.map_map, hid, List.map_id]

theorem isWord_of_wellFormed {P : Text → Prop} {w : Text} (h : (word w).WellFormed P) :
    IsWord w := by
  cases h with
  | word hw => exact hw

theorem wellFormed_callOf {P : Text → Prop} {name : Text} {words : List Text}
    (h : (callOf name words).WellFormed P) : IsName name ∧ ∀ w ∈ words, IsWord w := by
  cases h with
  | call hname hargs =>
    exact ⟨hname, fun w hw => isWord_of_wellFormed (hargs _ (List.mem_map_of_mem hw))⟩

end Expr

/-- Words joined by commas hold no brackets. -/
theorem not_paren_join {words : List Text} (hwords : ∀ w ∈ words, IsWord w) :
    ∀ c ∈ Text.join ", " words, isParen c = false := by
  intro c hc
  have hid : Expr.print ∘ Expr.word = id := rfl
  have hjoin : Text.join ", " words = Expr.printArgs (words.map .word) := by
    rw [Expr.printArgs_eq_join, List.map_map, hid, List.map_id]
  rw [hjoin] at hc
  rcases Expr.mem_printArgs hc with rfl | rfl | ⟨e, he, hc⟩
  · rfl
  · rfl
  · obtain ⟨w, hw, rfl⟩ := List.mem_map.1 he
    exact isParen_of_unmarked ((hwords w hw).unmarked c hc)

/-- The call of words is an innermost call. -/
theorem callAt_callText {name : Text} {words : List Text} (hname : IsName name)
    (hwords : ∀ w ∈ words, IsWord w) (s : Text) :
    callAt (callText name words ++ s) =
      some ⟨callText name words, (name, Text.join ", " words), s⟩ := by
  refine callAt_eq_some_iff.2 ⟨name, Text.join ", " words, s, hname.nonempty, hname.word,
    not_paren_join hwords, ?_, rfl⟩
  simp [callText, Text.ofString]

theorem opens_callText {name : Text} (hname : IsName name) (words : List Text) (s : Text) :
    Opens (callText name words ++ s) := by
  refine ⟨name, Text.join ", " words ++ .char ')' :: s, ?_, ?_⟩
  · simp [callText, Text.ofString]
  · exact fun c hc => isParen_of_unmarked (hname.unmarked hc)

namespace Ctx

variable {P : Text → Prop} {done : List Expr}

theorem lead_cons_append (e : Expr) (done : List Expr) (s : Text) :
    lead (e :: done) ++ s = e.print ++ .char ',' :: .char ' ' :: (lead done ++ s) := by
  simp [lead, Text.ofString]

/-- A search for calls passes over arguments that are words. -/
theorem search_call_lead (hdone : ∀ e ∈ done, e.WellFormed P) (hwords : ∀ e ∈ done, e.IsLeaf)
    (s : Text) :
    search callAt (lead done ++ s) = (search callAt s).map (Found.behind (lead done)) := by
  induction done with
  | nil => exact Option.map_id'.symm
  | cons e done ih =>
    obtain ⟨w, rfl⟩ := hwords e List.mem_cons_self
    have hw := Expr.isWord_of_wellFormed (hdone _ List.mem_cons_self)
    rw [lead_cons_append, Expr.print, search_call_word hw,
      ih (fun a ha => hdone a (List.mem_cons_of_mem _ ha))
        (fun a ha => hwords a (List.mem_cons_of_mem _ ha)), Option.map_map]
    refine Option.map_congr fun f _ => ?_
    simp [Found.behind, lead, Expr.print]

theorem not_paren_lead (hdone : ∀ e ∈ done, e.WellFormed P) (hwords : ∀ e ∈ done, e.IsLeaf) :
    ∀ c ∈ lead done, isParen c = false := by
  intro c hc
  obtain ⟨e, he, hc⟩ := List.mem_flatMap.1 hc
  obtain ⟨w, rfl⟩ := hwords e he
  rcases List.mem_append.1 hc with hc | hc
  · exact isParen_of_unmarked ((Expr.isWord_of_wellFormed (hdone _ he)).unmarked c hc)
  · have hcomma : ∀ d ∈ Text.ofString ", ", isParen d = false := by decide
    exact hcomma c hc

variable {c : Ctx} {x : Expr} {s : Text}

theorem opens_before (h : (c.fill x).WellFormed P) (hs : Opens s) : Opens (c.before ++ s) := by
  cases c with
  | here => exact hs
  | arg name done inner rest =>
    cases h with
    | call hname _ =>
      refine ⟨name, lead done ++ (inner.before ++ s), by simp [before, Text.ofString], ?_⟩
      exact fun c hc => isParen_of_unmarked (hname.unmarked hc)

/-- A search for calls passes over what is in front of the leftmost innermost call. -/
theorem search_call_skip (h : (c.fill x).WellFormed P) (hc : c.Passed Expr.IsLeaf) (hs : Opens s) :
    search callAt (c.before ++ s) = (search callAt s).map (Found.behind c.before) := by
  induction c with
  | here => exact Option.map_id'.symm
  | arg name done inner rest ih =>
    cases h with
    | call hname hargs =>
      have hdone : ∀ e ∈ done, e.WellFormed P := fun e he => hargs e (List.mem_append_left _ he)
      have hinner := hargs _ (List.mem_append_right _ List.mem_cons_self)
      have hopens : Opens (lead done ++ (inner.before ++ s)) :=
        (opens_before hinner hs).append (not_paren_lead hdone hc.1)
      have hsplit : (arg name done inner rest).before ++ s =
          name ++ .char '(' :: (lead done ++ (inner.before ++ s)) := by
        simp [before, Text.ofString]
      rw [hsplit, search_call_name hname.word hopens, search_call_lead hdone hc.1,
        ih hinner hc.2, Option.map_map, Option.map_map]
      refine Option.map_congr fun f _ => ?_
      simp [Found.behind, before, Text.ofString]

variable {name : Text} {words : List Text}

/-- The leftmost innermost call of a tree is the one that a search finds in its text. -/
theorem search_call (h : (c.fill (.callOf name words)).WellFormed P) (hc : c.Passed Expr.IsLeaf) :
    search callAt (c.fill (.callOf name words)).print =
      some ⟨c.before, callText name words, (name, Text.join ", " words), c.after⟩ := by
  obtain ⟨hname, hwords⟩ := Expr.wellFormed_callOf (wellFormed_fill h).1
  have hhere : search callAt (callText name words ++ c.after) =
      some ⟨[], callText name words, (name, Text.join ", " words), c.after⟩ := by
    have hhit := callAt_callText hname hwords c.after
    cases htext : callText name words ++ c.after with
    | nil =>
      rw [htext] at hhit
      cases hhit
    | cons d t =>
      rw [htext] at hhit
      exact search_cons_of_some hhit
  rw [print_fill, List.append_assoc, Expr.print_callOf,
    search_call_skip h hc (opens_callText hname words c.after), hhere]
  simp [Found.behind]

/-- Replacing the first innermost call in the text puts something else into the tree. -/
theorem replace_call (h : (c.fill (.callOf name words)).WellFormed P) (hc : c.Passed Expr.IsLeaf)
    (y : Expr) :
    replaceFirst (callText name words) y.print (c.fill (.callOf name words)).print =
      (c.fill y).print := by
  rw [print_fill c y]
  exact replaceFirst_found callAt_steady (search_call h hc) y.print

end Ctx

/-! ## The arguments of a call -/

/-- A word is one argument. -/
theorem IsWord.isArgument {w : Text} (h : IsWord w) : IsArgument w := by
  have hnone : ∀ {c : CodePoint}, isMark c = true → c ∉ w := by
    intro c hc hmem
    rw [h.unmarked c hmem] at hc
    cases hc
  have hclose : w.count (.char ')') = 0 := List.count_eq_zero.mpr (hnone rfl)
  have hopen : w.count (.char '(') = 0 := List.count_eq_zero.mpr (hnone rfl)
  refine ⟨h.trimmed, by rw [hclose, hopen], fun before hbefore => ?_, ?_⟩
  · have hle := hbefore.sublist.count_le (.char ')')
    omega
  · rintro before after rfl
    exact absurd (by simp) (hnone (c := .char ',') rfl)

/-- **The arguments of a call of words are these words.** -/
theorem splitArgs_join {words : List Text} (hwords : ∀ w ∈ words, IsWord w) :
    splitArgs (Text.join ", " words) = words := by
  refine splitArgs_join_arguments ?_ fun w hw => (hwords w hw).isArgument
  rintro rfl
  exact (hwords [] List.mem_cons_self).nonempty rfl

theorem Ctx.find_call {P : Text → Prop} {c : Ctx} {name : Text} {words : List Text}
    (h : (c.fill (.callOf name words)).WellFormed P) (hc : c.Passed Expr.IsLeaf) :
    findCall (c.fill (.callOf name words)).print =
      some ⟨callText name words, name, words⟩ := by
  obtain ⟨-, hwords⟩ := Expr.wellFormed_callOf (wellFormed_fill h).1
  rw [findCall, search_call h hc, Option.map_some]
  exact congrArg (fun args => some (Call.mk _ _ args)) (splitArgs_join hwords)

/-! ## Kinds of texts -/

/-- A hex literal holds no brackets. -/
theorem not_paren_of_isHex {s : Text} (h : isHex s = true) : ∀ c ∈ s, isParen c = false := by
  obtain ⟨digits, hbody⟩ : ∃ digits, hexBody? s = some digits := by
    rw [isHex, isLongHex, isShortHex] at h
    cases hbody : hexBody? s with
    | none =>
      rw [hbody] at h
      cases h
    | some digits => exact ⟨digits, rfl⟩
  unfold hexBody? at hbody
  split at hbody
  · next ds hline =>
    split at hbody
    · next hall =>
      have hchars : ∀ c ∈ dropLineEnd s, isParen c = false := by
        intro c hc
        rw [hline] at hc
        rcases List.mem_cons.1 hc with rfl | hc
        · rfl
        · exact isParen_of_unmarked (isMark_of_isHexDigit (List.all_eq_true.1 hall c hc))
      intro c hc
      unfold dropLineEnd at hchars
      split at hchars
      · next hlast =>
        rw [← List.dropLast_append_getLast? _ hlast] at hc
        rcases List.mem_append.1 hc with hc | hc
        · exact hchars c hc
        · rw [List.mem_singleton.1 hc]
          rfl
      · exact hchars c hc
    · cases hbody
  · cases hbody

theorem isHex_of_paren {s : Text} (h : .char '(' ∈ s) : isHex s = false := by
  cases hhex : isHex s with
  | false => rfl
  | true => exact absurd (not_paren_of_isHex hhex _ h) (by decide)

/-- A text without opening brackets holds no call. -/
theorem search_call_none {s : Text} (h : .char '(' ∉ s) : search callAt s = none := by
  have hskip : search callAt (s ++ []) = (search callAt []).map (Found.behind s) := by
    refine search_skip fun a hsuf _ => ?_
    refine Option.eq_none_iff_forall_ne_some.2 fun hit hhit => ?_
    obtain ⟨name, args, rest, -, -, -, heq, -⟩ := callAt_eq_some_iff.1 hhit
    rw [List.append_nil] at heq
    exact h (hsuf.subset (by rw [heq]; simp))
  rwa [List.append_nil] at hskip

namespace Expr

theorem not_open_word {w : Text} (hw : IsWord w) : .char '(' ∉ w := by
  intro h
  have := hw.unmarked _ h
  cases this

/-- A word is a hex literal in its final form, or literal text. -/
theorem classify_word {w : Text} (hw : IsWord w) :
    (classify w = .hex ∧ normalHex? w = some w) ∨ classify w = .literal := by
  have href : occurs referenceAt w = false := by
    rw [occurs, search_reference_none fun c hc => ne_dollar (hw.unmarked c hc)]
    rfl
  have hcall : occurs callAt w = false := by
    rw [occurs, search_call_none (not_open_word hw)]
    rfl
  by_cases hhex : isHex w = true
  · left
    have hlong : isLongHex w = true := by
      rw [isHex, hw.not_short, Bool.or_false] at hhex
      exact hhex
    exact ⟨if_pos hhex, if_pos hlong⟩
  · right
    rw [classify, if_neg hhex, href, hcall]
    rfl

/-- Nothing is left to resolve in a word. -/
theorem hasUnresolved_word {w : Text} (hw : IsWord w) : hasUnresolved w = false := by
  rw [hasUnresolved, occurs, occurs, search_call_none (not_open_word hw),
    search_reference_none fun c hc => ne_dollar (hw.unmarked c hc)]
  rfl

/-- A tree with references has a leftmost one. -/
theorem exists_leftmost_ref {e : Expr} (h : e.HasRef) :
    ∃ (c : Ctx) (p : Text), e = c.fill (ref p) ∧ c.Passed fun e => ¬ e.HasRef := by
  obtain ⟨c, x, he, ⟨p, rfl⟩, hc⟩ := exists_leftmost (fun e => ¬ e.HasRef)
    (fun e => ∃ p, e = ref p) (fun e he => by
      obtain ⟨p, hp⟩ := Classical.not_not.1 he
      cases hp with
      | here => exact Or.inl ⟨p, rfl⟩
      | arg hmem hw => exact Or.inr ⟨_, _, rfl, _, hmem, fun hno => hno ⟨p, hw⟩⟩)
    e (fun hno => hno h)
  exact ⟨c, p, he, hc⟩

theorem exists_words {args : List Expr} (h : ∀ a ∈ args, a.IsLeaf) :
    ∃ words : List Text, args = words.map word := by
  induction args with
  | nil => exact ⟨[], rfl⟩
  | cons a args ih =>
    obtain ⟨words, rfl⟩ := ih fun b hb => h b (List.mem_cons_of_mem _ hb)
    obtain ⟨w, rfl⟩ := h a List.mem_cons_self
    exact ⟨w :: words, rfl⟩

/-- A tree without references that is no word has a leftmost innermost call. -/
theorem exists_leftmost_call {e : Expr} (hno : ¬ e.HasRef) (hleaf : ¬ e.IsLeaf) :
    ∃ (c : Ctx) (name : Text) (words : List Text),
      e = c.fill (callOf name words) ∧ c.Passed IsLeaf := by
  obtain ⟨c, x, he, hx, hc⟩ := exists_leftmost IsLeaf
    (fun e => (∃ p, e = ref p) ∨ ∃ name words, e = callOf name words) (fun e he => by
      cases e with
      | word w => exact absurd ⟨w, rfl⟩ he
      | ref p => exact Or.inl (Or.inl ⟨p, rfl⟩)
      | call name args =>
        by_cases hargs : ∀ a ∈ args, a.IsLeaf
        · obtain ⟨words, rfl⟩ := exists_words hargs
          exact Or.inl (Or.inr ⟨name, words, rfl⟩)
        · simp only [not_forall] at hargs
          obtain ⟨a, ha, hna⟩ := hargs
          exact Or.inr ⟨name, args, rfl, a, ha, hna⟩)
    e hleaf
  rcases hx with ⟨p, rfl⟩ | ⟨name, words, rfl⟩
  · exact absurd ⟨p, he ▸ c.within_fill (ref p)⟩ hno
  · exact ⟨c, name, words, he, hc⟩

/-- A tree that is no word is written with a bracket. -/
theorem open_mem_print {e : Expr} (h : ¬ e.IsLeaf) : .char '(' ∈ e.print := by
  cases e with
  | word w => exact absurd ⟨w, rfl⟩ h
  | ref p =>
    have heq := print_ref_append p []
    rw [List.append_nil] at heq
    rw [heq]
    exact List.mem_cons_of_mem _ List.mem_cons_self
  | call name args => exact mem_print_call.2 (Or.inr (Or.inl rfl))

/-- The text of such a tree is no path. -/
theorem not_isPath_print {e : Expr} (h : ¬ e.IsLeaf) : ¬ IsPath e.print := by
  intro hpath
  have := (hpath.unmarked _ (open_mem_print h)).2
  cases this

theorem not_isLeaf_of_hasRef {e : Expr} (h : e.HasRef) : ¬ e.IsLeaf := by
  rintro ⟨w, rfl⟩
  obtain ⟨p, hp⟩ := h
  cases hp

theorem occurs_reference {e : Expr} (he : e.WellFormed IsPath) :
    occurs referenceAt e.print = true ↔ e.HasRef := by
  constructor
  · intro h
    by_contra hno
    rw [occurs, search_reference_none (ne_dollar_of_not_hasRef he hno)] at h
    cases h
  · intro h
    obtain ⟨c, p, rfl, hc⟩ := exists_leftmost_ref h
    rw [occurs, Ctx.search_reference he hc]
    rfl

/-- A tree with a reference is a reference to the reader. -/
theorem classify_of_hasRef {e : Expr} (he : e.WellFormed IsPath) (h : e.HasRef) :
    classify e.print = .reference := by
  have hhex := isHex_of_paren (open_mem_print (not_isLeaf_of_hasRef h))
  rw [classify, hhex, (occurs_reference he).2 h]
  rfl

/-- A tree with a reference is not resolved. -/
theorem hasUnresolved_of_hasRef {e : Expr} (he : e.WellFormed IsPath) (h : e.HasRef) :
    hasUnresolved e.print = true := by
  rw [hasUnresolved, (occurs_reference he).2 h, Bool.true_or]

end Expr

theorem Ctx.classify_call {c : Ctx} {name : Text} {words : List Text}
    (h : (c.fill (.callOf name words)).WellFormed IsPath) (hc : c.Passed Expr.IsLeaf)
    (hno : ¬ (c.fill (.callOf name words)).HasRef) :
    classify (c.fill (.callOf name words)).print = .call := by
  have hleaf : ¬ (c.fill (.callOf name words)).IsLeaf := by
    rintro ⟨w, hw⟩
    cases c <;> cases hw
  have href : occurs referenceAt (c.fill (.callOf name words)).print = false := by
    rw [← Bool.not_eq_true, Expr.occurs_reference h]
    exact hno
  have hcall : occurs callAt (c.fill (.callOf name words)).print = true := by
    rw [occurs, search_call h hc]
    rfl
  rw [classify, isHex_of_paren (Expr.open_mem_print hleaf), href, hcall]
  rfl

end Colourway
