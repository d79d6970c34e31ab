import Colourway.Proofs.Text.Trimmed
import Colourway.Syntax.Call
import Mathlib.Data.List.Forall2
import Mathlib.Data.List.Induction
import Mathlib.Data.List.Infix

/-!
# Arguments and the commas between them

A text is cut at the commas that stand outside its brackets (`splitAtCommas_eq_iff`), so cutting
undoes joining where no text that is joined holds such a comma, and joining undoes cutting but for
the white space around the commas (**`splitArgs_undoes_join`**).

* `nesting` — how deep the end of a text lies in brackets.
* `OuterCuts` — the parts of a text between its outer commas.
* `IsArgument` — a text that is one argument.
-/

namespace Colourway.Syntax

open Text

/-! ## Brackets -/

/-- How deep a character leads on into brackets. A closing bracket without an opening one leads
nowhere. -/
def deeper (depth : Nat) (c : CodePoint) : Nat :=
  if c = '(' then depth + 1 else if c = ')' then depth - 1 else depth

/-- How deep the end of a text lies in brackets, if its start lies at `depth`. -/
def nesting (depth : Nat) (s : Text) : Nat := s.foldl deeper depth

/-- A text that starts at `depth` and holds no comma outside brackets. -/
def NoOuterComma (depth : Nat) (s : Text) : Prop :=
  ∀ before after, s = before ++ .char ',' :: after → nesting depth before ≠ 0

variable {depth : Nat} {c : CodePoint} {s w : Text}

theorem nesting_cons : nesting depth (c :: s) = nesting (deeper depth c) s := rfl

theorem noOuterComma_nil : NoOuterComma depth [] := by
  intro before after h
  cases before <;> cases h

theorem noOuterComma_cons_iff : NoOuterComma depth (c :: s) ↔
    ¬(c = .char ',' ∧ depth = 0) ∧ NoOuterComma (deeper depth c) s := by
  constructor
  · intro h
    refine ⟨?_, fun before after heq => ?_⟩
    · rintro ⟨rfl, rfl⟩
      exact h [] s rfl rfl
    · exact h (c :: before) after (by rw [heq, List.cons_append])
  · rintro ⟨hhere, hlater⟩ before after heq
    cases before with
    | nil =>
      obtain ⟨rfl, -⟩ := List.cons.inj heq
      exact fun hzero => hhere ⟨rfl, hzero⟩
    | cons d before =>
      obtain ⟨rfl, hs⟩ := List.cons.inj heq
      exact hlater before after hs

/-! ## Cutting at commas -/

/-- The parts of a text between its commas outside brackets; the start of the text lies at `depth`. -/
inductive OuterCuts : Nat → Text → List Text → Prop
  /-- A text without such commas is one part. -/
  | last {depth : Nat} {w : Text} (inner : NoOuterComma depth w) : OuterCuts depth w [w]
  /-- A comma outside brackets ends a part. -/
  | comma {depth : Nat} {w s : Text} {parts : List Text} (inner : NoOuterComma depth w)
    (closed : nesting depth w = 0) (rest : OuterCuts 0 s parts) :
    OuterCuts depth (w ++ .char ',' :: s) (w :: parts)

theorem splitAtCommas_ne_nil (depth : Nat) (s : Text) : splitAtCommas depth s ≠ [] := by
  cases s with
  | nil => exact List.cons_ne_nil _ _
  | cons c s =>
    rw [splitAtCommas]
    split
    · exact List.cons_ne_nil _ _
    · dsimp only
      split
      · exact List.cons_ne_nil _ _
      · exact List.cons_ne_nil _ _

/-- Any other character than an outer comma belongs to the first part. -/
theorem splitAtCommas_cons (h : ¬(c = .char ',' ∧ depth = 0)) :
    splitAtCommas depth (c :: s) = (splitAtCommas (deeper depth c) s).modifyHead (c :: ·) := by
  rw [splitAtCommas, if_neg h]
  obtain ⟨part, parts, hparts⟩ :=
    List.exists_cons_of_ne_nil (splitAtCommas_ne_nil (deeper depth c) s)
  rw [hparts]
  unfold deeper at hparts
  dsimp only
  rw [hparts]
  rfl

/-- What stands in front of the first outer comma belongs to the first part. -/
theorem splitAtCommas_append (h : NoOuterComma depth w) :
    splitAtCommas depth (w ++ s) = (splitAtCommas (nesting depth w) s).modifyHead (w ++ ·) := by
  induction w generalizing depth with
  | nil => exact (congrFun List.modifyHead_id (splitAtCommas depth s)).symm
  | cons c w ih =>
    obtain ⟨hhere, hlater⟩ := noOuterComma_cons_iff.mp h
    rw [List.cons_append, splitAtCommas_cons hhere, ih hlater, nesting_cons,
      List.modifyHead_modifyHead]
    rfl

theorem splitAtCommas_of_cuts {parts : List Text} (h : OuterCuts depth s parts) :
    splitAtCommas depth s = parts := by
  induction h with
  | last inner =>
    rename_i depth w
    have happend := splitAtCommas_append (s := []) inner
    rw [List.append_nil] at happend
    rw [happend, splitAtCommas, List.modifyHead_cons, List.append_nil]
  | comma inner closed rest ih =>
    rw [splitAtCommas_append inner, closed, splitAtCommas, if_pos ⟨rfl, rfl⟩,
      List.modifyHead_cons, List.append_nil, ih]

theorem exists_outerCuts (depth : Nat) (s : Text) : ∃ parts, OuterCuts depth s parts := by
  induction s generalizing depth with
  | nil => exact ⟨_, .last noOuterComma_nil⟩
  | cons c s ih =>
    by_cases h : c = .char ',' ∧ depth = 0
    · obtain ⟨rfl, rfl⟩ := h
      obtain ⟨parts, hparts⟩ := ih 0
      exact ⟨_, .comma (w := []) noOuterComma_nil rfl hparts⟩
    · obtain ⟨parts, hparts⟩ := ih (deeper depth c)
      cases hparts with
      | last inner => exact ⟨_, .last (noOuterComma_cons_iff.mpr ⟨h, inner⟩)⟩
      | comma inner closed rest =>
        exact ⟨_, .comma (w := c :: _) (noOuterComma_cons_iff.mpr ⟨h, inner⟩) closed rest⟩

/-- **A text is cut at its commas outside brackets.** -/
theorem splitAtCommas_eq_iff {parts : List Text} :
    splitAtCommas depth s = parts ↔ OuterCuts depth s parts := by
  refine ⟨?_, splitAtCommas_of_cuts⟩
  rintro rfl
  obtain ⟨parts, hparts⟩ := exists_outerCuts depth s
  rwa [splitAtCommas_of_cuts hparts]

/-! ## Joining -/

theorem join_cons {separator w : Text} {parts : List Text} (h : parts ≠ []) :
    Text.join separator (w :: parts) = w ++ separator ++ Text.join separator parts := by
  obtain ⟨v, parts, rfl⟩ := List.exists_cons_of_ne_nil h
  exact List.intercalate_cons_cons

theorem OuterCuts.ne_nil {parts : List Text} (h : OuterCuts depth s parts) : parts ≠ [] := by
  cases h <;> exact List.cons_ne_nil _ _

/-- The parts with the commas between them are the text. -/
theorem OuterCuts.join {parts : List Text} (h : OuterCuts depth s parts) :
    Text.join "," parts = s := by
  induction h with
  | last inner => exact List.intercalate_singleton
  | comma inner closed rest ih =>
    rw [join_cons rest.ne_nil, ih, List.append_assoc]
    rfl

/-- Texts without outer commas that close their brackets are the parts of their join. -/
theorem outerCuts_join {w : Text} {parts : List Text}
    (h : ∀ v ∈ w :: parts, NoOuterComma 0 v ∧ nesting 0 v = 0) :
    OuterCuts 0 (Text.join "," (w :: parts)) (w :: parts) := by
  obtain ⟨inner, closed⟩ := h w List.mem_cons_self
  induction parts generalizing w with
  | nil =>
    have hjoin : Text.join "," [w] = w := List.intercalate_singleton
    rw [hjoin]
    exact .last inner
  | cons v parts ih =>
    have hrest : ∀ u ∈ v :: parts, NoOuterComma 0 u ∧ nesting 0 u = 0 :=
      fun u hu => h u (List.mem_cons_of_mem _ hu)
    obtain ⟨inner', closed'⟩ := hrest v List.mem_cons_self
    rw [join_cons (List.cons_ne_nil _ _), List.append_assoc]
    exact .comma inner closed (ih hrest inner' closed')

/-! ## Arguments -/

/-- A text that is one argument: trimmed, with brackets that match and no comma outside them. -/
structure IsArgument (s : Text) : Prop where
  /-- No white space is around it. -/
  trimmed : Trimmed s
  /-- Every bracket that is opened is closed. -/
  closed : s.count (.char ')') = s.count (.char '(')
  /-- No bracket is closed that is not open. -/
  opened : ∀ before, before <+: s → before.count (.char ')') ≤ before.count (.char '(')
  /-- Around every comma a bracket is open. -/
  inner : ∀ before after, s = before ++ .char ',' :: after →
    before.count (.char ')') < before.count (.char '(')

/-- Whether a text is one argument, seen from its beginnings. -/
def isArgument (s : Text) : Bool :=
  trim s == s && s.count (.char ')') == s.count (.char '(') && s.inits.all fun before =>
    decide (before.count (.char ')') ≤ before.count (.char '(')) &&
      (before.getLast? != some (.char ',') ||
        decide (before.count (.char ')') < before.count (.char '(')))

theorem count_comma {bracket : CodePoint} (h : bracket ≠ .char ',') (s : Text) :
    (s ++ [CodePoint.char ',']).count bracket = s.count bracket := by
  rw [List.count_append, List.count_singleton, if_neg (by simpa using h.symm), Nat.add_zero]

theorem isArgument_iff : isArgument s = true ↔ IsArgument s := by
  simp only [isArgument, Bool.and_eq_true, beq_iff_eq, List.all_eq_true, List.mem_inits,
    decide_eq_true_eq, Bool.or_eq_true, bne_iff_ne, ← imp_iff_not_or]
  constructor
  · rintro ⟨⟨trimmed, closed⟩, hall⟩
    refine ⟨trimmed, closed, fun before h => (hall before h).1, ?_⟩
    rintro before after rfl
    have hcomma := (hall (before ++ [.char ',']) ⟨after, by simp⟩).2 List.getLast?_concat
    rwa [count_comma (by decide), count_comma (by decide)] at hcomma
  · rintro ⟨trimmed, closed, opened, inner⟩
    refine ⟨⟨trimmed, closed⟩, fun before h => ⟨opened before h, fun hlast => ?_⟩⟩
    obtain ⟨after, rfl⟩ := h
    obtain ⟨before, rfl⟩ := List.getLast?_eq_some_iff.mp hlast
    rw [count_comma (by decide), count_comma (by decide)]
    exact inner before after (by simp)

instance (s : Text) : Decidable (IsArgument s) := decidable_of_iff _ isArgument_iff

/-- Where no bracket is closed that is not open, the open ones are those not closed yet. -/
theorem nesting_eq_count (h : ∀ before, before <+: s →
    before.count (.char ')') ≤ before.count (.char '(')) :
    nesting 0 s + s.count (.char ')') = s.count (.char '(') := by
  induction s using List.reverseRecOn with
  | nil => rfl
  | append_singleton s c ih =>
    have hs := ih fun before hbefore => h before (hbefore.trans (List.prefix_append s [c]))
    have hc := h (s ++ [c]) List.prefix_rfl
    have hstep : nesting 0 (s ++ [c]) = deeper (nesting 0 s) c := List.foldl_concat _ _ _ _
    rw [List.count_append, List.count_append] at hc ⊢
    rw [hstep, deeper]
    by_cases hopen : c = .char '('
    · subst hopen
      rw [if_pos rfl, List.count_singleton_self, List.count_singleton, if_neg (by decide)]
      omega
    by_cases hclose : c = .char ')'
    · subst hclose
      rw [List.count_singleton_self, List.count_singleton, if_neg (by decide)] at hc
      rw [if_neg (by decide), if_pos rfl, List.count_singleton_self, List.count_singleton,
        if_neg (by decide)]
      omega
    · rw [if_neg hopen, if_neg hclose, List.count_singleton, List.count_singleton,
        if_neg (by simpa using hclose), if_neg (by simpa using hopen)]
      omega

theorem IsArgument.outer (h : IsArgument s) : NoOuterComma 0 s ∧ nesting 0 s = 0 := by
  refine ⟨fun before after heq hzero => ?_, ?_⟩
  · have hopen := nesting_eq_count fun b hb =>
      h.opened b (hb.trans ⟨.char ',' :: after, heq.symm⟩)
    have hcomma := h.inner before after heq
    omega
  · have hall := nesting_eq_count h.opened
    have hclosed := h.closed
    omega

theorem join_cons_head (separator w : Text) (c : CodePoint) (parts : List Text) :
    Text.join separator ((c :: w) :: parts) = c :: Text.join separator (w :: parts) := by
  cases parts with
  | nil => rfl
  | cons v parts =>
    rw [join_cons (List.cons_ne_nil _ _), join_cons (List.cons_ne_nil _ _), List.append_assoc,
      List.append_assoc, List.cons_append]

/-- The space behind a comma can be put in front of what follows. -/
theorem join_comma_space (t : Text) (texts : List Text) :
    Text.join ", " (t :: texts) = Text.join "," (t :: texts.map (.char ' ' :: ·)) := by
  induction texts generalizing t with
  | nil => rfl
  | cons u texts ih =>
    have hspace : (", " : Text) = (",": Text) ++ [.char ' '] := rfl
    rw [join_cons (List.cons_ne_nil _ _), ih, List.map_cons, join_cons (List.cons_ne_nil _ _),
      join_cons_head, hspace]
    simp

/-- White space in front of an argument holds no comma and no bracket. -/
theorem IsArgument.outer_space (h : IsArgument s) :
    NoOuterComma 0 (.char ' ' :: s) ∧ nesting 0 (.char ' ' :: s) = 0 :=
  ⟨noOuterComma_cons_iff.mpr ⟨by simp, h.outer.1⟩, h.outer.2⟩

theorem IsArgument.trim_space (h : IsArgument s) : trim (.char ' ' :: s) = s := by
  have hspace : allBlank [.char ' '] = true := by decide
  calc trim (.char ' ' :: s) = trim s := trim_lead hspace
    _ = s := h.trimmed

/-- A join that holds a comma or some argument is not blank. -/
theorem not_allBlank_join {t : Text} {texts : List Text} (hne : t :: texts ≠ [[]])
    (h : IsArgument t) : ¬ allBlank (Text.join ", " (t :: texts)) = true := by
  intro hblank
  cases texts with
  | nil =>
    have hjoin : Text.join ", " [t] = t := List.intercalate_singleton
    rw [hjoin, ← trim_eq_nil_iff] at hblank
    exact hne (by rw [← h.trimmed, hblank])
  | cons u texts =>
    rw [join_cons (List.cons_ne_nil _ _)] at hblank
    have hcomma := allBlank_iff.mp hblank (.char ',') (by simp [ofString])
    exact absurd hcomma (by decide)

/-- **The arguments of a join are the texts that were joined**, unless that is a single empty
text. -/
theorem splitArgs_join_arguments {texts : List Text} (hne : texts ≠ [[]])
    (h : ∀ t ∈ texts, IsArgument t) : splitArgs (Text.join ", " texts) = texts := by
  cases texts with
  | nil => rfl
  | cons t texts =>
    have ht : IsArgument t := h t List.mem_cons_self
    have hrest : ∀ u ∈ texts, IsArgument u := fun u hu => h u (List.mem_cons_of_mem _ hu)
    have hcuts : OuterCuts 0 (Text.join ", " (t :: texts)) (t :: texts.map (.char ' ' :: ·)) := by
      rw [join_comma_space]
      refine outerCuts_join fun v hv => ?_
      rcases List.mem_cons.mp hv with rfl | hv
      · exact ht.outer
      · obtain ⟨u, hu, rfl⟩ := List.mem_map.mp hv
        exact (hrest u hu).outer_space
    rw [splitArgs, if_neg (not_allBlank_join hne ht), splitAtCommas_eq_iff.mpr hcuts,
      List.map_cons, ht.trimmed, List.map_map]
    congr 1
    calc texts.map (trim ∘ (.char ' ' :: ·)) = texts.map id :=
          List.map_congr_left fun u hu => (hrest u hu).trim_space
      _ = texts := List.map_id texts

/-- A text with white space around it. -/
def Padded (padded s : Text) : Prop :=
  ∃ lead trail, allBlank lead = true ∧ allBlank trail = true ∧ padded = lead ++ s ++ trail

/-- **Cutting into arguments undoes joining** texts that are one argument each, unless there is
nothing but a single empty text.  **Joining undoes cutting** but for white space at the ends of the
text and next to the commas outside its brackets. -/
theorem splitArgs_undoes_join :
    (∀ texts : List Text, texts ≠ [[]] → (∀ t ∈ texts, IsArgument t) →
      splitArgs (Text.join ", " texts) = texts) ∧
    (∀ args : Text, allBlank args = false → ∃ parts, OuterCuts 0 args parts ∧
      Text.join "," parts = args ∧ List.Forall₂ Padded parts (splitArgs args)) := by
  refine ⟨fun texts hne h => splitArgs_join_arguments hne h, fun args hvisible => ?_⟩
  have hcuts : OuterCuts 0 args (splitAtCommas 0 args) := splitAtCommas_eq_iff.mp rfl
  refine ⟨_, hcuts, hcuts.join, ?_⟩
  rw [splitArgs, if_neg (by rw [hvisible]; decide), List.forall₂_map_right_iff, List.forall₂_same]
  exact fun part _ => exists_padding part

/-- Two calls with commas of their own and an empty text between them. -/
def twoCalls : List Text := ["mix(a, b)", "", "f(g(x), y)"]

/-- The calls are the arguments again, and a closing bracket too many keeps no comma inside. -/
theorem calls_split_and_joined :
    twoCalls ≠ [[]] ∧ (∀ t ∈ twoCalls, IsArgument t) ∧
    splitArgs (Text.join ", " twoCalls) = twoCalls ∧
    allBlank " a ,b) , (c , d)" = false ∧ ∃ parts, OuterCuts 0 " a ,b) , (c , d)" parts ∧
      Text.join "," parts = " a ,b) , (c , d)" ∧
      List.Forall₂ Padded parts (splitArgs " a ,b) , (c , d)") := by
  obtain ⟨hsplit, hjoin⟩ := splitArgs_undoes_join
  have hne : twoCalls ≠ [[]] := by decide
  have harguments : ∀ t ∈ twoCalls, IsArgument t := by decide +kernel
  have hvisible : allBlank " a ,b) , (c , d)" = false := by decide
  exact ⟨hne, harguments, hsplit twoCalls hne harguments, hvisible, hjoin _ hvisible⟩

end Colourway.Syntax
