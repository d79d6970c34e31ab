import Colourway.Proofs.Syntax.Expression

/-!
# Texts of trees

* `Expr.print_injective` — no two well-formed trees have the same text.
* `Expr.expandAliases_print` — the text of a well-formed tree holds no aliases.

Both are proved of a tree in front of what may follow it, by induction on the tree.
-/

namespace Colourway

open Text Syntax

namespace Expr

/-! ## Different trees have different texts -/

/-- A text that starts with what may follow an argument. -/
def Ends (z : Text) : Prop := ∃ c z', z = c :: z' ∧ (c = .char ',' ∨ c = .char ')')

theorem ends_close (z : Text) : Ends (.char ')' :: z) := ⟨_, z, rfl, Or.inr rfl⟩

theorem ends_printRest (rest : List Expr) (z : Text) : Ends (printRest rest ++ .char ')' :: z) := by
  cases rest with
  | nil => exact ends_close z
  | cons e rest => exact ⟨.char ',', _, rfl, Or.inl rfl⟩

theorem isMark_of_end {c : CodePoint} (h : c = .char ',' ∨ c = .char ')') : isMark c = true := by
  rcases h with rfl | rfl <;> rfl

/-- The text of a tree starts with no closing bracket. -/
theorem print_ne_close {e : Expr} (h : e.WellFormed IsPath) {s z : Text} :
    e.print ++ s ≠ .char ')' :: z := by
  intro heq
  cases h with
  | word hw =>
    rename_i w
    cases w with
    | nil => exact hw.nonempty rfl
    | cons c w =>
      have hc := hw.unmarked c List.mem_cons_self
      cases heq
      cases hc
  | ref hp => cases heq
  | call hname hargs =>
    rename_i name args
    cases name with
    | nil => exact hname.nonempty rfl
    | cons c name =>
      have hc := hname.unmarked (c := c) List.mem_cons_self
      cases heq
      cases hc

theorem print_ref_append (p z : Text) :
    (ref p).print ++ z = .char '$' :: .char '(' :: (p ++ .char ')' :: z) := by
  simp [print, Text.ofString]

theorem print_call_append (name : Text) (args : List Expr) (z : Text) :
    (call name args).print ++ z = name ++ .char '(' :: (printArgs args ++ .char ')' :: z) := by
  simp [print, Text.ofString]

theorem printRest_cons_append (e : Expr) (rest : List Expr) (z : Text) :
    printRest (e :: rest) ++ z = .char ',' :: .char ' ' :: (e.print ++ (printRest rest ++ z)) := by
  simp [printRest, Text.ofString]

theorem printArgs_cons_append (e : Expr) (rest : List Expr) (z : Text) :
    printArgs (e :: rest) ++ z = e.print ++ (printRest rest ++ z) := by
  simp [printArgs]

/-- A tree whose text, with something behind it that may follow an argument, is the text of no other
tree. -/
def Readable (e : Expr) : Prop := ∀ (e' : Expr), e'.WellFormed IsPath → ∀ z z', Ends z → Ends z' →
  e.print ++ z = e'.print ++ z' → e = e' ∧ z = z'

theorem printRest_append_inj (args : List Expr) (readable : ∀ e ∈ args, e.Readable) :
    ∀ (args' : List Expr), (∀ e ∈ args', e.WellFormed IsPath) → ∀ z z',
      printRest args ++ .char ')' :: z = printRest args' ++ .char ')' :: z' →
      args = args' ∧ z = z' := by
  induction args with
  | nil =>
    intro args' _ z z' h
    cases args' with
    | nil => exact ⟨rfl, List.cons_inj_right _ |>.1 h⟩
    | cons e' args' =>
      rw [printRest_cons_append] at h
      cases h
  | cons e args ih =>
    intro args' hargs' z z' h
    rw [printRest_cons_append] at h
    cases args' with
    | nil => cases h
    | cons e' args' =>
      rw [printRest_cons_append, List.cons_inj_right, List.cons_inj_right] at h
      obtain ⟨rfl, hrest⟩ := readable e List.mem_cons_self e' (hargs' e' List.mem_cons_self) _ _
        (ends_printRest args z) (ends_printRest args' z') h
      obtain ⟨rfl, rfl⟩ := ih (fun a ha => readable a (List.mem_cons_of_mem _ ha)) args'
        (fun a ha => hargs' a (List.mem_cons_of_mem _ ha)) z z' hrest
      exact ⟨rfl, rfl⟩

theorem printArgs_append_inj {args : List Expr} (hargs : ∀ e ∈ args, e.WellFormed IsPath)
    (readable : ∀ e ∈ args, e.Readable) {args' : List Expr}
    (hargs' : ∀ e ∈ args', e.WellFormed IsPath) {z z' : Text}
    (h : printArgs args ++ .char ')' :: z = printArgs args' ++ .char ')' :: z') :
    args = args' ∧ z = z' := by
  cases args with
  | nil =>
    cases args' with
    | nil => exact ⟨rfl, List.cons_inj_right _ |>.1 h⟩
    | cons e' args' =>
      rw [printArgs_cons_append] at h
      exact absurd h.symm (print_ne_close (hargs' e' List.mem_cons_self))
  | cons e args =>
    rw [printArgs_cons_append] at h
    cases args' with
    | nil => exact absurd h (print_ne_close (hargs e List.mem_cons_self))
    | cons e' args' =>
      rw [printArgs_cons_append] at h
      obtain ⟨rfl, hrest⟩ := readable e List.mem_cons_self e' (hargs' e' List.mem_cons_self) _ _
        (ends_printRest args z) (ends_printRest args' z') h
      obtain ⟨rfl, rfl⟩ := printRest_append_inj args
        (fun a ha => readable a (List.mem_cons_of_mem _ ha)) args'
        (fun a ha => hargs' a (List.mem_cons_of_mem _ ha)) z z' hrest
      exact ⟨rfl, rfl⟩

/-- A text of unmarked characters is no reference and no call. -/
theorem word_append_ne {w z : Text} (hw : IsWord w) (hz : Ends z) {e : Expr}
    (he : e.WellFormed IsPath) (z' : Text) (hword : ∀ w', e ≠ word w') :
    w ++ z ≠ e.print ++ z' := by
  obtain ⟨c, z, rfl, hc⟩ := hz
  have hmark := isMark_of_end hc
  intro h
  cases he with
  | word _ => exact hword _ rfl
  | ref _ =>
    rw [print_ref_append] at h
    obtain ⟨rfl, -⟩ := run_unique isMark (a := [])
      (fun _ hx => absurd hx List.not_mem_nil) rfl hw.unmarked hmark h.symm
    exact hw.nonempty rfl
  | call hname _ =>
    rw [print_call_append] at h
    obtain ⟨-, rfl, -⟩ :=
      run_unique isMark hw.unmarked hmark (fun _ hx => hname.unmarked hx) rfl h
    rcases hc with hc | hc <;> cases hc

theorem ref_append_ne_call {p z : Text} {name : Text} (hname : IsName name) (args : List Expr)
    (z' : Text) : (ref p).print ++ z ≠ (call name args).print ++ z' := by
  intro h
  rw [print_ref_append, print_call_append] at h
  obtain ⟨rfl, -⟩ := run_unique isMark (a := [])
    (fun _ hx => absurd hx List.not_mem_nil) rfl (fun _ hx => hname.unmarked hx) rfl h
  exact hname.nonempty rfl

theorem readable_word {w : Text} (hw : IsWord w) : (word w).Readable := by
  intro e' he' z z' hz hz' h
  cases he' with
  | word hw' =>
    rename_i w'
    obtain ⟨c, z, rfl, hc⟩ := hz
    obtain ⟨c', z', rfl, hc'⟩ := hz'
    obtain ⟨rfl, rfl, rfl⟩ :=
      run_unique isMark hw.unmarked (isMark_of_end hc) hw'.unmarked (isMark_of_end hc') h
    exact ⟨rfl, rfl⟩
  | ref hp => exact absurd h (word_append_ne hw hz (.ref hp) z' fun _ hc => by cases hc)
  | call hname hargs =>
    exact absurd h (word_append_ne hw hz (.call hname hargs) z' fun _ hc => by cases hc)

theorem readable_ref {p : Text} (hp : IsPath p) : (ref p).Readable := by
  intro e' he' z z' _ hz' h
  cases he' with
  | word hw' => exact absurd h.symm (word_append_ne hw' hz' (.ref hp) z fun _ hc => by cases hc)
  | ref hp' =>
    rename_i p'
    rw [print_ref_append, print_ref_append, List.cons_inj_right, List.cons_inj_right] at h
    obtain ⟨rfl, -, rfl⟩ := run_unique isParen (fun x hx => (hp.unmarked x hx).2) rfl
      (fun x hx => (hp'.unmarked x hx).2) rfl h
    exact ⟨rfl, rfl⟩
  | call hname hargs => exact absurd h (ref_append_ne_call hname _ _)

theorem readable_call {name : Text} {args : List Expr} (hname : IsName name)
    (hargs : ∀ e ∈ args, e.WellFormed IsPath) (readable : ∀ e ∈ args, e.Readable) :
    (call name args).Readable := by
  intro e' he' z z' _ hz' h
  cases he' with
  | word hw' =>
    exact absurd h.symm (word_append_ne hw' hz' (.call hname hargs) z fun _ hc => by cases hc)
  | ref _ => exact absurd h.symm (ref_append_ne_call hname _ _)
  | call hname' hargs' =>
    rename_i name' args'
    rw [print_call_append, print_call_append] at h
    obtain ⟨rfl, -, h⟩ := run_unique isMark (fun _ hx => hname.unmarked hx) rfl
      (fun _ hx => hname'.unmarked hx) rfl h
    obtain ⟨rfl, rfl⟩ := printArgs_append_inj hargs readable hargs' h
    exact ⟨rfl, rfl⟩

/-- A well-formed tree can be told from its text, whatever may follow an argument. -/
theorem readable {e : Expr} (he : e.WellFormed IsPath) : e.Readable := by
  induction e with
  | word w =>
    cases he with
    | word hw => exact readable_word hw
  | ref p =>
    cases he with
    | ref hp => exact readable_ref hp
  | call name args ih =>
    cases he with
    | call hname hargs => exact readable_call hname hargs fun a ha => ih a ha (hargs a ha)

/-- **Printing loses nothing.** -/
theorem print_injective {e e' : Expr} (he : e.WellFormed IsPath) (he' : e'.WellFormed IsPath)
    (h : e.print = e'.print) : e = e' := by
  refine (readable he e' he' [.char ')'] [.char ')'] (ends_close []) (ends_close []) ?_).1
  rw [h]

/-! ## Trees hold no aliases -/

section Aliases

variable {palette : Text}

theorem expandAliases_cons {c : CodePoint} {s : Text} (h : aliasAt (c :: s) = none) :
    expandAliases palette (c :: s) = c :: expandAliases palette s := by
  rw [expandAliases]
  split
  · next hit hhit =>
    rw [h] at hhit
    cases hhit
  · rfl

theorem aliasAt_of_ne {c : CodePoint} (h : c ≠ .char '$') (s : Text) : aliasAt (c :: s) = none := by
  unfold aliasAt
  split
  · next heq => exact absurd (List.cons.inj heq).1 h
  · rfl

/-- Aliases start with a dollar sign. -/
theorem expandAliases_append {a : Text} (ha : ∀ c ∈ a, c ≠ .char '$') (z : Text) :
    expandAliases palette (a ++ z) = a ++ expandAliases palette z := by
  induction a with
  | nil => rfl
  | cons c a ih =>
    rw [List.cons_append, expandAliases_cons (aliasAt_of_ne (ha c List.mem_cons_self) _),
      ih fun d hd => ha d (List.mem_cons_of_mem _ hd), List.cons_append]

theorem ne_dollar {c : CodePoint} (h : isMark c = false) : c ≠ .char '$' := by
  rintro rfl
  cases h

/-- A tree whose text holds no aliases, not even across its end. -/
def AliasFree (palette : Text) (e : Expr) : Prop :=
  ∀ z, expandAliases palette (e.print ++ z) = e.print ++ expandAliases palette z

theorem expandAliases_printRest {args : List Expr} (h : ∀ e ∈ args, e.AliasFree palette)
    (z : Text) :
    expandAliases palette (printRest args ++ z) = printRest args ++ expandAliases palette z := by
  induction args with
  | nil => rfl
  | cons e args ih =>
    rw [printRest_cons_append, expandAliases_cons (aliasAt_of_ne (by decide) _),
      expandAliases_cons (aliasAt_of_ne (by decide) _), h e List.mem_cons_self,
      ih fun a ha => h a (List.mem_cons_of_mem _ ha), printRest_cons_append]

theorem expandAliases_printArgs {args : List Expr} (h : ∀ e ∈ args, e.AliasFree palette)
    (z : Text) :
    expandAliases palette (printArgs args ++ z) = printArgs args ++ expandAliases palette z := by
  cases args with
  | nil => rfl
  | cons e args =>
    rw [printArgs_cons_append, h e List.mem_cons_self,
      expandAliases_printRest fun a ha => h a (List.mem_cons_of_mem _ ha), printArgs_cons_append]

theorem aliasFree {e : Expr} (he : e.WellFormed IsPath) : e.AliasFree palette := by
  induction e with
  | word w =>
    cases he with
    | word hw => exact expandAliases_append fun c hc => ne_dollar (hw.unmarked c hc)
  | ref p =>
    cases he with
    | ref hp =>
      intro z
      -- The dollar sign of a reference is followed by a bracket.
      rw [print_ref_append, expandAliases_cons (by rfl),
        expandAliases_cons (aliasAt_of_ne (by decide) _),
        expandAliases_append fun c hc => (hp.unmarked c hc).1,
        expandAliases_cons (aliasAt_of_ne (by decide) _), print_ref_append]
  | call name args ih =>
    cases he with
    | call hname hargs =>
      intro z
      rw [print_call_append, expandAliases_append fun c hc => ne_dollar (hname.unmarked hc),
        expandAliases_cons (aliasAt_of_ne (by decide) _),
        expandAliases_printArgs fun a ha => ih a ha (hargs a ha),
        expandAliases_cons (aliasAt_of_ne (by decide) _), print_call_append]

/-- Expanding aliases leaves the text of a tree as it is. -/
theorem expandAliases_print {e : Expr} (he : e.WellFormed IsPath) :
    expandAliases palette e.print = e.print := by
  have h : expandAliases palette (e.print ++ []) = e.print ++ expandAliases palette [] :=
    aliasFree he []
  rw [List.append_nil] at h
  rw [h, expandAliases]
  exact List.append_nil _

end Aliases

end Expr

end Colourway
