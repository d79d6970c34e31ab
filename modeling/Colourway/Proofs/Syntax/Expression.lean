import Colourway.Proofs.Syntax.Search
import Colourway.Proofs.Text.Trimmed
import Colourway.Syntax.Kind

/-!
# Expression trees and their texts

Values are texts, but those that people write have the shape of trees.

* `Expr` — words, references in round brackets, and calls; `Expr.print` writes a tree as a text.
* `Expr.WellFormed` — trees whose parts can be told apart in their text.
* `Ctx` — a tree with a hole; `Ctx.before` and `Ctx.after` are the texts around the hole.
* `Expr.exists_leftmost` — a tree with parts of some kind has a leftmost one.
-/

namespace Colourway

open Text Syntax

/-! ## Trees -/

/-- An expression as a tree. -/
inductive Expr where
  /-- A text that stands for itself. -/
  | word (text : Text)
  /-- The reference to a path. -/
  | ref (path : Text)
  /-- A call with its arguments. -/
  | call (name : Text) (args : List Expr)

/-- The text of a call. -/
def callText (name : Text) (args : List Text) : Text := name ++ "(" ++ Text.join ", " args ++ ")"

namespace Expr

/-- What holds of words and references, and of a call if it holds of its arguments, holds of every
tree. -/
@[elab_as_elim, induction_eliminator]
theorem induction {motive : Expr → Prop} (word : ∀ text, motive (word text))
    (ref : ∀ path, motive (ref path))
    (call : ∀ name args, (∀ e ∈ args, motive e) → motive (call name args)) : ∀ e, motive e
  | .word text => word text
  | .ref path => ref path
  | .call name args => call name args fun e _ => induction word ref call e

mutual

/-- The text of a tree. -/
def print : Expr → Text
  | word text => text
  | ref path => "$(" ++ path ++ ")"
  | call name args => name ++ "(" ++ printArgs args ++ ")"

/-- The text of arguments. -/
def printArgs : List Expr → Text
  | [] => []
  | e :: rest => print e ++ printRest rest

/-- The text of arguments that follow another one. -/
def printRest : List Expr → Text
  | [] => []
  | e :: rest => ", " ++ print e ++ printRest rest

end

theorem printArgs_eq_join (args : List Expr) :
    printArgs args = Text.join ", " (args.map print) := by
  cases args with
  | nil => rfl
  | cons e rest =>
    rw [printArgs, List.map_cons]
    induction rest generalizing e with
    | nil => simp [printRest, Text.join]
    | cons e' rest ih =>
      rw [printRest, List.append_assoc, ih e']
      simp [Text.join, List.intercalate_cons_cons]

/-- A call is written as its name and the texts of its arguments. -/
theorem print_call (name : Text) (args : List Expr) :
    print (call name args) = callText name (args.map print) := by
  rw [print, callText, printArgs_eq_join]

/-- One tree is part of another one. -/
inductive Within (x : Expr) : Expr → Prop where
  /-- A tree is part of itself. -/
  | here : Within x x
  /-- What is part of an argument is part of the call. -/
  | arg {name : Text} {args : List Expr} {e : Expr} : e ∈ args → Within x e →
      Within x (call name args)

/-- A tree that refers to some path. -/
def HasRef (e : Expr) : Prop := ∃ p, Within (ref p) e

end Expr

/-! ## Texts that words, paths and names may be -/

/-- A character that marks references and calls. -/
def isMark (c : CodePoint) : Bool := c == '$' || c == '(' || c == ')' || c == ','

/-- A number sign with six or eight hexadecimal digits. -/
def IsHexLiteral (s : Text) : Prop :=
  ∃ digits, s = .char '#' :: digits ∧ (∀ d ∈ digits, isHexDigit d = true) ∧
    (digits.length = 6 ∨ digits.length = 8)

/-- A text that stands for itself: a long hex literal, or any other plain text. -/
structure IsWord (s : Text) : Prop where
  /-- There is some text. -/
  nonempty : s ≠ []
  /-- No white space is around it. -/
  trimmed : Trimmed s
  /-- It holds no dollar sign, round bracket or comma. -/
  unmarked : ∀ c ∈ s, isMark c = false
  /-- It is no hex literal of three or four digits. -/
  not_short : isShortHex s = false

/-- A path that a reference can name. -/
structure IsPath (p : Text) : Prop where
  /-- There is some text. -/
  nonempty : p ≠ []
  /-- No white space is around it. -/
  trimmed : Trimmed p
  /-- It holds no dollar sign or round bracket. -/
  unmarked : ∀ c ∈ p, c ≠ .char '$' ∧ isParen c = false

/-- A name that a call can bear. -/
structure IsName (name : Text) : Prop where
  /-- There is some text. -/
  nonempty : name ≠ []
  /-- It is made of word characters. -/
  word : ∀ c ∈ name, Text.isWord c = true

/-- Trees whose texts read as they were meant; `P` holds of the paths that they refer to. -/
inductive Expr.WellFormed (P : Text → Prop) : Expr → Prop where
  /-- A word. -/
  | word {text : Text} : IsWord text → WellFormed P (.word text)
  /-- A reference. -/
  | ref {path : Text} : P path → WellFormed P (.ref path)
  /-- A call. -/
  | call {name : Text} {args : List Expr} : IsName name → (∀ e ∈ args, WellFormed P e) →
      WellFormed P (.call name args)

/-- The paths that a well-formed tree refers to are as they should be. -/
theorem Expr.WellFormed.of_within {P : Text → Prop} {e : Expr} {p : Text} (he : e.WellFormed P)
    (h : Within (.ref p) e) : P p := by
  induction he with
  | word _ => cases h
  | ref hp =>
    cases h
    exact hp
  | call _ _ ih =>
    cases h with
    | arg hmem hw => exact ih _ hmem hw

/-- Well-formedness depends on the paths that the tree refers to. -/
theorem Expr.WellFormed.mono {P Q : Text → Prop} {e : Expr} (he : e.WellFormed P)
    (h : ∀ p, Within (.ref p) e → P p → Q p) : e.WellFormed Q := by
  induction he with
  | word hw => exact .word hw
  | ref hp => exact .ref (h _ .here hp)
  | call hname _ ih => exact .call hname fun a ha => ih a ha fun p hp => h p (.arg ha hp)

theorem isMark_of_isWord {c : CodePoint} (h : isWord c = true) : isMark c = false := by
  cases hm : isMark c with
  | false => rfl
  | true =>
    have hmem : c ∈ Text.ofString "$(), " := by
      simp only [isMark, Bool.or_eq_true, beq_iff_eq] at hm
      rcases hm with ((rfl | rfl) | rfl) | rfl <;> decide
    rw [isWord_mark hmem] at h
    cases h

theorem IsName.unmarked {name : Text} (h : IsName name) {c : CodePoint} (hc : c ∈ name) :
    isMark c = false := isMark_of_isWord (h.word c hc)

/-! ## Hex literals are words -/

theorem isBlank_of_isHexDigit {c : CodePoint} (h : isHexDigit c = true) : isBlank c = false := by
  have hlt : c.toNat < 128 := by
    simp only [isHexDigit, Bool.or_eq_true, Bool.and_eq_true, decide_eq_true_eq] at h
    omega
  have hall : ∀ n < 128, (48 ≤ n && n ≤ 57 || 65 ≤ n && n ≤ 70 || 97 ≤ n && n ≤ 102) = true →
      inRanges blankRanges n = false := by decide +kernel
  exact hall _ hlt h

theorem isMark_of_isHexDigit {c : CodePoint} (h : isHexDigit c = true) : isMark c = false := by
  cases hm : isMark c with
  | false => rfl
  | true =>
    simp only [isMark, Bool.or_eq_true, beq_iff_eq] at hm
    rcases hm with ((rfl | rfl) | rfl) | rfl <;> revert h <;> decide

/-- A long hex literal is a word. -/
theorem IsHexLiteral.isWord {s : Text} (h : IsHexLiteral s) : IsWord s := by
  obtain ⟨digits, rfl, hdigits, hlength⟩ := h
  have hne : digits ≠ [] := by
    rintro rfl
    simp at hlength
  obtain ⟨front, last, rfl⟩ : ∃ front last, digits = front ++ [last] :=
    ⟨_, _, (List.dropLast_append_getLast hne).symm⟩
  have hlast : isHexDigit last = true := hdigits last (by simp)
  refine ⟨List.cons_ne_nil _ _, trimmed_of_ends (by decide) (isBlank_of_isHexDigit hlast), ?_, ?_⟩
  · intro c hc
    rcases List.mem_cons.1 hc with rfl | hc
    · rfl
    · exact isMark_of_isHexDigit (hdigits c hc)
  · have hfeed : last ≠ .char '\n' := by
      rintro rfl
      exact absurd hlast (by decide)
    have hdrop : dropLineEnd (.char '#' :: (front ++ [last])) = .char '#' :: (front ++ [last]) := by
      rw [dropLineEnd, if_neg]
      rw [← List.cons_append, List.getLast?_concat]
      exact fun h => hfeed (Option.some.inj h)
    have hall : (front ++ [last]).all isHexDigit = true := List.all_eq_true.2 hdigits
    have hbody : hexBody? (.char '#' :: (front ++ [last])) = some (front ++ [last]) := by
      rw [hexBody?, hdrop]
      exact if_pos hall
    rw [isShortHex, hbody, Option.any_some]
    rcases hlength with h | h <;> rw [h] <;> rfl

/-! ## Trees with a hole -/

/-- A tree with a hole. -/
inductive Ctx where
  /-- The hole alone. -/
  | here
  /-- A call with the hole in an argument, behind the arguments `done`. -/
  | arg (name : Text) (done : List Expr) (inner : Ctx) (rest : List Expr)

namespace Ctx

/-- The tree with another one in the hole. -/
def fill : Ctx → Expr → Expr
  | here, x => x
  | arg name done inner rest, x => .call name (done ++ inner.fill x :: rest)

/-- The text of arguments with a comma behind each. -/
def lead (done : List Expr) : Text := done.flatMap fun e => e.print ++ ", "

/-- The text in front of the hole. -/
def before : Ctx → Text
  | here => []
  | arg name done inner _ => name ++ "(" ++ lead done ++ inner.before

/-- The text behind the hole. -/
def after : Ctx → Text
  | here => []
  | arg _ _ inner rest => inner.after ++ Expr.printRest rest ++ ")"

/-- Something holds of all arguments in front of the hole. -/
def Passed (Q : Expr → Prop) : Ctx → Prop
  | here => True
  | arg _ done inner _ => (∀ e ∈ done, Q e) ∧ inner.Passed Q

theorem printArgs_append (done : List Expr) (x : Expr) (rest : List Expr) :
    Expr.printArgs (done ++ x :: rest) = lead done ++ x.print ++ Expr.printRest rest := by
  cases done with
  | nil => rfl
  | cons e done =>
    rw [List.cons_append, Expr.printArgs]
    induction done generalizing e with
    | nil => simp [Expr.printRest, lead]
    | cons e' done ih =>
      rw [List.cons_append, Expr.printRest, List.append_assoc, List.append_assoc, ih e']
      simp [lead]

/-- What is in the hole is written between the texts around it. -/
theorem print_fill (c : Ctx) (x : Expr) : (c.fill x).print = c.before ++ x.print ++ c.after := by
  induction c with
  | here => simp [fill, before, after]
  | arg name done inner rest ih =>
    rw [fill, Expr.print, printArgs_append, ih, before, after]
    simp only [List.append_assoc]

theorem within_fill (c : Ctx) (x : Expr) : Expr.Within x (c.fill x) := by
  induction c with
  | here => exact .here
  | arg name done inner rest ih => exact .arg (List.mem_append_right _ List.mem_cons_self) ih

/-- Filling the hole of a well-formed tree with another well-formed tree. -/
theorem wellFormed_fill {P : Text → Prop} {c : Ctx} {x : Expr} (h : (c.fill x).WellFormed P) :
    x.WellFormed P ∧ ∀ y : Expr, y.WellFormed P → (c.fill y).WellFormed P := by
  induction c with
  | here => exact ⟨h, fun _ hy => hy⟩
  | arg name done inner rest ih =>
    cases h with
    | call hname hargs =>
      obtain ⟨hx, hfill⟩ := ih (hargs _ (List.mem_append_right _ List.mem_cons_self))
      refine ⟨hx, fun y hy => .call hname ?_⟩
      intro e he
      rcases List.mem_append.1 he with he | he
      · exact hargs e (List.mem_append_left _ he)
      · rcases List.mem_cons.1 he with rfl | he
        · exact hfill y hy
        · exact hargs e (List.mem_append_right _ (List.mem_cons_of_mem _ he))

/-- A reference stays when something else is put into the hole, unless it was in the hole. -/
theorem within_ref_fill {c : Ctx} {x : Expr} {p : Text} (h : Expr.Within (.ref p) (c.fill x)) :
    Expr.Within (.ref p) x ∨ ∀ y, Expr.Within (.ref p) (c.fill y) := by
  induction c with
  | here => exact Or.inl h
  | arg name done inner rest ih =>
    cases h with
    | arg hmem hw =>
      rcases List.mem_append.1 hmem with he | he
      · exact Or.inr fun y => .arg (List.mem_append_left _ he) hw
      · rcases List.mem_cons.1 he with rfl | he
        · rcases ih hw with hx | hall
          · exact Or.inl hx
          · exact Or.inr fun y => .arg (List.mem_append_right _ List.mem_cons_self) (hall y)
        · exact Or.inr fun y =>
            .arg (List.mem_append_right _ (List.mem_cons_of_mem _ he)) hw

/-- Every part of a tree is what some hole of it holds. -/
theorem exists_fill_of_within {x e : Expr} (h : Expr.Within x e) : ∃ c : Ctx, e = c.fill x := by
  induction h with
  | here => exact ⟨.here, rfl⟩
  | @arg name args e hmem _ ih =>
    obtain ⟨c, rfl⟩ := ih
    obtain ⟨done, rest, rfl⟩ := List.append_of_mem hmem
    exact ⟨.arg name done c rest, rfl⟩

/-- What is in the hole is part of the tree, with all its parts. -/
theorem within_of_within {c : Ctx} {x y : Expr} (h : Expr.Within x y) :
    Expr.Within x (c.fill y) := by
  induction c with
  | here => exact h
  | arg name done inner rest ih => exact .arg (List.mem_append_right _ List.mem_cons_self) ih

end Ctx

namespace Expr

/-- If something fails in a list, there is a first place where it does. -/
theorem exists_first {Q : Expr → Prop} {es : List Expr} (h : ∃ a ∈ es, ¬ Q a) :
    ∃ done a rest, es = done ++ a :: rest ∧ ¬ Q a ∧ ∀ b ∈ done, Q b := by
  induction es with
  | nil =>
    obtain ⟨a, hmem, -⟩ := h
    cases hmem
  | cons b es ih =>
    by_cases hb : Q b
    · obtain ⟨a, hmem, hna⟩ := h
      rcases List.mem_cons.1 hmem with rfl | hmem
      · exact absurd hb hna
      · obtain ⟨done, a, rest, rfl, ha, hdone⟩ := ih ⟨a, hmem, hna⟩
        refine ⟨b :: done, a, rest, rfl, ha, ?_⟩
        intro d hd
        rcases List.mem_cons.1 hd with rfl | hd
        · exact hb
        · exact hdone d hd
    · exact ⟨[], b, es, rfl, hb, fun _ hd => absurd hd List.not_mem_nil⟩

/-- **Leftmost parts.**  If every tree that is not quiet is a hit, or has an argument that is not
quiet, then every tree that is not quiet has a hit with only quiet arguments in front of it. -/
theorem exists_leftmost (Quiet Hit : Expr → Prop)
    (split : ∀ e, ¬ Quiet e → Hit e ∨ ∃ name args, e = call name args ∧ ∃ a ∈ args, ¬ Quiet a)
    (e : Expr) (h : ¬ Quiet e) : ∃ (c : Ctx) (x : Expr), e = c.fill x ∧ Hit x ∧ c.Passed Quiet := by
  have hdirect : Hit e → ∃ (c : Ctx) (x : Expr), e = c.fill x ∧ Hit x ∧ c.Passed Quiet :=
    fun hit => ⟨.here, e, rfl, hit, trivial⟩
  induction e with
  | word text =>
    rcases split _ h with hit | ⟨name, args, he, -⟩
    · exact hdirect hit
    · cases he
  | ref path =>
    rcases split _ h with hit | ⟨name, args, he, -⟩
    · exact hdirect hit
    · cases he
  | call name args ih =>
    rcases split _ h with hit | ⟨name', args', he, hsome⟩
    · exact hdirect hit
    · cases he
      obtain ⟨done, a, rest, rfl, ha, hdone⟩ := exists_first hsome
      obtain ⟨c, x, rfl, hit, hc⟩ := ih a (by simp) ha fun hit => ⟨.here, a, rfl, hit, trivial⟩
      exact ⟨.arg name done c rest, x, rfl, hit, hdone, hc⟩

end Expr

end Colourway
