import Colourway.Proofs.Resolve.View
import Colourway.Proofs.Syntax.Expression
import Mathlib.Data.Fintype.Card
import Mathlib.Data.Set.Finite.List
import Mathlib.Logic.Relation

/-!
# What expressions mean

The meaning of a tree is worked out from its leaves up, with no text rewritten on the way.

* `Sheet` — the trees of the entries under resolution, the entries seen besides, and the colour
  arithmetic.
* `Sheet.Means` — the value of a tree, with the number of substitutions and calls that its full
  unfolding takes; both are unique (`Sheet.Means.unique`).
* `Sheet.Means.fill` — what is in the hole of a tree may be replaced by anything of the same value.
* `Sheet.IllFounded` — paths from which references lead to a missing path or into a cycle.
* `Sheet.founded_induction` — induction along the references of all other paths.
* `Sheet.exists_means` — an entry that is not ill-founded has a value, if no call fails.
-/

namespace Colourway

open Relation

/-- What gives references and calls their meaning. -/
structure Sheet where
  /-- The colour arithmetic. -/
  math : ColourMath
  /-- The trees of the entries under resolution, by path. -/
  tree : Text → Option Expr
  /-- The entries seen under other paths. -/
  stored : View

namespace Sheet

variable {S : Sheet}

/-! ## Values -/

mutual

/-- `S.Means e v n` says that `e` has the value `v`, and that `n` substitutions and calls lead
there. -/
inductive Means (S : Sheet) : Expr → Text → Nat → Prop where
  /-- A word is its own value. -/
  | word {w : Text} : Means S (.word w) w 0
  /-- A reference to an entry under resolution has the value of its tree. -/
  | entry {p : Text} {e : Expr} {v : Text} {n : Nat} : S.tree p = some e → Means S e v n →
      Means S (.ref p) v (n + 1)
  /-- A reference to another entry has the value that is stored. -/
  | stored {p v : Text} : S.tree p = none → S.stored p = some (.text v) → Means S (.ref p) v 1
  /-- A call has the value that the colour arithmetic works out from those of its arguments. -/
  | call {name : Text} {args : List Expr} {vs : List Text} {v : Text} {n : Nat} :
      MeansAll S args vs n → S.math.apply (.ofName name vs (callText name vs)) = .ok v →
      Means S (.call name args) v (n + 1)

/-- The values of arguments, and the substitutions and calls of all of them together. -/
inductive MeansAll (S : Sheet) : List Expr → List Text → Nat → Prop where
  /-- No arguments. -/
  | nil : MeansAll S [] [] 0
  /-- One more argument. -/
  | cons {e : Expr} {es : List Expr} {v : Text} {vs : List Text} {n m : Nat} : Means S e v n →
      MeansAll S es vs m → MeansAll S (e :: es) (v :: vs) (n + m)

end

mutual

/-- A tree has one value, and one cost. -/
theorem Means.unique : ∀ {e : Expr} {v v' : Text} {n n' : Nat},
    S.Means e v n → S.Means e v' n' → v = v' ∧ n = n'
  | _, _, _, _, _, .word, h' => by
    cases h'
    exact ⟨rfl, rfl⟩
  | _, _, _, _, _, .entry hp h, h' => by
    cases h' with
    | entry hp' h' =>
      cases hp.symm.trans hp'
      obtain ⟨rfl, rfl⟩ := Means.unique h h'
      exact ⟨rfl, rfl⟩
    | stored hp' _ => cases hp.symm.trans hp'
  | _, _, _, _, _, .stored hp hs, h' => by
    cases h' with
    | entry hp' _ => cases hp.symm.trans hp'
    | stored _ hs' =>
      cases hs.symm.trans hs'
      exact ⟨rfl, rfl⟩
  | _, _, _, _, _, .call h hv, h' => by
    cases h' with
    | call h' hv' =>
      obtain ⟨rfl, rfl⟩ := MeansAll.unique h h'
      cases hv.symm.trans hv'
      exact ⟨rfl, rfl⟩

theorem MeansAll.unique : ∀ {es : List Expr} {vs vs' : List Text} {n n' : Nat},
    S.MeansAll es vs n → S.MeansAll es vs' n' → vs = vs' ∧ n = n'
  | _, _, _, _, _, .nil, h' => by
    cases h'
    exact ⟨rfl, rfl⟩
  | _, _, _, _, _, .cons h hs, h' => by
    cases h' with
    | cons h' hs' =>
      obtain ⟨rfl, rfl⟩ := Means.unique h h'
      obtain ⟨rfl, rfl⟩ := MeansAll.unique hs hs'
      exact ⟨rfl, rfl⟩

end

/-- Only a word takes no substitution and no call. -/
theorem Means.eq_word {e : Expr} {v : Text} (h : S.Means e v 0) : e = .word v := by
  cases h
  rfl

/-- Words are their own values. -/
theorem MeansAll.words {words vs : List Text} {n : Nat}
    (h : S.MeansAll (words.map .word) vs n) : vs = words ∧ n = 0 := by
  induction words generalizing vs n with
  | nil =>
    cases h
    exact ⟨rfl, rfl⟩
  | cons w words ih =>
    cases h with
    | cons hw hrest =>
      cases hw
      obtain ⟨rfl, rfl⟩ := ih hrest
      exact ⟨rfl, rfl⟩

/-! ## Replacing a part of a tree -/

theorem MeansAll.hole {done : List Expr} {x : Expr} {rest : List Expr} {vs : List Text} {n : Nat}
    (h : S.MeansAll (done ++ x :: rest) vs n) :
    ∃ u m, S.Means x u m ∧ m ≤ n ∧
      ∀ y k, S.Means y u k → ∃ n', S.MeansAll (done ++ y :: rest) vs n' ∧ n' + m = n + k := by
  induction done generalizing vs n with
  | nil =>
    cases h with
    | cons hx hrest =>
      rename_i u us m k
      refine ⟨u, m, hx, Nat.le_add_right m k, ?_⟩
      exact fun y j hy => ⟨j + k, .cons hy hrest, by omega⟩
  | cons d done ih =>
    cases h with
    | cons hd hrest =>
      rename_i _ us a b
      obtain ⟨u, m, hx, hle, hfill⟩ := ih hrest
      refine ⟨u, m, hx, Nat.le_trans hle (Nat.le_add_left b a), ?_⟩
      intro y k hy
      obtain ⟨n', hn', heq⟩ := hfill y k hy
      exact ⟨a + n', .cons hd hn', by omega⟩

/-- **A part of a tree may be replaced by anything with its value.**  The cost changes by the
difference of the costs of the parts. -/
theorem Means.fill {c : Ctx} {x : Expr} {v : Text} {n : Nat} (h : S.Means (c.fill x) v n) :
    ∃ u m, S.Means x u m ∧ m ≤ n ∧
      ∀ y k, S.Means y u k → ∃ n', S.Means (c.fill y) v n' ∧ n' + m = n + k := by
  induction c generalizing v n with
  | here => exact ⟨v, n, h, Nat.le_refl n, fun y k hy => ⟨k, hy, Nat.add_comm k n⟩⟩
  | arg name done inner rest ih =>
    cases h with
    | call hargs hv =>
      rename_i _ a
      obtain ⟨u, m, hx, hle, hfill⟩ := hargs.hole
      obtain ⟨w, k, hhole, hle', hinner⟩ := ih hx
      refine ⟨w, k, hhole, by omega, ?_⟩
      intro y j hy
      obtain ⟨m', hm', heq⟩ := hinner y j hy
      obtain ⟨a', ha', heq'⟩ := hfill _ m' hm'
      exact ⟨a' + 1, .call ha' hv, by omega⟩

/-! ## Following references -/

/-- The tree of one path refers to another path. -/
def Refers (S : Sheet) (p q : Text) : Prop := ∃ e, S.tree p = some e ∧ Expr.Within (.ref q) e

/-- No entry is seen under a path. -/
def Missing (S : Sheet) (p : Text) : Prop := S.tree p = none ∧ S.stored p = none

/-- Following references from a path leads to a missing path or into a cycle. -/
def IllFounded (S : Sheet) (p : Text) : Prop :=
  ∃ q, ReflTransGen S.Refers p q ∧ (S.Missing q ∨ TransGen S.Refers q q)

theorem IllFounded.of_refers {p q : Text} (hpq : S.Refers p q) (h : S.IllFounded q) :
    S.IllFounded p := by
  obtain ⟨t, hqt, ht⟩ := h
  exact ⟨t, .head hpq hqt, ht⟩

/-- The tree of an ill-founded path refers to an ill-founded path. -/
theorem IllFounded.exists_ref {p : Text} {e : Expr} (hp : S.tree p = some e)
    (h : S.IllFounded p) : ∃ q, Expr.Within (.ref q) e ∧ S.IllFounded q := by
  have hwithin : ∀ {q}, S.Refers p q → Expr.Within (.ref q) e := by
    rintro q ⟨e', he', hq⟩
    cases hp.symm.trans he'
    exact hq
  obtain ⟨t, hpt, ht⟩ := h
  rcases hpt.cases_head with rfl | ⟨q, hpq, hqt⟩
  · rcases ht with hmiss | hcycle
    · cases hp.symm.trans hmiss.1
    · obtain ⟨q, hpq, hqp⟩ := TransGen.head'_iff.1 hcycle
      exact ⟨q, hwithin hpq, p, hqp, Or.inr hcycle⟩
  · exact ⟨q, hwithin hpq, t, hqt, ht⟩

/-- A path that is seen, but not under resolution, refers to nothing. -/
theorem not_illFounded_stored {p : Text} {d : Document} (htree : S.tree p = none)
    (hstored : S.stored p = some d) : ¬ S.IllFounded p := by
  have hno : ∀ {q}, ¬ S.Refers p q := by
    rintro q ⟨e, he, -⟩
    cases htree.symm.trans he
  rintro ⟨t, hpt, ht⟩
  rcases hpt.cases_head with rfl | ⟨q, hpq, -⟩
  · rcases ht with hmiss | hcycle
    · cases hstored.symm.trans hmiss.2
    · obtain ⟨q, hpq, -⟩ := TransGen.head'_iff.1 hcycle
      exact hno hpq
  · exact hno hpq

/-- A tree that refers to an ill-founded path has no value. -/
theorem Means.not_illFounded {n : Nat} : ∀ {e : Expr} {v q : Text}, S.Means e v n →
    Expr.Within (.ref q) e → ¬ S.IllFounded q := by
  -- The trees that references lead to cost less.
  induction n using Nat.strong_induction_on with
  | _ n ih =>
    intro e v q h hq hill
    obtain ⟨c, rfl⟩ := Ctx.exists_fill_of_within hq
    obtain ⟨u, m, href, hle, -⟩ := h.fill
    cases href with
    | entry htree hmeans =>
      rename_i e' k
      obtain ⟨q', hq', hill'⟩ := hill.exists_ref htree
      exact ih k (by omega) hmeans hq' hill'
    | stored hnone hstored => exact not_illFounded_stored hnone hstored hill

/-- **Induction along references.**  With finitely many entries under resolution, what passes from
all that a path refers to on to the path holds of every path that is not ill-founded. -/
theorem founded_induction {paths : List Text} (listed : ∀ p, S.tree p ≠ none → p ∈ paths)
    {motive : Text → Prop}
    (step : ∀ p, ¬ S.IllFounded p → (∀ q, S.Refers p q → motive q) → motive p) :
    ∀ p, ¬ S.IllFounded p → motive p := by
  -- A path outside the list refers to nothing.
  have houtside : ∀ p, p ∉ paths → ¬ S.IllFounded p → motive p := by
    intro p hmem hp
    refine step p hp ?_
    rintro q ⟨e, he, -⟩
    exact absurd (listed p (by rw [he]; exact Option.some_ne_none e)) hmem
  let Node := { p : Text // p ∈ paths ∧ ¬ S.IllFounded p }
  have hfinite : Finite Node :=
    ((List.finite_toSet paths).subset (t := { p | p ∈ paths ∧ ¬ S.IllFounded p })
      fun _ h => h.1).to_subtype
  let below : Node → Node → Prop := fun b a => TransGen S.Refers a.1 b.1
  have htrans : IsTrans Node below := ⟨fun _ _ _ hab hbc => hbc.trans hab⟩
  have hirrefl : Std.Irrefl below := ⟨fun a h => a.2.2 ⟨a.1, .refl, Or.inr h⟩⟩
  have hwf : WellFounded below := Finite.wellFounded_of_trans_of_irrefl below
  have hnodes : ∀ a : Node, motive a.1 := by
    intro a
    induction a using hwf.induction with
    | _ a ih =>
      refine step a.1 a.2.2 ?_
      intro q haq
      have hq : ¬ S.IllFounded q := fun h => a.2.2 (h.of_refers haq)
      by_cases hmem : q ∈ paths
      · exact ih ⟨q, hmem, hq⟩ (.single haq)
      · exact houtside q hmem hq
  intro p hp
  by_cases hmem : p ∈ paths
  · exact hnodes ⟨p, hmem, hp⟩
  · exact houtside p hmem hp

/-! ## Entries that have a value -/

/-- No call in a tree fails. -/
def Answers (S : Sheet) (e : Expr) : Prop :=
  ∀ name args, Expr.Within (.call name args) e → ∀ vs n, S.MeansAll args vs n →
    ∃ v, S.math.apply (.ofName name vs (callText name vs)) = .ok v

/-- What a reference may name: a path that can be written, with a word under it if an entry is seen
there that is not under resolution. -/
structure Good (S : Sheet) (p : Text) : Prop where
  /-- The path can be written. -/
  path : IsPath p
  /-- What is seen there is a word. -/
  word : S.tree p = none → ∀ d, S.stored p = some d → ∃ w, d = .text w ∧ IsWord w

theorem exists_meansAll {args : List Expr} (h : ∀ a ∈ args, ∃ v n, S.Means a v n) :
    ∃ vs n, S.MeansAll args vs n := by
  induction args with
  | nil => exact ⟨[], 0, .nil⟩
  | cons a args ih =>
    obtain ⟨vs, n, hrest⟩ := ih fun b hb => h b (List.mem_cons_of_mem _ hb)
    obtain ⟨v, m, ha⟩ := h a List.mem_cons_self
    exact ⟨v :: vs, m + n, .cons ha hrest⟩

/-- A tree has a value if its references have values and none of its calls fails. -/
theorem exists_means_of_refs {e : Expr} (answers : S.Answers e)
    (refs : ∀ p, Expr.Within (.ref p) e → ∃ v n, S.Means (.ref p) v n) : ∃ v n, S.Means e v n := by
  induction e with
  | word w => exact ⟨w, 0, .word⟩
  | ref p => exact refs p .here
  | call name args ih =>
    have hargs : ∀ a ∈ args, ∃ v n, S.Means a v n := by
      intro a ha
      refine ih a ha ?_ fun p hp => refs p (.arg ha hp)
      exact fun f bs hcall => answers f bs (.arg ha hcall)
    obtain ⟨vs, n, hall⟩ := exists_meansAll hargs
    obtain ⟨v, hv⟩ := answers name args .here vs n hall
    exact ⟨v, n + 1, .call hall hv⟩

/-- **An entry that is not ill-founded has a value.** -/
theorem exists_means {paths : List Text} (listed : ∀ p, S.tree p ≠ none → p ∈ paths)
    (wellFormed : ∀ p e, S.tree p = some e → e.WellFormed S.Good)
    (answers : ∀ p e, S.tree p = some e → ¬ S.IllFounded p → S.Answers e)
    {p : Text} {e : Expr} (he : S.tree p = some e) (hp : ¬ S.IllFounded p) :
    ∃ v n, S.Means e v n := by
  have hrefs : ∀ p, ¬ S.IllFounded p → S.Good p → ∃ v n, S.Means (.ref p) v n := by
    refine founded_induction listed ?_
    intro p hp ih hgood
    cases htree : S.tree p with
    | some e =>
      obtain ⟨v, n, h⟩ := exists_means_of_refs (answers p e htree hp) fun q hq =>
        ih q ⟨e, htree, hq⟩ ((wellFormed p e htree).of_within hq)
      exact ⟨v, n + 1, .entry htree h⟩
    | none =>
      cases hstored : S.stored p with
      | none => exact absurd ⟨p, .refl, Or.inl ⟨htree, hstored⟩⟩ hp
      | some d =>
        obtain ⟨w, rfl, -⟩ := hgood.word htree d hstored
        exact ⟨w, 1, .stored htree hstored⟩
  refine exists_means_of_refs (answers p e he hp) fun q hq => ?_
  exact hrefs q (fun h => hp (h.of_refers ⟨e, he, hq⟩)) ((wellFormed p e he).of_within hq)

end Sheet

end Colourway
