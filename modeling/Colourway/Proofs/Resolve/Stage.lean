import Colourway.Proofs.Resolve.Meaning
import Colourway.Proofs.Syntax.Reading
import Mathlib.Data.List.Forall2

/-!
# Rewriting texts works out trees

While a scope is resolved, the value of an entry is always the text of some tree.  The tree at any
time is a stage of the one that the entry began with: it has the same value, at no higher cost, and
the tree of an ill-founded entry goes on referring to an ill-founded path.

* `Sheet.Sane` — what the trees, the stored entries and the colour arithmetic have to be like.
* `Sheet.Stage`, `Sheet.Shows` — the invariant, of one entry and of a view.
* `Sheet.next_stage` — one step on the text is one substitution or call in the tree.
* `Sheet.follow_stage`, `Sheet.visit_stage`, `Sheet.pass_stage`, `Sheet.passes_stage` — the
  invariant along a run, with the costs that are left.
-/

namespace Colourway

open Text Syntax Relation

namespace Sheet

/-! ## The invariant -/

/-- A sheet that a resolver can work out. -/
structure Sane (S : Sheet) (r : Resolver) : Prop where
  /-- The colour arithmetic is that of the resolver. -/
  math : r.math = S.math
  /-- Trees are well formed, and refer to what can be spliced in. -/
  wellFormed : ∀ {p e}, S.tree p = some e → e.WellFormed S.Good
  /-- Calls come to words. -/
  word : ∀ {call h}, S.math.apply call = .ok h → IsWord h
  /-- What is not ill-founded has a value. -/
  valued : ∀ {p e}, S.tree p = some e → ¬ S.IllFounded p → ∃ v n, S.Means e v n

/-- A tree that the value of the entry at `p` may have become. -/
structure Stage (S : Sheet) (p : Text) (cur : Expr) : Prop where
  /-- The tree is well formed. -/
  wellFormed : cur.WellFormed S.Good
  /-- It has the value of the entry, at no higher cost. -/
  meaning : ∀ {e v n}, S.tree p = some e → S.Means e v n → ∃ m, m ≤ n ∧ S.Means cur v m
  /-- It refers to an ill-founded path if the entry is ill-founded. -/
  illRef : S.IllFounded p → ∃ q, Expr.Within (.ref q) cur ∧ S.IllFounded q

/-- A view in the middle of a run: entries under resolution show stages of themselves, other paths
what was stored. -/
structure Shows (S : Sheet) (v : View) : Prop where
  /-- The entries under resolution. -/
  listed : ∀ {p}, IsPath p → S.tree p ≠ none → ∃ cur, v p = some (.text cur.print) ∧ S.Stage p cur
  /-- The other paths. -/
  unlisted : ∀ {p}, IsPath p → S.tree p = none → v p = S.stored p

variable {S : Sheet} {r : Resolver} {v : View} {p k : Text} {cur : Expr}

theorem Stage.printable (h : S.Stage p cur) : cur.WellFormed IsPath :=
  h.wellFormed.mono fun _ _ hq => hq.path

/-- An entry begins as a stage of itself. -/
theorem Sane.stage (hs : S.Sane r) {e : Expr} (he : S.tree p = some e) : S.Stage p e where
  wellFormed := hs.wellFormed he
  meaning he' h := by
    cases he.symm.trans he'
    exact ⟨_, Nat.le_refl _, h⟩
  illRef h := h.exists_ref he

/-- Steps hide only what no reference can name. -/
theorem Shows.hide (h : S.Shows v) {x : Text} (hx : ¬ IsPath x) : S.Shows (v.hide x) := by
  have hne : ∀ {p}, IsPath p → p ≠ x := by
    rintro p hp rfl
    exact hx hp
  refine ⟨?_, ?_⟩
  · intro p hp hlisted
    rw [View.hide, if_neg (hne hp)]
    exact h.listed hp hlisted
  · intro p hp hunlisted
    rw [View.hide, if_neg (hne hp)]
    exact h.unlisted hp hunlisted

/-- An entry may learn any stage of itself. -/
theorem Shows.learn (h : S.Shows v) (hk : S.tree k ≠ none) (hcur : S.Stage k cur) :
    S.Shows (v.learn k (.text cur.print)) := by
  refine ⟨?_, ?_⟩
  · intro p hp hlisted
    obtain ⟨old, hold, hstage⟩ := h.listed hp hlisted
    by_cases hpk : p = k
    · subst hpk
      rw [View.learn, if_pos rfl, hold]
      exact ⟨cur, rfl, hcur⟩
    · rw [View.learn, if_neg hpk]
      exact ⟨old, hold, hstage⟩
  · intro p hp hunlisted
    have hpk : p ≠ k := by
      rintro rfl
      exact hk hunlisted
    rw [View.learn, if_neg hpk]
    exact h.unlisted hp hunlisted

/-! ## One step -/

/-- What may take the place of a reference in a stage: a tree that has its value at a lower cost,
and refers to an ill-founded path if the reference does. -/
structure Replaces (S : Sheet) (x y : Expr) : Prop where
  /-- The new part is well formed. -/
  wellFormed : y.WellFormed S.Good
  /-- It has the same value, at a lower cost. -/
  cheaper : ∀ {u m}, S.Means x u m → ∃ m', m' < m ∧ S.Means y u m'
  /-- It keeps the references that matter. -/
  illRef : ∀ {q}, Expr.Within (.ref q) x → S.IllFounded q →
    ∃ q', Expr.Within (.ref q') y ∧ S.IllFounded q'

/-- Replacing a part makes a later stage, at a lower cost. -/
theorem Stage.fill {c : Ctx} {x y : Expr} (h : S.Stage p (c.fill x)) (hxy : S.Replaces x y) :
    S.Stage p (c.fill y) ∧
    ∀ {u m}, S.Means (c.fill x) u m → ∃ m', m' < m ∧ S.Means (c.fill y) u m' := by
  have hcheaper : ∀ {u m}, S.Means (c.fill x) u m → ∃ m', m' < m ∧ S.Means (c.fill y) u m' := by
    intro u m hm
    obtain ⟨w, a, hx, hle, hfill⟩ := hm.fill
    obtain ⟨b, hlt, hy⟩ := hxy.cheaper hx
    obtain ⟨m', hm', heq⟩ := hfill y b hy
    exact ⟨m', by omega, hm'⟩
  refine ⟨⟨(Ctx.wellFormed_fill h.wellFormed).2 y hxy.wellFormed, ?_, ?_⟩, hcheaper⟩
  · intro e u n he hn
    obtain ⟨m, hle, hm⟩ := h.meaning he hn
    obtain ⟨m', hlt, hm'⟩ := hcheaper hm
    exact ⟨m', by omega, hm'⟩
  · intro hill
    obtain ⟨q, hq, hqill⟩ := h.illRef hill
    rcases Ctx.within_ref_fill hq with hx | hall
    · obtain ⟨q', hq', hq'ill⟩ := hxy.illRef hx hqill
      exact ⟨q', Ctx.within_of_within hq', hq'ill⟩
    · exact ⟨q, hall y, hqill⟩

/-- A reference may be replaced by any stage of the entry that it names. -/
theorem replaces_entry {e : Expr} (he : S.tree p = some e) (hcur : S.Stage p cur) :
    S.Replaces (.ref p) cur where
  wellFormed := hcur.wellFormed
  cheaper h := by
    cases h with
    | entry he' h =>
      obtain ⟨m, hle, hm⟩ := hcur.meaning he' h
      exact ⟨m, by omega, hm⟩
    | stored hnone _ => cases he.symm.trans hnone
  illRef hq hill := by
    cases hq
    exact hcur.illRef hill

/-- A reference to a stored word may be replaced by the word. -/
theorem replaces_stored {w : Text} (hnone : S.tree p = none) (hstored : S.stored p = some (.text w))
    (hw : IsWord w) : S.Replaces (.ref p) (.word w) where
  wellFormed := .word hw
  cheaper h := by
    cases h with
    | entry he _ => cases he.symm.trans hnone
    | stored _ hstored' =>
      cases hstored.symm.trans hstored'
      exact ⟨0, Nat.one_pos, .word⟩
  illRef hq hill := by
    cases hq
    exact absurd hill (not_illFounded_stored hnone hstored)

/-- A call of words may be replaced by what it comes to. -/
theorem replaces_call {name h : Text} {words : List Text}
    (happly : S.math.apply (.ofName name words (callText name words)) = .ok h) (hh : IsWord h) :
    S.Replaces (.callOf name words) (.word h) where
  wellFormed := .word hh
  cheaper hm := by
    cases hm with
    | call hargs hv =>
      obtain ⟨rfl, rfl⟩ := hargs.words
      cases happly.symm.trans hv
      exact ⟨0, Nat.one_pos, .word⟩
  illRef hq _ := by
    cases hq with
    | arg hmem hw =>
      obtain ⟨w, -, rfl⟩ := List.mem_map.1 hmem
      cases hw

/-- How a step on the text of a stage ends. -/
inductive Stepped (S : Sheet) (r : Resolver) (v : View) (k : Text) (cur : Expr) : Prop where
  /-- There is no step that changes anything, and if the stage has a value it is worked out. -/
  | stop : (v.next r k cur.print = .ok none ∨ v.next r k cur.print = .ok (some cur.print)) →
      (∀ {u m}, S.Means cur u m → m = 0) → Stepped S r v k cur
  /-- The step leads to the text of a later stage, at a lower cost. -/
  | go (cur' : Expr) : v.next r k cur.print = .ok (some cur'.print) → ¬ cur.IsLeaf →
      S.Stage k cur' → (∀ {u m}, S.Means cur u m → ∃ m', m' < m ∧ S.Means cur' u m') →
      Stepped S r v k cur

theorem next_word {w : Text} (hw : IsWord w) : S.Stepped r v k (.word w) := by
  refine .stop ?_ fun h => by cases h; rfl
  rw [Expr.print, View.next]
  rcases Expr.classify_word hw with ⟨hkind, hhex⟩ | hkind
  · rw [hkind]
    exact Or.inr (congrArg Except.ok hhex)
  · rw [hkind]
    exact Or.inl rfl

/-- What a step on a tree with references comes to. -/
theorem next_eq_of_reference {c : Ctx} (h : (c.fill (.ref p)).WellFormed IsPath)
    (hc : c.Passed fun e => ¬ e.HasRef) :
    v.next r k (c.fill (.ref p)).print =
      match v p with
      | none => .ok none
      | some target =>
        if p = k then .ok none
        else
          match target.spliced? with
          | none => .error (.fault .longInteger)
          | some shown =>
            .ok (some (replaceFirst (Expr.ref p).print shown (c.fill (.ref p)).print)) := by
  rw [View.next, Expr.classify_of_hasRef h ⟨p, c.within_fill _⟩]
  exact View.refer_found (Ctx.find_reference h hc)

/-- An entry of a lower cost than its tree does not refer to itself. -/
theorem Stage.not_self {c : Ctx} (h : S.Stage k (c.fill (.ref k))) {e : Expr}
    (he : S.tree k = some e) {u : Text} {m : Nat} : ¬ S.Means (c.fill (.ref k)) u m := by
  intro hm
  obtain ⟨w, a, href, hle, -⟩ := hm.fill
  cases href with
  | entry he' htree =>
    obtain ⟨b, hle', hcur⟩ := h.meaning he' htree
    obtain ⟨-, rfl⟩ := hcur.unique hm
    omega
  | stored hnone _ => cases he.symm.trans hnone

theorem next_reference {e : Expr} (he : S.tree k = some e) (hv : S.Shows v) {c : Ctx}
    (h : S.Stage k (c.fill (.ref p))) (hc : c.Passed fun e => ¬ e.HasRef) :
    S.Stepped r v k (c.fill (.ref p)) := by
  have hgood : S.Good p := h.wellFormed.of_within (c.within_fill _)
  have hnext := next_eq_of_reference (r := r) (v := v) (k := k) h.printable hc
  have hleaf : ¬ (c.fill (.ref p)).IsLeaf := Expr.not_isLeaf_of_hasRef ⟨p, c.within_fill _⟩
  have hgo : ∀ y : Expr, p ≠ k → v p = some (.text y.print) → S.Replaces (.ref p) y →
      S.Stepped r v k (c.fill (.ref p)) := by
    intro y hpk hy hreplaces
    obtain ⟨hstage, hcheaper⟩ := h.fill hreplaces
    refine .go (c.fill y) ?_ hleaf hstage hcheaper
    rw [hnext, hy]
    dsimp only
    rw [if_neg hpk]
    exact congrArg (fun x => Except.ok (some x)) (Ctx.replace_reference h.printable hc y)
  by_cases hpk : p = k
  · -- A reference to the entry itself is not replaced, and the entry has no value.
    subst hpk
    refine .stop (Or.inl ?_) fun hm => absurd hm (h.not_self he)
    rw [hnext]
    cases v p with
    | none => rfl
    | some d => exact if_pos rfl
  · cases htree : S.tree p with
    | some e' =>
      have hlisted : S.tree p ≠ none := by
        rw [htree]
        exact Option.some_ne_none _
      obtain ⟨cur, hcur, hstage⟩ := hv.listed hgood.path hlisted
      exact hgo cur hpk hcur (replaces_entry htree hstage)
    | none =>
      have hview := hv.unlisted hgood.path htree
      cases hstored : S.stored p with
      | some d =>
        obtain ⟨w, rfl, hw⟩ := hgood.word htree d hstored
        exact hgo (.word w) hpk (hview.trans hstored) (replaces_stored htree hstored hw)
      | none =>
        -- The reference leads nowhere, so again the entry has no value.
        refine .stop (Or.inl ?_) ?_
        · rw [hnext, hview, hstored]
        · intro u m hm
          obtain ⟨w, a, href, -⟩ := hm.fill
          cases href with
          | entry he' _ => cases htree.symm.trans he'
          | stored _ hstored' => cases hstored.symm.trans hstored'

theorem next_call (hs : S.Sane r) {e : Expr} (he : S.tree k = some e) {c : Ctx} {name : Text}
    {words : List Text} (h : S.Stage k (c.fill (.callOf name words))) (hc : c.Passed Expr.IsLeaf)
    (hno : ¬ (c.fill (.callOf name words)).HasRef) :
    S.Stepped r v k (c.fill (.callOf name words)) := by
  -- The entry is not ill-founded, so it has a value, and the call must be answered.
  have hfounded : ¬ S.IllFounded k := by
    intro hill
    obtain ⟨q, hq, -⟩ := h.illRef hill
    exact hno ⟨q, hq⟩
  obtain ⟨u, n, hmeans⟩ := hs.valued he hfounded
  obtain ⟨m, -, hcur⟩ := h.meaning he hmeans
  obtain ⟨x, a, hcall, -⟩ := hcur.fill
  cases hcall with
  | call hargs happly =>
    obtain ⟨rfl, rfl⟩ := hargs.words
    obtain ⟨hstage, hcheaper⟩ := h.fill (replaces_call happly (hs.word happly))
    refine .go (c.fill (.word x)) ?_ ?_ hstage hcheaper
    · rw [View.next, Ctx.classify_call h.printable hc hno]
      dsimp only
      rw [Ctx.find_call h.printable hc]
      dsimp only
      rw [hs.math, happly]
      exact congrArg (fun x => Except.ok (some x)) (Ctx.replace_call h.printable hc (.word x))
    · rintro ⟨w, hw⟩
      cases c <;> cases hw

/-- **One step on the text is one step on the tree.** -/
theorem next_stage (hs : S.Sane r) (hv : S.Shows v) {e : Expr} (he : S.tree k = some e)
    (h : S.Stage k cur) : S.Stepped r v k cur := by
  by_cases href : cur.HasRef
  · obtain ⟨c, p, rfl, hc⟩ := Expr.exists_leftmost_ref href
    exact next_reference he hv h hc
  · by_cases hleaf : cur.IsLeaf
    · obtain ⟨w, rfl⟩ := hleaf
      exact next_word (Expr.isWord_of_wellFormed h.wellFormed)
    · obtain ⟨c, name, words, rfl, hc⟩ := Expr.exists_leftmost_call href hleaf
      exact next_call hs he h hc href

/-! ## What is left to do -/

/-- The entry at `k` has a value, and `m` substitutions and calls lead there from `cur`. -/
def Left (S : Sheet) (k : Text) (cur : Expr) (m : Nat) : Prop :=
  ∃ e u n, S.tree k = some e ∧ S.Means e u n ∧ S.Means cur u m

theorem Left.unique {m m' : Nat} (h : S.Left k cur m) (h' : S.Left k cur m') : m = m' := by
  obtain ⟨_, _, _, -, -, hcur⟩ := h
  obtain ⟨_, _, _, -, -, hcur'⟩ := h'
  exact (hcur.unique hcur').2

/-- If something is left to do from one stage, then also from any other one. -/
theorem Stage.left_of_left (h : S.Stage k cur) {other : Expr} {m : Nat} (hm : S.Left k other m) :
    ∃ m', S.Left k cur m' := by
  obtain ⟨e, u, n, he, hn, -⟩ := hm
  obtain ⟨m', -, hcur⟩ := h.meaning he hn
  exact ⟨m', e, u, n, he, hn, hcur⟩

/-- At most `b` substitutions and calls are left to do. -/
def AtMost (S : Sheet) (b : Nat) (k : Text) (cur : Expr) : Prop := ∀ {m}, S.Left k cur m → m ≤ b

/-- The later stage has at most as much left to do as the earlier one less `n`. -/
def Saves (S : Sheet) (k : Text) (n : Nat) (cur cur' : Expr) : Prop :=
  ∀ {m}, S.Left k cur m → ∃ m', m' ≤ m - n ∧ S.Left k cur' m'

theorem AtMost.save {b n : Nat} {cur' : Expr} (h : S.AtMost b k cur) (hcur : S.Stage k cur)
    (hsaves : S.Saves k n cur cur') : S.AtMost (b - n) k cur' := by
  intro m' hm'
  obtain ⟨m, hm⟩ := hcur.left_of_left hm'
  obtain ⟨m'', hle, hm''⟩ := hsaves hm
  obtain rfl := hm'.unique hm''
  have := h hm
  omega

/-! ## Following a value -/

/-- Values that have come up are texts of trees with at least as much left to do. -/
def Seen (S : Sheet) (k : Text) (seen : List Text) (cur : Expr) : Prop :=
  ∀ y ∈ seen, ∀ {m}, S.Left k cur m →
    ∃ old n, y = old.print ∧ old.WellFormed IsPath ∧ S.Left k old n ∧ m ≤ n

/-- While a value gets cheaper, no value comes up twice. -/
theorem Seen.not_mem {seen : List Text} {cur' : Expr} (h : S.Seen k seen cur)
    (hcur' : S.Stage k cur') (hmem : cur'.print ∈ seen) {m m' : Nat} (hm : S.Left k cur m)
    (hm' : S.Left k cur' m') (hlt : m' < m) : False := by
  obtain ⟨old, n, heq, hold, hn, hle⟩ := h _ hmem hm
  obtain rfl := Expr.print_injective hcur'.printable hold heq
  have := hn.unique hm'
  omega

/-- **Following a value** takes steps until none is left to do or the limit is reached. -/
theorem follow_stage (hs : S.Sane r) {e : Expr} (he : S.tree k = some e) :
    ∀ (n : Nat) (seen : List Text) (v : View) (cur : Expr), S.Shows v → S.Stage k cur →
      S.Seen k seen cur → ∃ v' cur', View.follow r k n seen v cur.print = .ok (v', cur'.print) ∧
        S.Shows v' ∧ S.Stage k cur' ∧ S.Saves k n cur cur' := by
  intro n
  induction n with
  | zero => exact fun _ v cur hv hcur _ => ⟨v, cur, rfl, hv, hcur, fun hm => ⟨_, Nat.le_refl _, hm⟩⟩
  | succ n ih =>
    intro seen v cur hv hcur hseen
    have hdone : (∀ {m}, S.Left k cur m → m = 0) → S.Saves k (n + 1) cur cur := by
      intro hzero m hm
      obtain rfl := hzero hm
      exact ⟨0, Nat.zero_le _, hm⟩
    rw [View.follow_succ]
    cases next_stage hs hv he hcur with
    | stop hnext hzero =>
      refine ⟨v, cur, ?_, hv, hcur, hdone fun ⟨_, _, _, _, _, hm⟩ => hzero hm⟩
      rcases hnext with hnext | hnext
      · rw [hnext]
      · rw [hnext]
        exact if_pos rfl
    | go cur' hnext hleaf hcur' hcheaper =>
      have hlower : ∀ {m}, S.Left k cur m → ∃ m', m' < m ∧ S.Left k cur' m' := by
        rintro m ⟨e, u, a, he, ha, hm⟩
        obtain ⟨m', hlt, hm'⟩ := hcheaper hm
        exact ⟨m', hlt, e, u, a, he, ha, hm'⟩
      rw [hnext]
      dsimp only
      by_cases hsame : cur'.print = cur.print
      · -- One text has one tree, so the cost did not go down: there was none.
        rw [if_pos hsame]
        refine ⟨v, cur, rfl, hv, hcur, hdone fun {m} hm => ?_⟩
        obtain rfl := Expr.print_injective hcur'.printable hcur.printable hsame
        obtain ⟨m', hlt, hm'⟩ := hlower hm
        have := hm.unique hm'
        omega
      · rw [if_neg hsame]
        have hv' := hv.hide (Expr.not_isPath_print hleaf)
        by_cases hmem : cur'.print ∈ seen
        · -- All texts that came up before cost more.
          rw [if_pos hmem]
          refine ⟨v.hide cur.print, cur', rfl, hv', hcur', fun {m} hm => ?_⟩
          obtain ⟨m', hlt, hm'⟩ := hlower hm
          exact (hseen.not_mem hcur' hmem hm hm' hlt).elim
        · rw [if_neg hmem]
          have hseen' : S.Seen k (cur'.print :: seen) cur' := by
            intro y hy m' hm'
            rcases List.mem_cons.1 hy with rfl | hy
            · exact ⟨cur', m', rfl, hcur'.printable, hm', Nat.le_refl _⟩
            · obtain ⟨m, hm⟩ := hcur.left_of_left hm'
              obtain ⟨m'', hlt, hm''⟩ := hlower hm
              obtain rfl := hm'.unique hm''
              obtain ⟨old, a, hold, hwf, ha, hle⟩ := hseen y hy hm
              exact ⟨old, a, hold, hwf, ha, by omega⟩
          obtain ⟨v₂, cur₂, hrun, hv₂, hcur₂, hsaves⟩ := ih _ _ _ hv' hcur' hseen'
          refine ⟨v₂, cur₂, hrun, hv₂, hcur₂, fun {m} hm => ?_⟩
          obtain ⟨m', hlt, hm'⟩ := hlower hm
          obtain ⟨m₂, hle, hm₂⟩ := hsaves hm'
          exact ⟨m₂, by omega, hm₂⟩

/-! ## Visits and passes -/

/-- An entry under resolution with the tree of its value. -/
abbrev Cell := Entry × Expr

/-- The entry with the text of its tree. -/
def Cell.item (c : Cell) : View.Item := (c.1, .text c.2.print)

/-- The tree of a cell is a stage of its entry. -/
structure Staged (S : Sheet) (c : Cell) : Prop where
  /-- The entry is one of the sheet. -/
  listed : S.tree c.1.flat ≠ none
  /-- The tree is a stage of it. -/
  stage : S.Stage c.1.flat c.2

/-- A cell after a visit. -/
structure Later (S : Sheet) (n : Nat) (c c' : Cell) : Prop where
  /-- The entry is the same. -/
  entry : c'.1 = c.1
  /-- The tree is a stage of it. -/
  staged : S.Staged c'
  /-- The limit, or all there was, has been done. -/
  saves : S.Saves c.1.flat n c.2 c'.2

theorem visit_stage (hs : S.Sane r) (hv : S.Shows v) {c : Cell} (hc : S.Staged c) :
    ∃ v' c', View.visit r v c.item = .ok (v', c'.item, c'.2.print != c.2.print) ∧
      S.Shows v' ∧ S.Later r.limit c c' := by
  obtain ⟨e, he⟩ := Option.ne_none_iff_exists'.1 hc.listed
  have hseen : S.Seen c.1.flat [c.2.print] c.2 := by
    intro y hy m hm
    exact ⟨c.2, m, List.mem_singleton.1 hy, hc.stage.printable, hm, Nat.le_refl _⟩
  obtain ⟨v', cur', hrun, hv', hcur', hsaves⟩ :=
    follow_stage hs he r.limit [c.2.print] v c.2 hv hc.stage hseen
  refine ⟨v'.learn c.1.flat (.text cur'.print), (c.1, cur'), ?_, hv'.learn hc.listed hcur',
    rfl, ⟨hc.listed, hcur'⟩, hsaves⟩
  have htext : c.item.2.text? = some c.2.print := rfl
  have hflat : c.item.1 = c.1 := rfl
  unfold View.visit
  rw [htext, hflat]
  dsimp only
  rw [hrun]
  rfl

theorem pass_stage (hs : S.Sane r) (cells : List Cell) :
    ∀ {v : View}, S.Shows v → (∀ c ∈ cells, S.Staged c) →
      ∃ (v' : View) (cells' : List Cell) (changed : Bool), View.pass r v (cells.map Cell.item) =
          .ok (v', cells'.map Cell.item, changed) ∧ S.Shows v' ∧
        List.Forall₂ (S.Later r.limit) cells cells' ∧ (changed = false → cells' = cells) := by
  induction cells with
  | nil => exact fun {v} hv _ => ⟨v, [], false, rfl, hv, .nil, fun _ => rfl⟩
  | cons c cells ih =>
    intro v hv hcells
    have hc := hcells c List.mem_cons_self
    obtain ⟨v₁, c', hvisit, hv₁, hlater⟩ := visit_stage hs hv hc
    obtain ⟨v₂, cells', changed, hpass, hv₂, hlaters, hsame⟩ :=
      ih hv₁ fun d hd => hcells d (List.mem_cons_of_mem _ hd)
    refine ⟨v₂, c' :: cells', (c'.2.print != c.2.print) || changed, ?_, hv₂,
      .cons hlater hlaters, ?_⟩
    · rw [List.map_cons, View.pass, hvisit]
      dsimp only
      rw [hpass]
      rfl
    · intro hchanged
      rw [Bool.or_eq_false_iff, bne_eq_false_iff_eq] at hchanged
      have hentry := hlater.entry
      have htree := Expr.print_injective hlater.staged.stage.printable hc.stage.printable
        hchanged.1
      rw [hsame hchanged.2, Prod.ext hentry htree]

theorem Later.staged_of_forall₂ {n b : Nat} {cells cells' : List Cell}
    (h : List.Forall₂ (S.Later n) cells cells')
    (hcells : ∀ c ∈ cells, S.Staged c ∧ S.AtMost b c.1.flat c.2) :
    cells'.map Prod.fst = cells.map Prod.fst ∧
    ∀ c ∈ cells', S.Staged c ∧ S.AtMost (b - n) c.1.flat c.2 := by
  induction h with
  | nil => exact ⟨rfl, fun _ hc => absurd hc List.not_mem_nil⟩
  | cons hlater _ ih =>
    rename_i c c' cells cells' _
    obtain ⟨hfst, hrest⟩ := ih fun d hd => hcells d (List.mem_cons_of_mem _ hd)
    obtain ⟨hstaged, hmost⟩ := hcells c List.mem_cons_self
    refine ⟨by rw [List.map_cons, List.map_cons, hlater.entry, hfst], ?_⟩
    intro d hd
    rcases List.mem_cons.1 hd with rfl | hd
    · refine ⟨hlater.staged, ?_⟩
      rw [hlater.entry]
      exact hmost.save hstaged.stage hlater.saves
    · exact hrest d hd

/-- A pass that changes nothing has nothing left to do. -/
theorem Later.atMost_zero {n b : Nat} {c : Cell} (h : S.Later n c c)
    (hmost : S.AtMost b c.1.flat c.2) (hb : n = 0 → b = 0) : S.AtMost 0 c.1.flat c.2 := by
  intro m hm
  obtain ⟨m', hle, hm'⟩ := h.saves hm
  obtain rfl := hm.unique hm'
  have := hmost hm
  by_cases hn : n = 0
  · have := hb hn
    omega
  · omega

/-- **Passes** do all that there is to do, if it is no more than the passes and the steps of each
visit allow. -/
theorem passes_stage (hs : S.Sane r) (left : Nat) :
    ∀ {v : View} {cells : List Cell} (changing : Nat), S.Shows v →
      (∀ c ∈ cells, S.Staged c ∧ S.AtMost (left * r.limit) c.1.flat c.2) →
      ∃ (v' : View) (cells' : List Cell) (changing' : Nat),
        View.passes r left ⟨v, cells.map Cell.item, changing⟩ =
          .ok ⟨v', cells'.map Cell.item, changing'⟩ ∧
        cells'.map Prod.fst = cells.map Prod.fst ∧
        ∀ c ∈ cells', S.Staged c ∧ S.AtMost 0 c.1.flat c.2 := by
  induction left with
  | zero =>
    intro v cells changing _ hcells
    refine ⟨v, cells, changing, rfl, rfl, ?_⟩
    rw [Nat.zero_mul] at hcells
    exact hcells
  | succ left ih =>
    intro v cells changing hv hcells
    obtain ⟨v', cells', changed, hpass, hv', hlaters, hsame⟩ :=
      pass_stage hs cells hv fun c hc => (hcells c hc).1
    unfold View.passes
    rw [hpass]
    dsimp only
    cases changed with
    | false =>
      -- A pass saves as many steps as there are, up to the limit, so none were left.
      obtain rfl := hsame rfl
      refine ⟨v', cells', changing, if_neg Bool.false_ne_true, rfl, ?_⟩
      intro c hc
      obtain ⟨hstaged, hmost⟩ := hcells c hc
      have hlater : S.Later r.limit c c := List.forall₂_same.1 hlaters c hc
      refine ⟨hstaged, hlater.atMost_zero hmost ?_⟩
      intro hzero
      rw [hzero, Nat.mul_zero]
    | true =>
      rw [if_pos rfl]
      obtain ⟨hfst, hcells'⟩ := Later.staged_of_forall₂ hlaters hcells
      have hless : (left + 1) * r.limit - r.limit = left * r.limit := by
        rw [Nat.succ_mul, Nat.add_sub_cancel]
      rw [hless] at hcells'
      obtain ⟨v₂, cells₂, changing₂, hrun, hfst₂, hzero⟩ := ih (changing + 1) hv' hcells'
      exact ⟨v₂, cells₂, changing₂, hrun, hfst₂.trans hfst, hzero⟩

end Sheet

end Colourway
