import Colourway.Proofs.Resolve.Lockstep
import Mathlib.Data.List.Forall2

/-!
# Runs over matched values

Two runs over entries whose values are alike, or doomed on both sides.

* `Matched` — the values that an entry has in the two runs.
* `Calm` — values that no further visit brings on. **`passes_calm`**: passes over calm values change
  doomed ones only.
* **`passes_matched`** — the runs end with the same failure, or with matched values. They stay in
  step until one of them finds nothing to change; then all values are calm.
* **`result_matched`** — matched values have one result.
-/

namespace Colourway

open Text Syntax

namespace View

variable {r : Resolver} {S : Text → Prop} {w : Weights} {v v' : View} {key : Text}

/-! ## Values in two runs -/

/-- The values of one entry in two runs. -/
inductive Matched (S : Text → Prop) (w : Weights) (key : Text) :
    Document → Document → Prop where
  /-- The same value, which is no text. -/
  | same {d : Document} : d.text? = none → Matched S w key d d
  /-- Alike texts of finite weight. -/
  | alike {ps : List Text} {s s' : Text} : Alike S (S key) ps s s' → load w ps < w key →
      w key ≠ ⊤ → (w.Barred key ↔ Bars w ps) → Matched S w key (.text s) (.text s')
  /-- Texts that never come to an end. -/
  | doomed {s s' : Text} : Doomed S w key s → Doomed S w key s' → w key = ⊤ →
      Matched S w key (.text s) (.text s')

theorem Matched.symm {d d' : Document} (h : Matched S w key d d') : Matched S w key d' d := by
  cases h with
  | same h => exact .same h
  | alike hs hlt hw hbars => exact .alike hs.symm hlt hw hbars
  | doomed hs hs' hw => exact .doomed hs' hs hw

/-- A value of the entry at `key` that no visit brings on, whatever else is hidden. -/
inductive Calm (r : Resolver) (S : Text → Prop) (w : Weights) (v : View) (key : Text) :
    Document → Prop where
  /-- A value that is no text. -/
  | fixed {d : Document} : d.text? = none → Calm r S w v key d
  /-- A text that never comes to an end. -/
  | doomed {s : Text} : Doomed S w key s → w key = ⊤ → Calm r S w v key (.text s)
  /-- A text that a visit leaves as it is. -/
  | still {ps : List Text} {s : Text} : Alike S (S key) ps s s → w key ≠ ⊤ →
      (w.Barred key ↔ Bars w ps) →
      (∀ v₁, Fewer v v₁ → ∃ hidden, follow r key r.limit [s] v₁ s = .ok (v₁.hideAll hidden, s)) →
      Calm r S w v key (.text s)

theorem Calm.mono {v₁ : View} {d : Document} (h : Calm r S w v key d) (hv : Fewer v v₁) :
    Calm r S w v₁ key d := by
  cases h with
  | fixed h => exact .fixed h
  | doomed hs hw => exact .doomed hs hw
  | still hs hw hbars hstill => exact .still hs hw hbars fun v₂ hv₂ => hstill v₂ (hv.trans hv₂)

/-- An item with a calm value. -/
def CalmItem (r : Resolver) (S : Text → Prop) (w : Weights) (v : View) (item : Item) : Prop :=
  Calm r S w v item.1.flat item.2

/-- Two entries at the same place. -/
structure Twin (e e' : Entry) : Prop where
  /-- They have the same path. -/
  path : e.path = e'.path
  /-- They have the same place in a list. -/
  place : e.place = e'.place

theorem Twin.symm {e e' : Entry} (h : Twin e e') : Twin e' e := ⟨h.path.symm, h.place.symm⟩

theorem Twin.flat {e e' : Entry} (h : Twin e e') : e.flat = e'.flat := congrArg Path.flat h.path

theorem Twin.withValue {e e' : Entry} (h : Twin e e') (d : Document) :
    e.withValue d = e'.withValue d := by
  obtain ⟨path, value, place⟩ := e
  obtain ⟨path', value', place'⟩ := e'
  obtain ⟨rfl, rfl⟩ := h
  rfl

theorem Calm.twin {e e' : Entry} {d : Document} (htwin : Twin e e') (h : Calm r S w v e.flat d) :
    CalmItem r S w v (e', d) := by
  rw [CalmItem, ← htwin.flat]
  exact h

/-- Twins with matched values. -/
structure Twinned (S : Text → Prop) (w : Weights) (item item' : Item) : Prop where
  /-- The entries are at the same place. -/
  twin : Twin item.1 item'.1
  /-- Their values are matched. -/
  value : Matched S w item.1.flat item.2 item'.2

theorem Twinned.symm {item item' : Item} (h : Twinned S w item item') : Twinned S w item' item :=
  ⟨h.twin.symm, h.twin.flat ▸ h.value.symm⟩

theorem forall₂_symm {items items' : List Item} (h : List.Forall₂ (Twinned S w) items items') :
    List.Forall₂ (Twinned S w) items' items := h.flip.imp fun _ _ => Twinned.symm

/-! ## Calm runs -/

theorem visit_text (r : Resolver) (v : View) (e : Entry) (s : Text) :
    visit r v (e, .text s) = (follow r e.flat r.limit [s] v s).map fun out =>
      (out.1.learn e.flat (.text out.2), (e, .text out.2), out.2 != s) := rfl

theorem visit_of_text?_none {d : Document} (h : d.text? = none) (v : View) (e : Entry) :
    visit r v (e, d) = .ok (v, (e, d), false) := by
  simp [visit, h]

/-- Visiting a calm value leaves it what it was matched with. -/
theorem visit_calm (hv : Tame S w v) {e : Entry} {d : Document} (h : Calm r S w v e.flat d) :
    ∃ v₁ x changed, visit r v (e, d) = .ok (v₁, (e, x), changed) ∧ Tame S w v₁ ∧ Fewer v v₁ ∧
      Calm r S w v₁ e.flat x ∧ ∀ d', Matched S w e.flat d d' → Matched S w e.flat x d' := by
  cases h with
  | fixed hd =>
    exact ⟨v, d, false, visit_of_text?_none hd v e, hv, .refl v, .fixed hd, fun _ h => h⟩
  | @doomed s hs hw =>
    obtain ⟨x, hfollow, hx⟩ := follow_doomed e.flat hv r.limit [s] hs
    obtain ⟨ps, hps, htop, hbars⟩ := hx
    refine ⟨v.learn e.flat (.text x), .text x, x != s, ?_, hv.learn hps (fun _ => htop) hbars,
      fewer_learn v _ _, .doomed ⟨ps, hps, htop, hbars⟩ hw, fun d' hd' => ?_⟩
    · rw [visit_text, hfollow]
      rfl
    · cases hd' with
      | same h => cases h
      | alike _ _ hfinite => exact absurd hw hfinite
      | doomed _ hs' _ => exact .doomed ⟨ps, hps, htop, hbars⟩ hs' hw
  | @still ps s hs hw hbars hstill =>
    obtain ⟨hidden, hfollow⟩ := hstill v (.refl v)
    have hfewer := fewer_hideAll_learn v hidden e.flat (.text s)
    refine ⟨_, .text s, s != s, ?_,
      (hv.hideAll hidden).learn hs (fun htop => absurd htop hw) hbars, hfewer,
      .still hs hw hbars fun v₁ hv₁ => hstill v₁ (hfewer.trans hv₁), fun _ h => h⟩
    rw [visit_text, hfollow]
    rfl

/-- A pass over calm values leaves them what they were matched with. -/
theorem pass_calm (items : List Item) :
    ∀ {v : View}, Tame S w v → (∀ item ∈ items, CalmItem r S w v item) →
      ∃ v₁ items₁ changed, pass r v items = .ok (v₁, items₁, changed) ∧ Tame S w v₁ ∧ Fewer v v₁ ∧
        (∀ item ∈ items₁, CalmItem r S w v₁ item) ∧
        ∀ others, List.Forall₂ (Twinned S w) items others →
          List.Forall₂ (Twinned S w) items₁ others := by
  induction items with
  | nil =>
    intro v hv _
    exact ⟨v, [], false, rfl, hv, .refl v, fun _ h => absurd h List.not_mem_nil, fun _ h => h⟩
  | cons item rest ih =>
    intro v hv hcalm
    obtain ⟨e, d⟩ := item
    obtain ⟨hd, hrest⟩ := List.forall_mem_cons.1 hcalm
    obtain ⟨v₁, x, changed, hvisit, hv₁, hfewer, hx, hkeep⟩ := visit_calm hv hd
    obtain ⟨v₂, rest₂, changed₂, hpass, hv₂, hfewer₂, hrest₂, hkeep₂⟩ :=
      ih hv₁ fun item hitem => (hrest item hitem).mono hfewer
    refine ⟨v₂, (e, x) :: rest₂, changed || changed₂, ?_, hv₂, hfewer.trans hfewer₂, ?_, ?_⟩
    · simp only [pass, hvisit, hpass]
    · exact List.forall_mem_cons.2 ⟨hx.mono hfewer₂, hrest₂⟩
    · intro others hothers
      cases hothers with
      | cons hitem hothers => exact .cons ⟨hitem.twin, hkeep _ hitem.value⟩ (hkeep₂ _ hothers)

/-- **Passes over calm values** fail nowhere, and leave the values what they were matched with. -/
theorem passes_calm (n : Nat) : ∀ {p : Round}, Tame S w p.view →
    (∀ item ∈ p.items, CalmItem r S w p.view item) →
    ∃ q, passes r n p = .ok q ∧ ∀ others, List.Forall₂ (Twinned S w) p.items others →
      List.Forall₂ (Twinned S w) q.items others := by
  induction n with
  | zero => exact fun _ _ => ⟨_, rfl, fun _ h => h⟩
  | succ n ih =>
    intro p hv hcalm
    obtain ⟨v₁, items₁, changed, hpass, hv₁, -, hcalm₁, hkeep⟩ := pass_calm p.items hv hcalm
    rw [passes, hpass]
    cases changed with
    | false => exact ⟨_, rfl, hkeep⟩
    | true =>
      obtain ⟨q, hq, hkeep'⟩ := ih (p := ⟨v₁, items₁, p.changing + 1⟩) hv₁ hcalm₁
      exact ⟨q, hq, fun others hothers => hkeep' others (hkeep others hothers)⟩

/-! ## Runs in step -/

/-- What visits or passes over matched values come to. Either both change a value, or all values are
calm. -/
inductive Together {α : Type} (S : Text → Prop) (w : Weights) (v v' : View)
    (matched : α → α → Prop) (calm : View → α → Prop) :
    (out out' : Except Failure (View × α × Bool)) → Prop where
  /-- The same failure. -/
  | failed (f : Failure) : Together S w v v' matched calm (.error f) (.error f)
  /-- Matched values. -/
  | done {v₁ v₁' : View} {x x' : α} {changed changed' : Bool} : Agree S w v₁ v₁' → Fewer v v₁ →
      Fewer v' v₁' → matched x x' →
      ((changed = true ∧ changed' = true) ∨ (calm v₁ x ∧ calm v₁' x')) →
      Together S w v v' matched calm (.ok (v₁, x, changed)) (.ok (v₁', x', changed'))

theorem follow_stuck {free : Prop} {p : Text} {ps : List Text} {s t : Text}
    (hs : Alike S free (p :: ps) s t) {n : Nat} (h : n = 0 ∨ v p = none) (seen : List Text) :
    follow r key n seen v s = .ok (v, s) := by
  cases n with
  | zero => rfl
  | succ n =>
    obtain ⟨f, g, hnext, -⟩ := next_alike (r := r) hs
    have hp : v p = none := h.resolve_left (Nat.succ_ne_zero n)
    rw [follow_succ, hnext, offer_of_none hp]
    rfl

/-- Visits to the same plain text come to the same. -/
theorem visit_plain (hm : r.math.IsPlain) (hv : Agree S w v v') {e e' : Entry} (htwin : Twin e e')
    {s : Text} (hs : Plain s) (hlt : 0 < w e.flat) (hw : w e.flat ≠ ⊤)
    (hbars : w.Barred e.flat ↔ Bars w []) :
    Together S w v v' (Twinned S w) (CalmItem r S w) (visit r v (e, .text s))
      (visit r v' (e', .text s)) := by
  obtain ⟨out, hfollow, hout⟩ := follow_plain hm e.flat r.limit [s] hs
  have hfollow' : ∀ v, follow r e.flat r.limit [s] v s =
      out.map fun o => (v.hideAll o.1, o.2) := fun v => hfollow v [s] fun _ _ => Iff.rfl
  rw [visit_text, visit_text, ← htwin.flat, hfollow', hfollow']
  cases out with
  | error e => exact .failed e
  | ok o =>
    obtain ⟨hidden, x⟩ := o
    have hx : Alike S (S e.flat) [] x x := Alike.of_plain (hout _ rfl)
    refine .done ((hv.hideAll hidden).learn hx hw hlt hbars) (fewer_hideAll_learn _ _ _ _)
      (fewer_hideAll_learn _ _ _ _) ⟨htwin, .alike hx hlt hw hbars⟩ ?_
    by_cases hsame : x = s
    · subst hsame
      have hcalm : ∀ v, Calm r S w v e.flat (.text x) := fun v =>
        .still hx hw hbars fun v₁ _ => ⟨hidden, hfollow' v₁⟩
      exact Or.inr ⟨hcalm _, Calm.twin htwin (hcalm _)⟩
    · left
      simpa using hsame

/-- Visits to alike texts with references stay in step. -/
theorem visit_alike (hm : r.math.IsPlain) (pos : ∀ p, 0 < w p) (hv : Agree S w v v') {e e' : Entry}
    (htwin : Twin e e') {p : Text} {ps : List Text} {s s' : Text}
    (hs : Alike S (S e.flat) (p :: ps) s s') (hlt : load w (p :: ps) < w e.flat)
    (hw : w e.flat ≠ ⊤) (hbars : w.Barred e.flat ↔ Bars w (p :: ps)) :
    Together S w v v' (Twinned S w) (CalmItem r S w) (visit r v (e, .text s))
      (visit r v' (e', .text s')) := by
  have hrun := follow_alike hm pos hv r.limit hs hlt hbars (List.mem_singleton_self s)
    (List.mem_singleton_self s') (heavier_singleton hs) (heavier_singleton hs.symm)
  rw [visit_text, visit_text, ← htwin.flat]
  generalize follow r e.flat r.limit [s] v s = out at hrun
  generalize follow r e.flat r.limit [s'] v' s' = out' at hrun
  cases hrun with
  | failed f => exact .failed f
  | stuck hstuck =>
    -- Nothing was replaced, and later views have no more entries than these: the values stay.
    refine .done (hv.learn hs hw hlt hbars) (fewer_learn _ _ _) (fewer_learn _ _ _)
      ⟨htwin, .alike hs hlt hw hbars⟩ (Or.inr ⟨?_, ?_⟩)
    · refine .still hs.left hw hbars fun v₁ hv₁ =>
        ⟨[], follow_stuck hs (hstuck.imp_right fun hp => ?_) _⟩
      exact hv₁ p (fewer_learn _ _ _ p hp)
    · refine Calm.twin htwin (.still hs.right hw (htwin.flat ▸ hbars) fun v₁ hv₁ =>
        ⟨[], follow_stuck hs.symm (hstuck.imp_right fun hp => ?_) _⟩)
      exact hv₁ p (fewer_learn _ _ _ p ((hv.missing p).1 hp))
  | @gone hidden qs x x' hx hless hxbars =>
    -- Alike texts have the same paths, so texts of less weight are other texts: both visits change.
    have hne : ∀ {y z u : Text}, Alike S (S e.flat) qs y u → Alike S (S e.flat) (p :: ps) z z →
        (y != z) = true := by
      intro y z u hy hz
      refine bne_iff_ne.2 ?_
      rintro rfl
      rw [hy.left.unique hz] at hless
      exact lt_irrefl _ hless
    refine .done ((hv.hideAll hidden).learn hx hw (hless.trans hlt) hxbars)
      (fewer_hideAll_learn _ _ _ _) (fewer_hideAll_learn _ _ _ _)
      ⟨htwin, .alike hx (hless.trans hlt) hw hxbars⟩
      (Or.inl ⟨hne hx hs.left, hne hx.symm hs.right⟩)

/-- **Visits to matched values** stay in step. -/
theorem visit_matched (hm : r.math.IsPlain) (pos : ∀ p, 0 < w p) (hv : Agree S w v v')
    {item item' : Item} (h : Twinned S w item item') :
    Together S w v v' (Twinned S w) (CalmItem r S w) (visit r v item) (visit r v' item') := by
  obtain ⟨e, d⟩ := item
  obtain ⟨e', d'⟩ := item'
  obtain ⟨htwin, hvalue⟩ := h
  dsimp only at htwin hvalue
  cases hvalue with
  | same hd =>
    rw [visit_of_text?_none hd, visit_of_text?_none hd]
    exact .done hv (.refl v) (.refl v') ⟨htwin, .same hd⟩ (Or.inr ⟨.fixed hd, .fixed hd⟩)
  | @doomed s s' hs hs' hw =>
    obtain ⟨x, hfollow, hx⟩ := follow_doomed (r := r) e.flat hv.left r.limit [s] hs
    obtain ⟨x', hfollow', hx'⟩ := follow_doomed (r := r) e.flat hv.right r.limit [s'] hs'
    rw [visit_text, visit_text, ← htwin.flat, hfollow, hfollow']
    refine .done (hv.learn_doomed hx hx' hw) (fewer_learn _ _ _) (fewer_learn _ _ _)
      ⟨htwin, .doomed hx hx' hw⟩ (Or.inr ⟨.doomed hx hw, Calm.twin htwin (.doomed hx' hw)⟩)
  | @alike ps s s' hs hlt hw hbars =>
    cases ps with
    | nil =>
      obtain ⟨rfl, hplain⟩ := hs.eq_of_nil
      exact visit_plain hm hv htwin hplain hlt hw hbars
    | cons p ps => exact visit_alike hm pos hv htwin hs hlt hw hbars

/-- **Passes over matched values** stay in step. -/
theorem pass_matched (hm : r.math.IsPlain) (pos : ∀ p, 0 < w p) {items items' : List Item}
    (h : List.Forall₂ (Twinned S w) items items') :
    ∀ {v v' : View}, Agree S w v v' →
      Together S w v v' (List.Forall₂ (Twinned S w))
        (fun v items => ∀ item ∈ items, CalmItem r S w v item) (pass r v items)
        (pass r v' items') := by
  induction h with
  | nil =>
    intro v v' hv
    exact .done hv (.refl v) (.refl v') .nil
      (Or.inr ⟨fun _ h => absurd h List.not_mem_nil, fun _ h => absurd h List.not_mem_nil⟩)
  | @cons item item' rest rest' hitem _ ih =>
    intro v v' hv
    have hvisit := visit_matched hm pos hv hitem
    unfold pass
    generalize visit r v item = out at hvisit
    generalize visit r v' item' = out' at hvisit
    cases hvisit with
    | failed f => exact .failed f
    | @done v₁ v₁' x x' changed changed' hv₁ hfewer hfewer' hx hflags =>
      have hpass := ih hv₁
      dsimp only
      generalize pass r v₁ rest = out at hpass
      generalize pass r v₁' rest' = out' at hpass
      cases hpass with
      | failed f => exact .failed f
      | @done v₂ v₂' y y' changed₂ changed₂' hv₂ hfewer₂ hfewer₂' hy hflags₂ =>
        refine .done hv₂ (hfewer.trans hfewer₂) (hfewer'.trans hfewer₂') (.cons hx hy) ?_
        -- If one of the passes changes nothing, neither does the other.
        rcases hflags with ⟨rfl, rfl⟩ | ⟨hcalm, hcalm'⟩
        · exact Or.inl ⟨rfl, rfl⟩
        · rcases hflags₂ with ⟨rfl, rfl⟩ | ⟨hcalm₂, hcalm₂'⟩
          · exact Or.inl ⟨Bool.or_true _, Bool.or_true _⟩
          · exact Or.inr ⟨List.forall_mem_cons.2 ⟨hcalm.mono hfewer₂, hcalm₂⟩,
              List.forall_mem_cons.2 ⟨hcalm'.mono hfewer₂', hcalm₂'⟩⟩

/-- The passes behind one that left calm values. -/
theorem rest_calm (n : Nat) (changed : Bool) {items : List Item} (done : Nat) (hv : Tame S w v)
    (hcalm : ∀ item ∈ items, CalmItem r S w v item) :
    ∃ q, (if changed then passes r n ⟨v, items, done + 1⟩ else .ok ⟨v, items, done⟩) = .ok q ∧
      ∀ others, List.Forall₂ (Twinned S w) items others →
        List.Forall₂ (Twinned S w) q.items others := by
  cases changed with
  | false => exact ⟨_, rfl, fun _ h => h⟩
  | true => exact passes_calm n (p := ⟨v, items, done + 1⟩) hv hcalm

/-- What two runs come to. -/
inductive Level (S : Text → Prop) (w : Weights) :
    (out out' : Except (Failure × Nat) Round) → Prop where
  /-- The same failure. -/
  | failed (f : Failure) (n n' : Nat) : Level S w (.error (f, n)) (.error (f, n'))
  /-- Matched values. -/
  | done {q q' : Round} : List.Forall₂ (Twinned S w) q.items q'.items → Level S w (.ok q) (.ok q')

/-- **Runs over matched values** end with the same failure or with matched values. -/
theorem passes_matched (hm : r.math.IsPlain) (pos : ∀ p, 0 < w p) (n : Nat) :
    ∀ (p p' : Round), Agree S w p.view p'.view → List.Forall₂ (Twinned S w) p.items p'.items →
      Level S w (passes r n p) (passes r n p') := by
  induction n with
  | zero => exact fun _ _ _ h => .done h
  | succ n ih =>
    intro p p' hv h
    have hpass := pass_matched hm pos h hv
    rw [passes, passes]
    generalize pass r p.view p.items = out at hpass
    generalize pass r p'.view p'.items = out' at hpass
    cases hpass with
    | failed f => exact .failed f _ _
    | @done v₁ v₁' items items' changed changed' hv₁ _ _ hitems hflags =>
      dsimp only
      rcases hflags with ⟨rfl, rfl⟩ | ⟨hcalm, hcalm'⟩
      · exact ih ⟨v₁, items, p.changing + 1⟩ ⟨v₁', items', p'.changing + 1⟩ hv₁ hitems
      · -- From here on each run goes its own way, if it goes on.
        obtain ⟨q, hq, hkeep⟩ := rest_calm n changed p.changing hv₁.left hcalm
        obtain ⟨q', hq', hkeep'⟩ := rest_calm n changed' p'.changing hv₁.right hcalm'
        rw [hq, hq']
        exact .done (forall₂_symm (hkeep' _ (forall₂_symm (hkeep _ hitems))))

/-! ## Results -/

theorem hasUnresolved_of_alike {free : Prop} {p : Text} {ps : List Text} {s t : Text}
    (h : Alike S free (p :: ps) s t) : hasUnresolved s = true := by
  rw [hasUnresolved, occurs_of_alike h, Bool.true_or]

theorem Doomed.hasUnresolved {s : Text} (h : Doomed S w key s) : hasUnresolved s = true := by
  obtain ⟨p, ps, hps, -⟩ := h.exists_cons
  exact hasUnresolved_of_alike hps

/-- Matched values are both unfinished, or the same. -/
theorem Twinned.unfinished {item item' : Item} (h : Twinned S w item item') :
    (unfinished item = true ∧ unfinished item' = true) ∨
      (unfinished item = unfinished item' ∧ item.2 = item'.2) := by
  obtain ⟨e, d⟩ := item
  obtain ⟨e', d'⟩ := item'
  obtain ⟨-, hvalue⟩ := h
  dsimp only at hvalue
  cases hvalue with
  | same hd => exact Or.inr ⟨rfl, rfl⟩
  | doomed hs hs' _ => exact Or.inl ⟨hs.hasUnresolved, hs'.hasUnresolved⟩
  | @alike ps s s' hs _ _ _ =>
    cases ps with
    | nil =>
      obtain ⟨rfl, -⟩ := hs.eq_of_nil
      exact Or.inr ⟨rfl, rfl⟩
    | cons p ps => exact Or.inl ⟨hasUnresolved_of_alike hs, hasUnresolved_of_alike hs.symm⟩

/-- **Matched values have one result**: the same list of unresolved paths, or the same values. -/
theorem result_matched (scope : Scope) {items items' : List Item}
    (h : List.Forall₂ (Twinned S w) items items') : result scope items = result scope items' := by
  have hleft : List.Forall₂ (Twinned S w) (items.filter View.unfinished)
      (items'.filter View.unfinished) := by
    refine List.rel_filter (fun item item' hitem => ?_) h
    rcases hitem.unfinished with ⟨h, h'⟩ | ⟨h, -⟩
    · simp [h, h']
    · simp [h]
  have hpaths : (items.filter View.unfinished).map (·.1.flat) =
      (items'.filter View.unfinished).map (·.1.flat) :=
    List.forall₂_eq_eq_eq ▸ List.rel_map (fun _ _ hitem => hitem.twin.flat) hleft
  have hvalues : (∀ item ∈ items, View.unfinished item = false) →
      items.map (fun item => item.1.withValue item.2) =
        items'.map fun item => item.1.withValue item.2 := by
    intro hfinished
    clear hleft hpaths
    induction h with
    | nil => rfl
    | @cons item item' rest rest' hitem _ ih =>
      obtain ⟨hhere, hrest⟩ := List.forall_mem_cons.1 hfinished
      have hvalue : item.2 = item'.2 := by
        rcases hitem.unfinished with ⟨h, -⟩ | ⟨-, h⟩
        · rw [hhere] at h
          cases h
        · exact h
      rw [List.map_cons, List.map_cons, ih hrest, hitem.twin.withValue, hvalue]
  rw [result, result, ← hpaths]
  split
  · next hnone =>
    refine congrArg Except.ok (hvalues fun item hitem => ?_)
    have hempty := List.filter_eq_nil_iff.1 (List.map_eq_nil_iff.1 hnone) item hitem
    simpa using hempty
  · rfl

end View

end Colourway
