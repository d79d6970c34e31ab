import Colourway.Proofs.Resolve.View
import Colourway.Proofs.Syntax.Tidy
import Mathlib.Algebra.Order.BigOperators.Group.List
import Mathlib.Data.ENat.Lattice

/-!
# Alike texts, step by step

Two views whose values are alike resolve alike texts in step, with one reservation: a text that
leads to a reference for ever never comes to an end, but where it is left may depend on how the
references are spelled.

Throughout, `S` says which paths are sealed, and `w` gives each path a weight and says which paths
are barred.  A path is barred if its value cannot be told, or holds a reference to a barred path:
resolving it never comes past that reference.

* `load` — the weight of a list of paths up to the first barred one.  The weight of a path stands
  for the number of references that come up when its value is resolved, until a fault ends it; it is
  infinite where that never ends.
* `Doomed` — a text with references of infinite weight.  **`follow_doomed`**: it stays one, and
  comes to no fault.
* `Agree` — two views with alike values, but for paths of infinite weight.
* **`follow_alike`** — following alike texts of finite weight comes to alike texts, to the same
  failure, or to no step on both sides.
-/

namespace Colourway

open Text Syntax

/-- Colour arithmetic whose results hold no reference and come to hold none. -/
def ColourMath.IsPlain (m : ColourMath) : Prop :=
  ∀ call result, m.apply call = .ok result → Plain result

/-- A weight for each path, and the paths that are barred. -/
structure Weights where
  /-- The weight of a path. -/
  weight : Text → ℕ∞
  /-- Whether a path is barred. -/
  Barred : Text → Prop

instance : CoeFun Weights fun _ => Text → ℕ∞ := ⟨Weights.weight⟩

namespace View

variable {r : Resolver} {v v' : View} {key : Text} {S : Text → Prop}

/-! ## One step -/

/-- What the view has to replace a reference to `p` in the value of the entry at `key`. -/
def offer (v : View) (key p : Text) : Except ColourError (Option Text) :=
  match v p with
  | none => .ok none
  | some d =>
    if p = key then .ok none
    else
      match d.spliced? with
      | none => .error (.fault .longInteger)
      | some shown => .ok (some shown)

theorem offer_of_none {p : Text} (h : v p = none) : v.offer key p = .ok none := by
  rw [offer, h]

theorem offer_self : v.offer key key = .ok none := by
  rw [offer]
  split
  · rfl
  · exact if_pos rfl

theorem offer_untold {p : Text} {d : Document} (h : v p = some d) (hp : p ≠ key)
    (hd : d.spliced? = none) : v.offer key p = .error (.fault .longInteger) := by
  rw [offer, h]
  simp [hp, hd]

theorem offer_told {p shown : Text} {d : Document} (h : v p = some d) (hp : p ≠ key)
    (hd : d.spliced? = some shown) : v.offer key p = .ok (some shown) := by
  rw [offer, h]
  simp [hp, hd]

theorem next_of_search {s x m i a : Text} (h : search referenceAt s = some ⟨x, m, i, a⟩) :
    next r v key s = (v.offer key (trim i)).map (Option.map fun y => x ++ y ++ a) := by
  have hreplace : ∀ y, replaceFirst m y s = x ++ y ++ a :=
    replaceFirst_found referenceAt_steady h
  have hdollar : .char '$' ∈ s := by
    obtain ⟨s', hs'⟩ := search_hit h
    obtain ⟨t, g, -, hg, -⟩ := referenceAt_cases hs'
    have hm : m = .char '$' :: g.matched := congrArg Hit.matched hg
    have hsplit : x ++ m ++ a = s := search_append (fun _ _ => referenceAt_steady.split) h
    rw [← hsplit, hm]
    simp
  have hkind : classify s = .reference := by
    rw [classify, isHex_of_dollar hdollar, occurs, h]
    rfl
  rw [next, hkind]
  simp only [refer, findReference, h, Option.map_some, offer]
  cases v (trim i) with
  | none => rfl
  | some d =>
    by_cases hkey : trim i = key
    · simp only [hkey, if_true]
      rfl
    · cases hd : d.spliced? with
      | none => simp [hkey, hd, Except.map]
      | some shown => simp [hkey, hd, Except.map, hreplace]

/-- **A step on alike texts.**  The first reference, to the same path, gives way to what the views
have there; alike values leave alike texts. -/
theorem next_alike {free : Prop} {p : Text} {ps : List Text} {s t : Text}
    (h : Alike S free (p :: ps) s t) :
    ∃ f g : Text → Text,
      (∀ v key, next r v key s = (v.offer key p).map (Option.map f)) ∧
      (∀ v key, next r v key t = (v.offer key p).map (Option.map g)) ∧
      ∀ qs a b, Alike S (S p) qs a b → Alike S free (qs ++ ps) (f a) (g b) := by
  obtain ⟨x, m, m', i, i', a, b, hs, ht, rfl, hi', hx, ha, hb, hrest⟩ := h.found
  refine ⟨fun y => x ++ y ++ a, fun y => x ++ y ++ b, fun _ _ => next_of_search hs, ?_, ?_⟩
  · intro v key
    rw [next_of_search ht, hi']
  · intro qs y z hyz
    show Alike S free (qs ++ ps) (x ++ y ++ a) (x ++ z ++ b)
    rw [List.append_assoc, List.append_assoc]
    exact .prepend hx (hyz.append hrest ha hb)

theorem occurs_of_classify {s : Text} (h : classify s = .reference) :
    occurs referenceAt s = true := by
  rw [classify] at h
  split at h
  · cases h
  · split at h
    · assumption
    · split at h <;> cases h

/-- **A step on a plain text** does not depend on the view, and comes to a plain text. -/
theorem next_plain (hm : r.math.IsPlain) {s : Text} (hs : Plain s) :
    ∃ out, (∀ v key, next r v key s = out) ∧ ∀ x, out = .ok (some x) → Plain x := by
  cases hkind : classify s with
  | hex =>
    refine ⟨.ok (normalHex? s), fun v key => by rw [next, hkind], fun x hx => ?_⟩
    have hmarks := isMark_of_normalHex? (Except.ok.inj hx)
    exact .of_ne fun c hc => Expr.ne_dollar (hmarks c hc)
  | reference =>
    have hoccurs := occurs_of_classify hkind
    rw [occurs, hs.search_none] at hoccurs
    cases hoccurs
  | call =>
    refine ⟨next r (fun _ => none) [] s, fun v key => by rw [next, next, hkind], fun x hx => ?_⟩
    rw [next, hkind, findCall] at hx
    cases hfound : search callAt s with
    | none =>
      rw [hfound] at hx
      cases hx
    | some f =>
      rw [hfound] at hx
      dsimp only [Option.map_some] at hx
      cases hcall : r.math.apply (.ofName f.item.1 (splitArgs f.item.2) f.matched) with
      | error e =>
        rw [hcall] at hx
        cases hx
      | ok result =>
        rw [hcall] at hx
        obtain rfl := Option.some.inj (Except.ok.inj hx)
        exact hs.replace_call hfound (hm _ _ hcall)
  | literal =>
    refine ⟨.ok none, fun v key => by rw [next, hkind], fun x hx => ?_⟩
    cases hx

/-! ## Following a plain text -/

/-- The view without the entries at some paths. -/
def hideAll (v : View) (paths : List Text) : View := paths.foldl hide v

/-- **Following a plain text** comes to the same in every view, and hides the same paths. What has
come up before matters as far as it is plain. -/
theorem follow_plain (hm : r.math.IsPlain) (key : Text) (n : Nat) :
    ∀ {s : Text} (seen : List Text), Plain s → ∃ out : Except Failure (List Text × Text),
      (∀ v seen', (∀ x, Plain x → (x ∈ seen' ↔ x ∈ seen)) →
        follow r key n seen' v s = out.map fun o => (v.hideAll o.1, o.2)) ∧
      ∀ o, out = .ok o → Plain o.2 := by
  induction n with
  | zero =>
    intro s seen hs
    refine ⟨.ok ([], s), fun _ _ _ => rfl, ?_⟩
    rintro o ⟨⟩
    exact hs
  | succ n ih =>
    intro s seen hs
    obtain ⟨out, hnext, hplain⟩ := next_plain hm hs
    cases out with
    | error e =>
      -- What the arithmetic refuses, it refuses in every view.
      refine ⟨.error (Resolver.blame key e), fun v seen' _ => ?_, fun o ho => by cases ho⟩
      rw [follow_succ, hnext]
      rfl
    | ok out =>
      cases out with
      | none =>
        refine ⟨.ok ([], s), fun v seen' _ => ?_, ?_⟩
        · rw [follow_succ, hnext]
          rfl
        · rintro o ⟨⟩
          exact hs
      | some x =>
        have hx := hplain x rfl
        by_cases hsame : x = s
        · refine ⟨.ok ([], s), fun v seen' _ => ?_, ?_⟩
          · rw [follow_succ, hnext]
            exact if_pos hsame
          · rintro o ⟨⟩
            exact hs
        · by_cases hseen : x ∈ seen
          · -- The texts that came up before may differ, but not in the plain ones.
            refine ⟨.ok ([s], x), fun v seen' hagree => ?_, ?_⟩
            · rw [follow_succ, hnext]
              dsimp only
              rw [if_neg hsame, if_pos ((hagree x hx).2 hseen)]
              rfl
            · rintro o ⟨⟩
              exact hx
          · obtain ⟨out, hfollow, hout⟩ := ih (x :: seen) hx
            refine ⟨out.map fun o => (s :: o.1, o.2), fun v seen' hagree => ?_, ?_⟩
            · have hagree' : ∀ y, Plain y → (y ∈ x :: seen' ↔ y ∈ x :: seen) := by
                intro y hy
                rw [List.mem_cons, List.mem_cons, hagree y hy]
              rw [follow_succ, hnext]
              dsimp only
              rw [if_neg hsame, if_neg fun h => hseen ((hagree x hx).1 h),
                hfollow (v.hide s) (x :: seen') hagree']
              cases out <;> rfl
            · intro o ho
              cases out with
              | error e => cases ho
              | ok o' =>
                cases ho
                exact hout o' rfl

/-! ## Weights -/

open Classical in
/-- The weight of a list of paths, as far as the first that is barred. -/
noncomputable def load (w : Weights) : List Text → ℕ∞
  | [] => 0
  | p :: ps => w p + if w.Barred p then 0 else load w ps

/-- A text with references to these paths bars the path that it is the value of. -/
def Bars (w : Weights) (ps : List Text) : Prop := ∃ p ∈ ps, w.Barred p

section Load

variable {w : Weights} {p : Text} {ps qs : List Text}

@[simp] theorem load_nil : load w [] = 0 := rfl

theorem load_cons_of_barred (h : w.Barred p) : load w (p :: ps) = w p := by
  rw [load, if_pos h, add_zero]

theorem load_cons_of_free (h : ¬ w.Barred p) : load w (p :: ps) = w p + load w ps := by
  rw [load, if_neg h]

theorem le_load_cons : w p ≤ load w (p :: ps) := le_self_add

theorem not_bars_nil : ¬ Bars w [] := fun ⟨_, h, _⟩ => List.not_mem_nil h

theorem bars_cons : Bars w (p :: ps) ↔ w.Barred p ∨ Bars w ps := List.exists_mem_cons_iff ..

theorem load_append_of_bars (h : Bars w qs) : load w (qs ++ ps) = load w qs := by
  induction qs with
  | nil => exact absurd h not_bars_nil
  | cons q qs ih =>
    by_cases hq : w.Barred q
    · rw [List.cons_append, load_cons_of_barred hq, load_cons_of_barred hq]
    · rw [List.cons_append, load_cons_of_free hq, load_cons_of_free hq,
        ih ((bars_cons.mp h).resolve_left hq)]

theorem load_append_of_free (h : ¬ Bars w qs) : load w (qs ++ ps) = load w qs + load w ps := by
  induction qs with
  | nil => rw [List.nil_append, load_nil, zero_add]
  | cons q qs ih =>
    rw [bars_cons, not_or] at h
    rw [List.cons_append, load_cons_of_free h.1, load_cons_of_free h.1, ih h.2, add_assoc]

/-! ### One path replaced -/

/-- The references of its value in place of a path change nothing about what is barred. -/
theorem bars_replaced (hbars : w.Barred p ↔ Bars w qs) : Bars w (qs ++ ps) ↔ Bars w (p :: ps) := by
  rw [bars_cons, hbars]
  simp only [Bars, List.mem_append, or_and_right, exists_or]

/-- Lighter references in place of a path take weight away. -/
theorem load_replaced_lt (hbars : w.Barred p ↔ Bars w qs) (hlt : load w qs < w p)
    (hfinite : load w (p :: ps) ≠ ⊤) : load w (qs ++ ps) < load w (p :: ps) := by
  by_cases hp : w.Barred p
  · rwa [load_append_of_bars (hbars.mp hp), load_cons_of_barred hp]
  · rw [load_cons_of_free hp] at hfinite ⊢
    rw [load_append_of_free (mt hbars.mpr hp)]
    have hrest : load w ps < ⊤ := (ENat.add_lt_top.mp (lt_top_iff_ne_top.mpr hfinite)).2
    exact (ENat.add_lt_add_iff_right hrest.ne).mpr hlt

/-- Infinite weight stays infinite. -/
theorem load_replaced_top (hbars : w.Barred p ↔ Bars w qs) (htop : w p = ⊤ → load w qs = ⊤)
    (h : load w (p :: ps) = ⊤) : load w (qs ++ ps) = ⊤ := by
  by_cases hp : w.Barred p
  · rw [load_cons_of_barred hp] at h
    rw [load_append_of_bars (hbars.mp hp), htop h]
  · rw [load_cons_of_free hp] at h
    rw [load_append_of_free (mt hbars.mpr hp)]
    rcases ENat.add_eq_top.mp h with hp | hps
    · rw [htop hp, top_add]
    · rw [hps, add_top]

end Load

variable {w : Weights}

/-- A text of the entry at `key` with a reference that is never worked off. -/
def Doomed (S : Text → Prop) (w : Weights) (key s : Text) : Prop :=
  ∃ ps, Alike S (S key) ps s s ∧ load w ps = ⊤ ∧ (w.Barred key ↔ Bars w ps)

theorem Doomed.exists_cons {s : Text} (h : Doomed S w key s) :
    ∃ p ps, Alike S (S key) (p :: ps) s s ∧ load w (p :: ps) = ⊤ ∧
      (w.Barred key ↔ Bars w (p :: ps)) := by
  obtain ⟨ps, hps, htop, hbars⟩ := h
  cases ps with
  | nil => cases htop
  | cons p ps => exact ⟨p, ps, hps, htop, hbars⟩

theorem occurs_of_alike {free : Prop} {p : Text} {ps : List Text} {s t : Text}
    (h : Alike S free (p :: ps) s t) : occurs referenceAt s = true := by
  obtain ⟨x, m, m', i, i', a, b, hs, -⟩ := h.found
  rw [occurs, hs]
  rfl

/-- A view of tidy values under paths that hold no reference; the values of paths of infinite weight
have that weight, and the values of barred paths bar them. -/
structure Tame (S : Text → Prop) (w : Weights) (v : View) : Prop where
  /-- No path holds a reference. -/
  unmarked : ∀ p, occurs referenceAt p = true → v p = none
  /-- Every value that can be told is tidy, as heavy as its path if that has infinite weight, and
  bars its path if that is barred. -/
  tidy : ∀ p d s, v p = some d → d.spliced? = some s →
    ∃ ps, Alike S (S p) ps s s ∧ (w p = ⊤ → load w ps = ⊤) ∧ (w.Barred p ↔ Bars w ps)
  /-- The path of a value that cannot be told is barred. -/
  untold : ∀ p d, v p = some d → d.spliced? = none → w.Barred p ∧ w p ≠ ⊤

/-- Nothing has come to be seen. -/
def Fewer (v v' : View) : Prop := ∀ p, v p = none → v' p = none

theorem Fewer.refl (v : View) : Fewer v v := fun _ h => h

theorem Fewer.trans {v₁ v₂ v₃ : View} (h : Fewer v₁ v₂) (h' : Fewer v₂ v₃) : Fewer v₁ v₃ :=
  fun p hp => h' p (h p hp)

theorem fewer_hide (v : View) (path : Text) : Fewer v (v.hide path) := by
  intro p hp
  rw [hide]
  split
  · rfl
  · exact hp

theorem fewer_hideAll (paths : List Text) : ∀ v : View, Fewer v (v.hideAll paths) := by
  induction paths with
  | nil => exact Fewer.refl
  | cons path paths ih => exact fun v => (fewer_hide v path).trans (ih (v.hide path))

theorem fewer_learn (v : View) (path : Text) (d : Document) : Fewer v (v.learn path d) := by
  intro p hp
  rw [learn]
  split
  · rw [hp]
    rfl
  · exact hp

/-- What a visit does to a view takes nothing in. -/
theorem fewer_hideAll_learn (v : View) (paths : List Text) (path : Text) (d : Document) :
    Fewer v ((v.hideAll paths).learn path d) :=
  (fewer_hideAll paths v).trans (fewer_learn _ _ _)

theorem hide_eq_some {path p : Text} {d : Document} (h : v.hide path p = some d) :
    v p = some d := by
  rw [hide] at h
  split at h
  · cases h
  · exact h

theorem learn_eq_some {path p : Text} {x d : Document} (h : v.learn path x p = some d) :
    (p = path ∧ d = x) ∨ (p ≠ path ∧ v p = some d) := by
  rw [learn] at h
  split at h
  · next hp =>
    obtain ⟨-, -, rfl⟩ := Option.map_eq_some_iff.1 h
    exact Or.inl ⟨hp, rfl⟩
  · next hp => exact Or.inr ⟨hp, h⟩

/-- What two views have under a path after both have learned a value. -/
theorem learn_both_eq_some {path p : Text} {x x' d d' : Document}
    (hd : v.learn path x p = some d) (hd' : v'.learn path x' p = some d') :
    (p = path ∧ d = x ∧ d' = x') ∨ (p ≠ path ∧ v p = some d ∧ v' p = some d') := by
  rcases learn_eq_some hd with ⟨hp, hx⟩ | ⟨hp, hd⟩ <;>
    rcases learn_eq_some hd' with ⟨hp', hx'⟩ | ⟨hp', hd'⟩
  · exact .inl ⟨hp, hx, hx'⟩
  · exact absurd hp hp'
  · exact absurd hp' hp
  · exact .inr ⟨hp, hd, hd'⟩

namespace Tame

theorem hide (h : Tame S w v) (path : Text) : Tame S w (v.hide path) where
  unmarked p hp := fewer_hide v path p (h.unmarked p hp)
  tidy p d s hd := h.tidy p d s (hide_eq_some hd)
  untold p d hd := h.untold p d (hide_eq_some hd)

theorem hideAll (paths : List Text) : ∀ {v : View}, Tame S w v → Tame S w (v.hideAll paths) := by
  induction paths with
  | nil => exact fun h => h
  | cons path paths ih => exact fun h => ih (h.hide path)

theorem learn (h : Tame S w v) {path s : Text} {ps : List Text} (hs : Alike S (S path) ps s s)
    (hw : w path = ⊤ → load w ps = ⊤) (hbars : w.Barred path ↔ Bars w ps) :
    Tame S w (v.learn path (.text s)) where
  unmarked p hp := fewer_learn v path _ p (h.unmarked p hp)
  tidy p d x hd hx := by
    rcases learn_eq_some hd with ⟨rfl, rfl⟩ | ⟨-, hd⟩
    · obtain rfl : s = x := Option.some.inj hx
      exact ⟨ps, hs, hw, hbars⟩
    · exact h.tidy p d x hd hx
  untold p d hd hnone := by
    rcases learn_eq_some hd with ⟨-, rfl⟩ | ⟨-, hd⟩
    · cases hnone
    · exact h.untold p d hd hnone

/-- A text with references takes the key of no entry over. -/
theorem hide_alike (h : Tame S w v) {free : Prop} {p : Text} {ps : List Text} {s t : Text}
    (hs : Alike S free (p :: ps) s t) : v.hide s = v :=
  hide_of_none (h.unmarked s (occurs_of_alike hs))

end Tame

/-! ## Texts that never come to an end -/

/-- **A doomed text stays doomed.**  Following it fails nowhere and hides nothing. -/
theorem follow_doomed (key : Text) (hv : Tame S w v) (n : Nat) : ∀ {s : Text} (seen : List Text),
    Doomed S w key s → ∃ x, follow r key n seen v s = .ok (v, x) ∧ Doomed S w key x := by
  induction n with
  | zero => exact fun _ h => ⟨_, rfl, h⟩
  | succ n ih =>
    intro s seen hs
    obtain ⟨p, ps, hps, htop, hbars⟩ := hs.exists_cons
    obtain ⟨f, g, hnext, -, hf⟩ := next_alike (r := r) hps
    rw [follow_succ, hnext]
    cases hp : v p with
    | none =>
      rw [offer_of_none hp]
      exact ⟨s, rfl, hs⟩
    | some d =>
      by_cases hkey : p = key
      · rw [hkey, offer_self]
        exact ⟨s, rfl, hs⟩
      · cases hd : d.spliced? with
        | none =>
          -- The first reference would be barred and the whole weight, which is not infinite.
          obtain ⟨hbarred, hfinite⟩ := hv.untold p d hp hd
          rw [load_cons_of_barred hbarred] at htop
          exact absurd htop hfinite
        | some shown =>
          obtain ⟨qs, hqs, hheavy, hqbars⟩ := hv.tidy p d shown hp hd
          have hdoomed : Doomed S w key (f shown) :=
            ⟨qs ++ ps, (hf _ _ _ hqs).left, load_replaced_top hqbars hheavy htop,
              hbars.trans (bars_replaced hqbars).symm⟩
          rw [offer_told hp hkey hd]
          dsimp only [Except.map, Option.map_some]
          rw [hv.hide_alike hps]
          by_cases hsame : f shown = s
          · rw [if_pos hsame]
            exact ⟨s, rfl, hs⟩
          · rw [if_neg hsame]
            by_cases hseen : f shown ∈ seen
            · rw [if_pos hseen]
              exact ⟨_, rfl, hdoomed⟩
            · rw [if_neg hseen]
              exact ih _ hdoomed

/-! ## Two views in step -/

/-- Two views with values under the same paths: values that cannot be told on either side, or alike
values, with less weight than the path if the path has finite weight. -/
structure Agree (S : Text → Prop) (w : Weights) (v v' : View) : Prop where
  /-- The one view is tame. -/
  left : Tame S w v
  /-- So is the other. -/
  right : Tame S w v'
  /-- They have values under the same paths. -/
  missing : ∀ p, v p = none ↔ v' p = none
  /-- They have values that cannot be told under the same paths. -/
  untold : ∀ p d d', v p = some d → v' p = some d' → (d.spliced? = none ↔ d'.spliced? = none)
  /-- Values of finite weight are alike. -/
  alike : ∀ p d d' s s', v p = some d → v' p = some d' → d.spliced? = some s →
    d'.spliced? = some s' → w p ≠ ⊤ →
      ∃ ps, Alike S (S p) ps s s' ∧ load w ps < w p ∧ (w.Barred p ↔ Bars w ps)

namespace Agree

theorem hide (h : Agree S w v v') (path : Text) : Agree S w (v.hide path) (v'.hide path) where
  left := h.left.hide path
  right := h.right.hide path
  missing p := by
    rw [View.hide, View.hide]
    split
    · exact Iff.rfl
    · exact h.missing p
  untold p d d' hd hd' := h.untold p d d' (hide_eq_some hd) (hide_eq_some hd')
  alike p d d' s s' hd hd' := h.alike p d d' s s' (hide_eq_some hd) (hide_eq_some hd')

theorem hideAll (paths : List Text) : ∀ {v v' : View}, Agree S w v v' →
    Agree S w (v.hideAll paths) (v'.hideAll paths) := by
  induction paths with
  | nil => exact fun h => h
  | cons path paths ih => exact fun h => ih (h.hide path)

theorem missing_learn (h : Agree S w v v') (path : Text) (d d' : Document) (p : Text) :
    v.learn path d p = none ↔ v'.learn path d' p = none := by
  rw [View.learn, View.learn]
  split
  · rw [Option.map_eq_none_iff, Option.map_eq_none_iff, h.missing p]
  · exact h.missing p

theorem untold_learn (h : Agree S w v v') (path s s' p : Text) (d d' : Document)
    (hd : v.learn path (.text s) p = some d) (hd' : v'.learn path (.text s') p = some d') :
    d.spliced? = none ↔ d'.spliced? = none := by
  rcases learn_both_eq_some hd hd' with ⟨-, rfl, rfl⟩ | ⟨-, hd, hd'⟩
  · exact iff_of_false (fun hnone => by cases hnone) fun hnone => by cases hnone
  · exact h.untold p d d' hd hd'

/-- A path of finite weight may learn alike texts of less weight. -/
theorem learn (h : Agree S w v v') {path s s' : Text} {ps : List Text}
    (hs : Alike S (S path) ps s s') (hw : w path ≠ ⊤) (hlt : load w ps < w path)
    (hbars : w.Barred path ↔ Bars w ps) :
    Agree S w (v.learn path (.text s)) (v'.learn path (.text s')) where
  left := h.left.learn hs.left (fun htop => absurd htop hw) hbars
  right := h.right.learn hs.right (fun htop => absurd htop hw) hbars
  missing := h.missing_learn path _ _
  untold := h.untold_learn path s s'
  alike p d d' x x' hd hd' hx hx' hp := by
    rcases learn_both_eq_some hd hd' with ⟨rfl, rfl, rfl⟩ | ⟨-, hd, hd'⟩
    · obtain rfl : s = x := Option.some.inj hx
      obtain rfl : s' = x' := Option.some.inj hx'
      exact ⟨ps, hs, hlt, hbars⟩
    · exact h.alike p d d' x x' hd hd' hx hx' hp

/-- A path of infinite weight may learn any doomed texts. -/
theorem learn_doomed (h : Agree S w v v') {path s s' : Text} (hs : Doomed S w path s)
    (hs' : Doomed S w path s') (hw : w path = ⊤) :
    Agree S w (v.learn path (.text s)) (v'.learn path (.text s')) := by
  obtain ⟨ps, hps, htop, hbars⟩ := hs
  obtain ⟨ps', hps', htop', hbars'⟩ := hs'
  refine ⟨h.left.learn hps (fun _ => htop) hbars, h.right.learn hps' (fun _ => htop') hbars',
    h.missing_learn path _ _, h.untold_learn path s s', ?_⟩
  intro p d d' x x' hd hd' hx hx' hp
  rcases learn_both_eq_some hd hd' with ⟨rfl, -⟩ | ⟨-, hd, hd'⟩
  · exact absurd hw hp
  · exact h.alike p d d' x x' hd hd' hx hx' hp

end Agree

/-! ## Following alike texts -/

/-- Texts that came up before one of less weight. -/
def Heavier (S : Text → Prop) (w : Weights) (key : Text) (least : ℕ∞) (seen : List Text) :
    Prop := ∀ x ∈ seen, ∃ ps, Alike S (S key) ps x x ∧ least ≤ load w ps

theorem heavier_singleton {ps : List Text} {s t : Text} (h : Alike S (S key) ps s t) :
    Heavier S w key (load w ps) [s] := by
  intro x hx
  rw [List.mem_singleton.1 hx]
  exact ⟨ps, h.left, le_rfl⟩

theorem Heavier.not_mem {least : ℕ∞} {seen : List Text} (h : Heavier S w key least seen)
    {ps : List Text} {s t : Text} (hs : Alike S (S key) ps s t) (hlt : load w ps < least) :
    s ∉ seen := by
  intro hmem
  obtain ⟨qs, hqs, hle⟩ := h s hmem
  rw [hs.left.unique hqs] at hlt
  exact absurd hle (not_le.2 hlt)

theorem Heavier.cons {least less : ℕ∞} {seen : List Text} (h : Heavier S w key least seen)
    (hlt : less < least) {ps : List Text} {s t : Text} (hs : Alike S (S key) ps s t)
    (hle : less ≤ load w ps) : Heavier S w key less (s :: seen) := by
  intro x hx
  rcases List.mem_cons.1 hx with rfl | hx
  · exact ⟨ps, hs.left, hle⟩
  · obtain ⟨qs, hqs, hle'⟩ := h x hx
    exact ⟨qs, hqs, hlt.le.trans hle'⟩

/-- What following two alike texts with references comes to. -/
inductive Followed (S : Text → Prop) (w : Weights) (key : Text) (v v' : View) (n : Nat)
    (p : Text) (weight : ℕ∞) (s s' : Text) : (out out' : Except Failure (View × Text)) → Prop where
  /-- The same failure. -/
  | failed (f : Failure) : Followed S w key v v' n p weight s s' (.error f) (.error f)
  /-- No step, as there is nothing at the path of the first reference. -/
  | stuck : (n = 0 ∨ v p = none) →
      Followed S w key v v' n p weight s s' (.ok (v, s)) (.ok (v', s'))
  /-- Alike texts of less weight, which bar the path if it is barred. -/
  | gone (hidden : List Text) {qs : List Text} {x x' : Text} : Alike S (S key) qs x x' →
      load w qs < weight → (w.Barred key ↔ Bars w qs) →
      Followed S w key v v' n p weight s s' (.ok (v.hideAll hidden, x))
        (.ok (v'.hideAll hidden, x'))

theorem Followed.less {n m : Nat} {p q : Text} {weight less : ℕ∞} {s s' x x' : Text}
    {qs : List Text} {out out' : Except Failure (View × Text)}
    (h : Followed S w key v v' n q less x x' out out') (hx : Alike S (S key) qs x x')
    (hbars : w.Barred key ↔ Bars w qs) (hload : load w qs = less) (hlt : less < weight) :
    Followed S w key v v' m p weight s s' out out' := by
  cases h with
  | failed f => exact .failed f
  | stuck => exact .gone [] hx (hload.trans_lt hlt) hbars
  | gone hidden hy hless hybars => exact .gone hidden hy (hless.trans hlt) hybars

/-- No plain text is heavier than a reference. -/
theorem Heavier.not_plain (pos : ∀ p, 0 < w p) {p : Text} {ps seen : List Text}
    (h : Heavier S w key (load w (p :: ps)) seen) {x : Text} (hx : Plain x) : x ∉ seen := by
  refine h.not_mem (Alike.of_plain hx) ?_
  rw [load_nil]
  exact (pos p).trans_le le_load_cons

/-- Once the references are gone the texts are the same, and they are followed alike whatever
heavier texts came up before. -/
theorem follow_gone (hm : r.math.IsPlain) (pos : ∀ p, 0 < w p) {n m : Nat} {p s s' x : Text}
    {ps seen seen' : List Text} (hplain : Plain x) (hless : load w [] < load w (p :: ps))
    (hbars : w.Barred key ↔ Bars w []) (hseen : Heavier S w key (load w (p :: ps)) seen)
    (hseen' : Heavier S w key (load w (p :: ps)) seen') :
    Followed S w key v v' m p (load w (p :: ps)) s s' (follow r key n (x :: seen) v x)
      (follow r key n (x :: seen') v' x) := by
  obtain ⟨out, hfollow, hout⟩ := follow_plain hm key n [x] hplain
  have hagree : ∀ {seen}, Heavier S w key (load w (p :: ps)) seen → ∀ y, Plain y →
      (y ∈ x :: seen ↔ y ∈ [x]) := by
    intro seen hseen y hy
    simp [hseen.not_plain pos hy]
  rw [hfollow v _ (hagree hseen), hfollow v' _ (hagree hseen')]
  cases out with
  | error e => exact .failed e
  | ok o => exact .gone o.1 (Alike.of_plain (hout o rfl)) hless hbars

/-- **Following alike texts of finite weight.**  Each step takes weight away, so no text comes up
again before there are no references any more; from then on the texts are the same.  A value that
cannot be told stops both runs. -/
theorem follow_alike (hm : r.math.IsPlain) (pos : ∀ p, 0 < w p) (hv : Agree S w v v') (n : Nat) :
    ∀ {p : Text} {ps seen seen' : List Text} {s s' : Text}, Alike S (S key) (p :: ps) s s' →
      load w (p :: ps) < w key → (w.Barred key ↔ Bars w (p :: ps)) → s ∈ seen → s' ∈ seen' →
      Heavier S w key (load w (p :: ps)) seen → Heavier S w key (load w (p :: ps)) seen' →
      Followed S w key v v' n p (load w (p :: ps)) s s' (follow r key n seen v s)
        (follow r key n seen' v' s') := by
  induction n with
  | zero => exact fun _ _ _ _ _ _ _ => .stuck (Or.inl rfl)
  | succ n ih =>
    intro p ps seen seen' s s' hs hkey hbars hmem hmem' hseen hseen'
    obtain ⟨f, g, hnext, hnext', hfg⟩ := next_alike (r := r) hs
    have hfinite : load w (p :: ps) ≠ ⊤ := (hkey.trans_le le_top).ne
    -- All references together weigh less than the entry, so none of them leads to the entry itself.
    have hself : p ≠ key := by
      rintro rfl
      exact absurd hkey (not_lt.2 le_load_cons)
    rw [follow_succ, follow_succ, hnext, hnext']
    cases hvp : v p with
    | none =>
      -- The views hold the same paths: neither has the entry, and both runs are at their end.
      rw [offer_of_none hvp, offer_of_none ((hv.missing p).1 hvp)]
      exact .stuck (Or.inr hvp)
    | some d =>
      obtain ⟨d', hvp'⟩ : ∃ d', v' p = some d' := by
        refine Option.ne_none_iff_exists'.1 fun h => ?_
        rw [(hv.missing p).2 h] at hvp
        cases hvp
      cases hd : d.spliced? with
      | none =>
        -- The value cannot be told in the other view either.
        have hd' := (hv.untold p d d' hvp hvp').mp hd
        rw [offer_untold hvp hself hd, offer_untold hvp' hself hd']
        exact .failed _
      | some y =>
        obtain ⟨y', hd'⟩ : ∃ y', d'.spliced? = some y' := by
          refine Option.ne_none_iff_exists'.1 fun h => ?_
          rw [(hv.untold p d d' hvp hvp').mpr h] at hd
          cases hd
        -- The value is lighter than its path, so what it leaves is lighter than what was there.
        obtain ⟨qs, hqs, hlt, hqbars⟩ := hv.alike p d d' y y' hvp hvp' hd hd'
          (ne_top_of_le_ne_top hfinite le_load_cons)
        have hx := hfg _ _ _ hqs
        have hless := load_replaced_lt hqbars hlt hfinite
        have hxbars := hbars.trans (bars_replaced hqbars).symm
        -- Whatever came up before is heavier, so neither run has seen its text.
        have hnew := hseen.not_mem hx hless
        have hnew' := hseen'.not_mem hx.symm hless
        have hne : f y ≠ s := fun heq => hnew (heq ▸ hmem)
        have hne' : g y' ≠ s' := fun heq => hnew' (heq ▸ hmem')
        rw [offer_told hvp hself hd, offer_told hvp' hself hd']
        dsimp only [Except.map, Option.map_some]
        rw [if_neg hne, if_neg hne', if_neg hnew, if_neg hnew', hv.left.hide_alike hs,
          hv.right.hide_alike hs.symm]
        generalize f y = x at hx
        generalize g y' = x' at hx
        generalize qs ++ ps = rs at hx hless hxbars
        cases rs with
        | nil =>
          -- The last reference is gone.
          obtain ⟨rfl, hplain⟩ := hx.eq_of_nil
          exact follow_gone hm pos hplain hless hxbars hseen hseen'
        | cons q rs =>
          -- There are references left, lighter ones, and the induction goes on from these.
          have hrest := ih hx (hless.trans hkey) hxbars List.mem_cons_self List.mem_cons_self
            (hseen.cons hless hx le_rfl) (hseen'.cons hless hx.symm le_rfl)
          exact hrest.less hx hxbars rfl hless

end View

end Colourway
