import Colourway.Proofs.Resolve.Isolation
import Colourway.Proofs.Resolve.Matched
import Colourway.Proofs.Resolve.Outcome
import Colourway.Proofs.Resolve.Resolved
import Colourway.Proofs.Syntax.Spelling
import Mathlib.Order.FixedPoints

/-!
# The spelling of references

Entries that differ in how they spell their references resolve to the same, if no text reads on
behind a reference that leads to another spelling.

* **`exists_weight`** — the weights of the paths of two views, as a least fixed point.
* **`View.evaluate_respelled_of_view`** — entries with alike values have the same outcome.
* **`evaluate_respelled`** — how one entry spells its reference makes no difference to the outcome.
* **`bare_reads_on`** — unless another entry puts a word behind it.
-/

namespace Colourway

open Text Syntax

namespace View

variable {r : Resolver} {S : Text → Prop} {w : Weights} {v v' : View} {key : Text}

/-! ## Weights -/

section Weights

variable {refs : Text → List Text}

/-- The weights of paths one step further: one for the reference itself, and the weight of the
references of its value. -/
noncomputable def heavier (barred : Text → Prop) (refs : Text → List Text) :
    (Text → ℕ∞) →o (Text → ℕ∞) where
  toFun w p := load ⟨w, barred⟩ (refs p) + 1
  monotone' w₁ w₂ h p := by
    refine add_le_add ?_ le_rfl
    induction refs p with
    | nil => exact le_rfl
    | cons q qs ih =>
      refine add_le_add (h q) ?_
      split
      · exact le_rfl
      · exact ih

/-- The paths whose values cannot be told, and those whose values refer to such paths. -/
inductive LeadsUntold (v : View) (refs : Text → List Text) : Text → Prop where
  /-- The value at the path cannot be told. -/
  | here {p : Text} {d : Document} : v p = some d → d.spliced? = none → LeadsUntold v refs p
  /-- The value at the path has a reference to such a path. -/
  | behind {p q : Text} : q ∈ refs p → LeadsUntold v refs q → LeadsUntold v refs p

/-- Values at one path of two views: none, two that cannot be told, or two that are told by alike
texts. -/
inductive Beside (S : Text → Prop) (p : Text) : Option Document → Option Document → Prop where
  /-- There is no value. -/
  | none : Beside S p none none
  /-- Neither value can be told. -/
  | untold {d d' : Document} : d.spliced? = Option.none → d'.spliced? = Option.none →
      Beside S p (some d) (some d')
  /-- Both values are told by alike texts. -/
  | told {d d' : Document} {s s' : Text} {ps : List Text} : d.spliced? = some s →
      d'.spliced? = some s' → Alike S (S p) ps s s' → Beside S p (some d) (some d')

theorem Beside.symm {p : Text} {d d' : Option Document} (h : Beside S p d d') :
    Beside S p d' d := by
  cases h with
  | none => exact .none
  | untold hd hd' => exact .untold hd' hd
  | told hd hd' hs => exact .told hd' hd hs.symm

/-- Values under the same paths, alike at each. -/
def Alongside (S : Text → Prop) (v v' : View) : Prop := ∀ p, Beside S p (v p) (v' p)

/-- A path weighs one more than the references of its value, and is barred by these, or by a value
that cannot be told. -/
structure Weighed (w : Weights) (v : View) (refs : Text → List Text) : Prop where
  /-- A path weighs one more than the references of its value. -/
  weight : ∀ p, w p = load w (refs p) + 1
  /-- A path of a value that can be told is barred by the references of the value. -/
  barred : ∀ p d s, v p = some d → d.spliced? = some s → (w.Barred p ↔ Bars w (refs p))
  /-- A path of a value that cannot be told is barred, and has no references. -/
  untold : ∀ p d, v p = some d → d.spliced? = none → w.Barred p ∧ refs p = []

namespace Weighed

theorem pos (h : Weighed w v refs) (p : Text) : 0 < w p := by
  rw [h.weight p]
  exact zero_lt_one.trans_le le_add_self

theorem eq_top (h : Weighed w v refs) {p : Text} (hp : w p = ⊤) : load w (refs p) = ⊤ := by
  rw [h.weight p, ENat.add_eq_top] at hp
  exact hp.resolve_right ENat.one_ne_top

theorem lt (h : Weighed w v refs) {p : Text} (hp : w p ≠ ⊤) : load w (refs p) < w p := by
  have hload : load w (refs p) ≠ ⊤ := by
    intro htop
    rw [h.weight p, htop, top_add] at hp
    exact hp rfl
  calc load w (refs p) < load w (refs p) + 1 := (ENat.lt_add_one_iff hload).2 le_rfl
    _ = w p := (h.weight p).symm

theorem ne_top (h : Weighed w v refs) {p : Text} (hp : refs p = []) : w p ≠ ⊤ := by
  rw [h.weight p, hp, load_nil, zero_add]
  exact ENat.one_ne_top

end Weighed

/-- The references of the values of two views. -/
def Refers (S : Text → Prop) (v v' : View) (refs : Text → List Text) : Prop :=
  ∀ p d d' s s', v p = some d → v' p = some d' → d.spliced? = some s → d'.spliced? = some s' →
    Alike S (S p) (refs p) s s'

namespace Alongside

theorem symm (h : Alongside S v v') : Alongside S v' v := fun p => (h p).symm

theorem missing (h : Alongside S v v') (p : Text) : v p = none ↔ v' p = none := by
  have hp := h p
  generalize v p = d at hp
  generalize v' p = d' at hp
  cases hp <;> simp

theorem untold (h : Alongside S v v') {p : Text} {d d' : Document} (hd : v p = some d)
    (hd' : v' p = some d') : d.spliced? = none ↔ d'.spliced? = none := by
  have hp := h p
  rw [hd, hd'] at hp
  cases hp with
  | untold hd hd' => simp [hd, hd']
  | told hd hd' => simp [hd, hd']

/-- Where the one view has a value that can be told, the other has one. -/
theorem exists_told (h : Alongside S v v') {p s : Text} {d : Document} (hd : v p = some d)
    (hs : d.spliced? = some s) :
    ∃ d' s' ps, v' p = some d' ∧ d'.spliced? = some s' ∧ Alike S (S p) ps s s' := by
  have hp := h p
  rw [hd] at hp
  generalize v' p = d' at hp
  cases hp with
  | untold hnone =>
    rw [hs] at hnone
    cases hnone
  | @told _ d' x s' ps hx hs' hps =>
    obtain rfl : s = x := Option.some.inj (hs.symm.trans hx)
    exact ⟨d', s', ps, rfl, hs', hps⟩

end Alongside

/-- **There are weights.**  A path that leads back to itself, before it leads to a value that cannot
be told, has no finite one. -/
theorem exists_weight (h : Alongside S v v') :
    ∃ (w : Weights) (refs : Text → List Text), Refers S v v' refs ∧ Weighed w v refs := by
  have hrefs : ∀ p, ∃ ps,
      (∀ d d' s s', v p = some d → v' p = some d' → d.spliced? = some s →
        d'.spliced? = some s' → Alike S (S p) ps s s') ∧
      ∀ d, v p = some d → d.spliced? = none → ps = [] := by
    intro p
    cases hp : v p with
    | none => exact ⟨[], fun d d' s s' hd => (by cases hd), fun d hd => (by cases hd)⟩
    | some x =>
      cases hx : x.spliced? with
      | none =>
        -- A value that cannot be told holds no references.
        refine ⟨[], fun d d' s s' hd _ hs => ?_, fun _ _ _ => rfl⟩
        obtain rfl := Option.some.inj hd
        rw [hx] at hs
        cases hs
      | some y =>
        obtain ⟨x', y', ps, hx', hy', hps⟩ := h.exists_told hp hx
        refine ⟨ps, fun d d' s s' hd hd' hs hs' => ?_, fun d hd hnone => ?_⟩
        · obtain rfl := Option.some.inj hd
          obtain rfl := Option.some.inj (hx'.symm.trans hd')
          obtain rfl := Option.some.inj (hx.symm.trans hs)
          obtain rfl := Option.some.inj (hy'.symm.trans hs')
          exact hps
        · obtain rfl := Option.some.inj hd
          rw [hx] at hnone
          cases hnone
  choose refs halike hnone using hrefs
  -- The least weights for which every path is heavier than its references, where there are such.
  refine ⟨⟨(heavier (LeadsUntold v refs) refs).lfp, LeadsUntold v refs⟩, refs, halike,
    fun p => ?_, ?_, ?_⟩
  · exact (congrFun (heavier (LeadsUntold v refs) refs).map_lfp p).symm
  · intro p d s hd hs
    constructor
    · intro hleads
      cases hleads with
      | here hd' hnone =>
        obtain rfl := Option.some.inj (hd.symm.trans hd')
        rw [hs] at hnone
        cases hnone
      | behind hq hleads => exact ⟨_, hq, hleads⟩
    · rintro ⟨q, hq, hleads⟩
      exact .behind hq hleads
  · exact fun p d hd hd' => ⟨.here hd hd', hnone p d hd hd'⟩

theorem Refers.symm (h : Refers S v v' refs) : Refers S v' v refs :=
  fun p d d' s s' hd hd' hs hs' => (h p d' d s' s hd' hd hs' hs).symm

theorem Weighed.other (h : Alongside S v v') (hw : Weighed w v refs) : Weighed w v' refs where
  weight := hw.weight
  barred p d s hd hs := by
    obtain ⟨d', s', -, hd', hs', -⟩ := h.symm.exists_told hd hs
    exact hw.barred p d' s' hd' hs'
  untold p d hd hnone := by
    obtain ⟨d', hd'⟩ := Option.ne_none_iff_exists'.mp fun hp => by
      rw [h.missing p, hd] at hp
      cases hp
    exact hw.untold p d' hd' ((h.untold hd' hd).mpr hnone)

theorem tame_of_weighed (h : Alongside S v v') (hrefs : Refers S v v' refs)
    (hw : Weighed w v refs) (hv : ∀ p, occurs referenceAt p = true → v p = none) :
    Tame S w v where
  unmarked := hv
  tidy p d s hd hs := by
    obtain ⟨d', s', -, hd', hs', -⟩ := h.exists_told hd hs
    exact ⟨refs p, (hrefs p d d' s s' hd hd' hs hs').left, hw.eq_top, hw.barred p d s hd hs⟩
  untold p d hd hnone := by
    obtain ⟨hbarred, hempty⟩ := hw.untold p d hd hnone
    exact ⟨hbarred, hw.ne_top hempty⟩

/-- Weighed views agree. -/
theorem agree_of_weighed (h : Alongside S v v') (hrefs : Refers S v v' refs)
    (hw : Weighed w v refs) (hv : ∀ p, occurs referenceAt p = true → v p = none) :
    Agree S w v v' where
  left := tame_of_weighed h hrefs hw hv
  right := tame_of_weighed h.symm hrefs.symm (hw.other h) fun p hp => (h.missing p).1 (hv p hp)
  missing := h.missing
  untold _ _ _ hd hd' := h.untold hd hd'
  alike p d d' s s' hd hd' hs hs' hp :=
    ⟨refs p, hrefs p d d' s s' hd hd' hs hs', hw.lt hp, hw.barred p d s hd hs⟩

end Weights

/-! ## Before the first pass -/

/-- Two entries at the same place with alike values. -/
structure Respelled (r : Resolver) (S : Text → Prop) (e e' : Entry) : Prop where
  /-- They are at the same place. -/
  twin : Twin e e'
  /-- Their values without aliases are alike. -/
  beside : Beside S e.flat (some (r.expand e.value)) (some (r.expand e'.value))
  /-- They differ only if they are texts. -/
  text : r.expand e.value = r.expand e'.value ∨
    ∃ s s', r.expand e.value = .text s ∧ r.expand e'.value = .text s'

theorem Alongside.put (h : Alongside S v v') {path : Text} {d d' : Document}
    (hd : Beside S path (some d) (some d')) : Alongside S (v.put path d) (v'.put path d') := by
  intro p
  rw [View.put, View.put]
  split
  · next hp => exact hp ▸ hd
  · exact h p

theorem Alongside.enterAll {es es' : List Entry} (h : List.Forall₂ (Respelled r S) es es') :
    ∀ {v v' : View}, Alongside S v v' →
      Alongside S (v.enterAll r es) (v'.enterAll r es') := by
  induction h with
  | nil => exact fun hv => hv
  | @cons e e' rest rest' he _ ih =>
    intro v v' hv
    have hput : Alongside S (v.put e.flat (r.expand e.value))
        (v'.put e'.flat (r.expand e'.value)) := by
      rw [← he.twin.flat]
      exact hv.put he.beside
    exact ih hput

theorem forall₂_flat {es es' : List Entry} (h : List.Forall₂ (Respelled r S) es es') :
    es.map Entry.flat = es'.map Entry.flat := by
  induction h with
  | nil => rfl
  | cons he _ ih => rw [List.map_cons, List.map_cons, he.twin.flat, ih]

/-- Entries that the views hold have matched values. -/
theorem forall₂_items {refs : Text → List Text} {es es' : List Entry}
    (h : List.Forall₂ (Respelled r S) es es')
    (hrefs : Refers S v v' refs) (hw : Weighed w v refs)
    (hv : ∀ e ∈ es, v e.flat = some (r.expand e.value))
    (hv' : ∀ e ∈ es', v' e.flat = some (r.expand e.value)) :
    List.Forall₂ (Twinned S w) (items r es) (items r es') := by
  induction h with
  | nil => exact .nil
  | @cons e e' rest rest' he _ ih =>
    obtain ⟨hd, hrest⟩ := List.forall_mem_cons.1 hv
    obtain ⟨hd', hrest'⟩ := List.forall_mem_cons.1 hv'
    refine .cons ⟨he.twin, ?_⟩ (ih hrest hrest')
    rw [← he.twin.flat] at hd'
    have htexts : ∀ {s s' : Text}, r.expand e.value = .text s → r.expand e'.value = .text s' →
        Matched S w e.flat (.text s) (.text s') := by
      intro s s' hs hs'
      rw [hs] at hd
      rw [hs'] at hd'
      have halike := hrefs _ _ _ s s' hd hd' rfl rfl
      have hbars := hw.barred _ _ s hd rfl
      by_cases htop : w e.flat = ⊤
      · -- Values of no finite weight need not be alike step by step: neither is ever resolved.
        exact .doomed ⟨_, halike.left, hw.eq_top htop, hbars⟩
          ⟨_, halike.right, hw.eq_top htop, hbars⟩ htop
      · exact .alike halike (hw.lt htop) htop hbars
    show Matched S w e.flat (r.expand e.value) (r.expand e'.value)
    rcases he.text with hsame | ⟨s, s', hs, hs'⟩
    · cases htext : (r.expand e.value).text? with
      | none =>
        rw [← hsame]
        exact .same htext
      | some s =>
        have hs := Document.eq_text_of_text? htext
        have hs' := hsame.symm.trans hs
        rw [hs, hs']
        exact htexts hs hs'
    · rw [hs, hs']
      exact htexts hs hs'

/-- A view that references in alike texts may be resolved in. -/
structure Fit (S : Text → Prop) (v : View) : Prop where
  /-- No path holds a reference. -/
  unmarked : ∀ p, occurs referenceAt p = true → v p = none
  /-- Every value that can be told is tidy, that of a sealed path in front of any text. -/
  tidy : ∀ p d s, v p = some d → d.spliced? = some s → Tidy S (S p) s

theorem fit_nothing : Fit S fun _ => none := ⟨fun _ _ => rfl, fun _ _ _ h => by cases h⟩

theorem Fit.put (h : Fit S v) {path : Text} {d : Document} (hpath : occurs referenceAt path = false)
    (hd : ∀ s, d.spliced? = some s → Tidy S (S path) s) : Fit S (v.put path d) where
  unmarked p hp := by
    rw [View.put, if_neg, h.unmarked p hp]
    rintro rfl
    rw [hpath] at hp
    cases hp
  tidy p x s hx hs := by
    rw [View.put] at hx
    split at hx
    · next hp =>
      cases hx
      exact hp ▸ hd s hs
    · exact h.tidy p x s hx hs

/-- A value that is tidy if it can be told is beside itself. -/
theorem beside_self {p : Text} {d : Document} (h : ∀ s, d.spliced? = some s → Tidy S (S p) s) :
    Beside S p (some d) (some d) := by
  cases hd : d.spliced? with
  | none => exact .untold hd hd
  | some s =>
    obtain ⟨ps, hps⟩ := (h s hd).alike
    exact .told hd hd hps

theorem Fit.alongside (h : Fit S v) : Alongside S v v := by
  intro p
  cases hp : v p with
  | none => exact .none
  | some d => exact beside_self fun s hs => h.tidy p d s hp hs

theorem unmarked_enterAll {es : List Entry} (hv : ∀ p, occurs referenceAt p = true → v p = none)
    (hes : ∀ e ∈ es, occurs referenceAt e.flat = false) {p : Text}
    (hp : occurs referenceAt p = true) : v.enterAll r es p = none := by
  rw [enterAll_of_not_mem, hv p hp]
  rintro e he rfl
  rw [hes e he] at hp
  cases hp

/-- **Resolution does not depend on how references are spelled.** -/
theorem evaluate_respelled_of_view (hm : r.math.IsPlain) (scope : Scope) (hv : Fit S v)
    {es es' : List Entry} (h : List.Forall₂ (Respelled r S) es es')
    (distinct : (es.map Entry.flat).Nodup)
    (unmarked : ∀ e ∈ es, occurs referenceAt e.flat = false) :
    (evaluate r scope v es).1 = (evaluate r scope v es').1 := by
  have hflat := forall₂_flat h
  have halong := Alongside.enterAll h hv.alongside
  obtain ⟨w, refs, hrefs, hw⟩ := exists_weight halong
  have hitems := forall₂_items h hrefs hw (fun e he => enterAll_of_mem distinct he)
    (fun e he => enterAll_of_mem (hflat ▸ distinct) he)
  have hagree := agree_of_weighed halong hrefs hw fun p hp =>
    unmarked_enterAll hv.unmarked unmarked hp
  have hrun := passes_matched hm hw.pos r.limit ⟨v.enterAll r es, items r es, 0⟩
    ⟨v.enterAll r es', items r es', 0⟩ hagree hitems
  rw [evaluate, evaluate]
  generalize passes r r.limit ⟨v.enterAll r es, items r es, 0⟩ = out at hrun
  generalize passes r r.limit ⟨v.enterAll r es', items r es', 0⟩ = out' at hrun
  cases hrun with
  | failed f n n' => rfl
  | done hdone => exact result_matched scope hdone

end View

namespace Resolver

open Store

variable {r : Resolver} {S : Text → Prop} {scope : Scope}

/-- An entry whose value is tidy, if it can be told, is like itself. -/
theorem respelled_self {e : Entry}
    (h : ∀ shown, (r.expand e.value).spliced? = some shown → Tidy S (S e.flat) shown) :
    View.Respelled r S e e := ⟨⟨rfl, rfl⟩, View.beside_self h, Or.inl rfl⟩

/-- An entry whose value is a reference is like the entry with another spelling of it. -/
theorem respelled_write (r : Resolver) (e : Entry) (he : ¬ S e.flat) {p : Text} (hp : IsDotted p)
    (σ τ : Spelling) :
    View.Respelled r S (e.withValue (.text (σ.write p))) (e.withValue (.text (τ.write p))) := by
  have hexpand : ∀ σ : Spelling, r.expand (e.withValue (.text (σ.write p))).value =
      .text (σ.write p) := fun σ => congrArg Document.text (σ.expandAliases_write r.palette hp)
  refine ⟨⟨rfl, rfl⟩, ?_, Or.inr ⟨_, _, hexpand σ, hexpand τ⟩⟩
  rw [hexpand, hexpand]
  exact .told rfl rfl (σ.alike τ hp he)

/-- **The spellings of a reference are interchangeable** where the colour arithmetic gives no
references, no path holds one, and all texts are tidy for some choice of sealed paths without the
path of the entry: how the value of the entry spells its reference makes no difference to the
outcome.  Values that cannot be told are no texts, and may be any. -/
theorem evaluate_respelled (hm : r.math.IsPlain) {s : Store} (hs : s.Sound) (hn : s.Named)
    (hv : (s.view scope.visible).Fit S) (before : List Entry) (e : Entry) (after : List Entry)
    (distinct : ((before ++ e :: after).map Entry.flat).Nodup)
    (unmarked : ∀ x ∈ before ++ e :: after, occurs referenceAt x.flat = false)
    (unsealed : ¬ S e.flat)
    (tidy : ∀ x ∈ before ++ after, ∀ shown, (r.expand x.value).spliced? = some shown →
      Tidy S (S x.flat) shown)
    {p : Text} (hp : IsDotted p) (σ τ : Spelling) :
    (r.evaluate s scope (before ++ e.withValue (.text (σ.write p)) :: after)).outcome =
      (r.evaluate s scope (before ++ e.withValue (.text (τ.write p)) :: after)).outcome := by
  -- The other entries are like themselves, so the two rows of entries are alike place by place.
  have hself : ∀ {es : List Entry}, (∀ x ∈ es, x ∈ before ++ after) →
      List.Forall₂ (View.Respelled r S) es es := by
    intro es hes
    exact List.forall₂_same.2 fun x hx => respelled_self (tidy x (hes x hx))
  have hentries := List.rel_append (hself fun x hx => List.mem_append_left _ hx)
    (List.Forall₂.cons (respelled_write r e unsealed hp σ τ)
      (hself fun x hx => List.mem_append_right _ hx))
  have hflat : (before ++ e.withValue (.text (σ.write p)) :: after).map Entry.flat =
      (before ++ e :: after).map Entry.flat := by
    rw [List.map_append, List.map_append]
    rfl
  have hunmarked : ∀ x ∈ before ++ e.withValue (.text (σ.write p)) :: after,
      occurs referenceAt x.flat = false := by
    intro x hx
    have hmem : x.flat ∈ (before ++ e :: after).map Entry.flat := by
      rw [← hflat]
      exact List.mem_map_of_mem hx
    obtain ⟨y, hy, heq⟩ := List.mem_map.1 hmem
    rw [← heq]
    exact unmarked y hy
  have hrun := View.evaluate_respelled_of_view hm scope hv hentries (hflat ▸ distinct) hunmarked
  rw [← evaluate_view r hs hn, ← evaluate_view r hs hn] at hrun
  exact hrun

theorem isDotted_letter {c : Char} (h : isWord c = true) : IsDotted [.char c] :=
  .of_word (List.cons_ne_nil _ _) fun d hd => by rwa [List.mem_singleton.1 hd]

/-- The one entry of the palette is fit. -/
theorem fit_onePalette : (onePalette.view Scope.theme.visible).Fit S := by
  have hview : onePalette.view Scope.theme.visible =
      View.put (fun _ => none) "a" (.text "#aabbcc") :=
    Store.view_add_entry sound_empty named_empty rfl rfl (by decide)
  rw [hview]
  refine View.fit_nothing.put (by decide) fun s hs => .of_plain (.of_ne ?_)
  obtain rfl := Option.some.inj hs
  decide

/-- A reference to the palette with two digits behind it, and one to another entry. -/
def shownBeside : Text := "$(a)80 on $(c)"

/-- It is tidy with the palette sealed. -/
theorem tidy_shownBeside {free : Prop} (hfree : ¬ free) : Tidy (· = "a") free shownBeside := by
  have ha : IsDotted [.char 'a'] := isDotted_letter (by decide)
  have hc : IsDotted [.char 'c'] := isDotted_letter (by decide)
  have hlast : Tidy (· = "a") free (Spelling.parens.write [.char 'c'] ++ []) :=
    Spelling.parens.tidy_append hc (.of_endsPath endsPath_nil hfree) .nil
  have hbehind : Tidy (· = "a") free
      (Text.ofString "80 on " ++ (Spelling.parens.write [.char 'c'] ++ [])) :=
    .prepend (.of_ne (by decide)) hlast
  exact Spelling.parens.tidy_append_sealed (by decide) ha (by decide) hbehind

/-- The other entry refers to the palette as well. -/
def besideEntries (σ : Spelling) : List Entry :=
  [⟨[.key "b"], .text shownBeside, none⟩, ⟨[.key "c"], .text (σ.write "a"), none⟩]

/-- What both come to. -/
def besideDone : List Entry :=
  [⟨[.key "b"], .text "#aabbcc80 on #aabbcc", none⟩, ⟨[.key "c"], .text "#aabbcc", none⟩]

set_option maxRecDepth 10000 in
/-- It may do so in brackets or without. -/
theorem beside_respelled :
    ((⟨refusing, 5, "palette"⟩ : Resolver).evaluate onePalette .theme
      (besideEntries .parens)).outcome = .ok besideDone ∧
    ((⟨refusing, 5, "palette"⟩ : Resolver).evaluate onePalette .theme
      (besideEntries .bare)).outcome = .ok besideDone := by
  have hm : ColourMath.IsPlain refusing := fun _ _ h => by cases h
  have hp : IsDotted "a" := isDotted_letter (by decide)
  have hexpand : expandAliases "palette" shownBeside = shownBeside := by decide +kernel
  have htidy : ∀ x ∈ [(⟨[.key "b"], .text shownBeside, none⟩ : Entry)], ∀ shown,
      ((⟨refusing, 5, "palette"⟩ : Resolver).expand x.value).spliced? = some shown →
        Tidy (· = "a") (x.flat = "a") shown := by
    intro x hx shown hshown
    rw [List.mem_singleton.1 hx] at hshown ⊢
    obtain rfl : expandAliases "palette" shownBeside = shown := Option.some.inj hshown
    rw [hexpand]
    exact tidy_shownBeside (by decide)
  have hsame := evaluate_respelled hm onePalette_sound onePalette_named fit_onePalette
    [⟨[.key "b"], .text shownBeside, none⟩] ⟨[.key "c"], .text "$(a)", none⟩ [] (by decide)
    (by decide) (by decide) htidy hp .parens .bare
  have hdone : ((⟨refusing, 5, "palette"⟩ : Resolver).evaluate onePalette .theme
      (besideEntries .parens)).outcome = .ok besideDone := by with_unfolding_all rfl
  exact ⟨hdone, hsame.symm.trans hdone⟩

/-- **The bare spelling reads on.**  `b` shows `a` with a word behind it, and the value of `a` is a
reference: with brackets around its path it is replaced, without them the path goes on. -/
theorem bare_reads_on :
    ¬ ∀ (r : Resolver) (s : Store) (scope : Scope) (before after : List Entry) (e : Entry)
      (p : Text) (σ τ : Spelling), 0 < r.limit → s.Sound → s.Named → IsDotted p →
      (r.evaluate s scope (before ++ e.withValue (.text (σ.write p)) :: after)).outcome =
        (r.evaluate s scope (before ++ e.withValue (.text (τ.write p)) :: after)).outcome := by
  intro h
  have hp : IsDotted "p" := isDotted_letter (by decide)
  have hsame := congrArg Except.toBool (h ⟨refusing, 10, "palette"⟩ {} .theme
    [⟨[.key "b"], .text "$(a)x", none⟩] [⟨[.key "p"], .text "foo", none⟩]
    ⟨[.key "a"], .text "$p", none⟩ "p" .parens .bare (by decide) sound_empty named_empty hp)
  revert hsame
  decide +kernel

end Resolver

end Colourway
