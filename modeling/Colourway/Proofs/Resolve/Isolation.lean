import Colourway.Proofs.Resolve.Atomic
import Colourway.Proofs.Resolve.View

/-!
# A scope sees only visible entries

Resolving a scope of a store comes, pass by pass and step by step, to resolving its view
(`evaluateFrom_view`).  So two stores that show the same values under the same paths give a scope
the same outcome: other scopes, steps of earlier evaluations, trails, dependencies and raw values
have no influence on it (`evaluate_eq_of_view_eq`).

The invariant is `Placed`: each entry under resolution either still holds its key or is hidden.
-/

namespace Colourway

open Store

theorem Scope.mem_visible (scope : Scope) : scope ∈ scope.visible := by
  cases scope <;> decide

/-! ## Where the entries under resolution stand -/

/-- The token of a slot bears the path of its entry, and it stands under that path unless the entry
is hidden. -/
structure Slot.Placed (visible : List Scope) (s : Store) (slot : Slot) : Prop where
  /-- The token has been made. -/
  inside : slot.token < s.tokens.size
  /-- The token bears the path of the entry. -/
  name : (s.token slot.token).name = slot.entry.flat
  /-- The entry is hidden, or its path leads to the token. -/
  place : s.view visible slot.entry.flat = none ∨ s.find? slot.entry.flat = some slot.token

namespace Slot.Placed

variable {visible : List Scope} {s : Store} {slot : Slot}

/-- A step that takes the key of an entry over hides the entry. -/
theorem add_step (h : slot.Placed visible s) (hs : s.Sound) (hn : s.Named) {d : Draft}
    (hkind : d.kind ≠ .input) : slot.Placed visible (s.add d).1 where
  inside := Nat.lt_of_lt_of_le h.inside (size_le_add s d)
  name := (congrArg Prod.fst (identity_add h.inside d)).trans h.name
  place := by
    rw [view_add_step hs hn hkind, find?_add, View.hide]
    split
    · exact Or.inl rfl
    · exact h.place

theorem setParent (h : slot.Placed visible s) (t : TokenId) (parent : Option Text) :
    slot.Placed visible (s.setParent t parent) where
  inside := by
    rw [Store.setParent, size_update]
    exact h.inside
  name := by
    rw [← h.name]
    exact token_update_congr (fun x : Token => x.name)
      (f := fun x => { x with parent := parent }) (fun _ => rfl) s t slot.token
  place := by
    rw [view_setParent]
    exact h.place

/-- Another entry may learn its value. -/
theorem setValue {other : Slot} (h : slot.Placed visible s) (ho : other.Placed visible s)
    (hn : s.Named) (value : Document) :
    slot.Placed visible (s.setValue other.token value) where
  inside := by
    rw [Store.setValue, size_update]
    exact h.inside
  name := by
    rw [← h.name]
    exact token_update_congr (fun x : Token => x.name)
      (f := fun x => { x with value := value }) (fun _ => rfl) s other.token slot.token
  place := by
    rw [view_setValue hn ho.name ho.inside ho.place]
    rcases h.place with hv | hf
    · left
      rw [View.learn]
      split <;> simp [hv]
    · exact Or.inr hf

theorem addTrail (h : slot.Placed visible s) (t : TokenId) (steps : List TokenId) :
    slot.Placed visible (s.addTrail t steps) where
  inside := h.inside
  name := h.name
  place := by
    rw [view_addTrail]
    exact h.place

end Slot.Placed

/-- An entry under resolution as the view has it. -/
def Slot.item (slot : Slot) : View.Item := (slot.entry, slot.value)

/-- What of a slot stays as it is: its entry and its token. -/
def Slot.seat (slot : Slot) : Entry × TokenId := (slot.entry, slot.token)

namespace Resolver

variable {r : Resolver} {scope : Scope}

/-- A store in the middle of the passes over some slots. -/
structure Tracked (scope : Scope) (slots : List Slot) (s : Store) : Prop where
  /-- The store is sound. -/
  sound : s.Sound
  /-- Keys are names. -/
  named : s.Named
  /-- Every slot is placed. -/
  placed : ∀ slot ∈ slots, slot.Placed scope.visible s

theorem Tracked.step {slots : List Slot} {s : Store} (h : Tracked scope slots s) {d : Draft}
    (hkind : d.kind ≠ .input) (parent : Option Text) :
    Tracked scope slots ((s.add d).1.setParent (s.add d).2 parent) where
  sound := (h.sound.add d).update _ fun _ => rfl
  named := (h.named.add h.sound d).update _ fun _ => rfl
  placed slot hmem := ((h.placed slot hmem).add_step h.sound h.named hkind).setParent _ _

/-- The token of a slot learns what a visit came to. -/
theorem Tracked.learn {slots : List Slot} {s : Store} (h : Tracked scope slots s) {slot : Slot}
    (hslot : slot ∈ slots) (value : Document) (steps : List TokenId) :
    Tracked scope slots ((s.setValue slot.token value).addTrail slot.token steps) where
  sound := by
    refine Sound.addTrail ?_ _ _
    exact h.sound.update _ fun _ => rfl
  named := h.named.update _ fun _ => rfl
  placed other hmem :=
    ((h.placed other hmem).setValue (h.placed slot hslot) h.named _).addTrail _ _

/-- Slots are tracked by their entries and tokens. -/
theorem Tracked.of_seats {slots others : List Slot} {s : Store} (h : Tracked scope slots s)
    (hseats : others.map Slot.seat = slots.map Slot.seat) : Tracked scope others s := by
  refine ⟨h.sound, h.named, ?_⟩
  intro slot hmem
  have hmem' : slot.seat ∈ slots.map Slot.seat := by
    rw [← hseats]
    exact List.mem_map_of_mem hmem
  obtain ⟨old, hold, heq⟩ := List.mem_map.1 hmem'
  obtain ⟨hentry, htoken⟩ := Prod.mk.inj heq
  have hp := h.placed old hold
  exact ⟨htoken ▸ hp.inside, by rw [← htoken, ← hentry]; exact hp.name,
    by rw [← htoken, ← hentry]; exact hp.place⟩

/-! ## Resolution in step with the view -/

/-- Following a value in the store comes to following it in the view. -/
theorem follow_view {slots : List Slot} (key : Text) :
    ∀ (n : Nat) (seen : List Text) (here : Visited), Tracked scope slots here.store →
      (r.follow scope key n seen here).Ends
        (fun e => View.follow r key n seen (here.store.view scope.visible) here.value =
          .error e.1)
        (fun v => View.follow r key n seen (here.store.view scope.visible) here.value =
          .ok (v.store.view scope.visible, v.value) ∧ Tracked scope slots v.store) := by
  intro n
  induction n with
  | zero => exact fun _ here h => ⟨rfl, h⟩
  | succ n ih =>
    intro seen here h
    rw [follow_succ, View.follow_succ, next_view h.named]
    cases hstep : r.step here.store scope key here.value with
    | error e => exact rfl
    | ok next =>
      cases next with
      | none => exact ⟨rfl, h⟩
      | some d =>
        -- The token of a step is no entry: it hides the entry of that key, and changes no other.
        obtain ⟨hname, hkind, -, x, hx⟩ := step_draft hstep
        have hadv := h.step hkind (some key)
        have hview : (here.advance key d x).store.view scope.visible =
            (here.store.view scope.visible).hide here.value := by
          rw [Visited.advance, view_setParent, view_add_step h.sound h.named hkind, hname]
        have hnext : d.value.text? = some x := by rw [hx]; rfl
        simp only [Except.map, Option.bind_some, hnext, Option.getD_some]
        by_cases hsame : x = here.value
        · rw [if_pos hsame, if_pos hsame]
          exact ⟨rfl, h⟩
        · rw [if_neg hsame, if_neg hsame]
          by_cases hseen : x ∈ seen
          · rw [if_pos hseen, if_pos hseen]
            exact ⟨by rw [hview]; rfl, hadv⟩
          · rw [if_neg hseen, if_neg hseen, ← hview]
            exact ih (x :: seen) (here.advance key d x) hadv

/-- Visiting an entry in the store comes to visiting it in the view. -/
theorem visit_view {all : List Slot} {s : Store} {slot : Slot} (h : Tracked scope all s)
    (hslot : slot ∈ all) :
    (r.visit scope s slot).Ends
      (fun e => View.visit r (s.view scope.visible) slot.item = .error e.1)
      (fun out => View.visit r (s.view scope.visible) slot.item =
          .ok (out.1.view scope.visible, out.2.1.item, out.2.2) ∧
        Tracked scope all out.1 ∧ out.2.1.seat = slot.seat) := by
  have hitem : slot.item.2 = slot.value := rfl
  unfold visit View.visit
  rw [hitem]
  cases hv : slot.value.text? with
  | none => exact ⟨rfl, h, rfl⟩
  | some value =>
    have hrun := follow_view (r := r) slot.entry.flat r.limit [value] ⟨s, value, []⟩ h
    revert hrun
    dsimp only
    cases r.follow scope slot.entry.flat r.limit [value] ⟨s, value, []⟩ with
    | error e =>
      intro (hrun : _ = _)
      show (View.follow r slot.entry.flat r.limit [value] _ value).map _ = _
      rw [hrun]
      rfl
    | ok v =>
      rintro ⟨hrun, hv⟩
      have hp := hv.placed slot hslot
      refine ⟨?_, hv.learn hslot _ _, rfl⟩
      show (View.follow r slot.entry.flat r.limit [value] _ value).map _ = _
      rw [hrun, view_addTrail, view_setValue hv.named hp.name hp.inside hp.place]
      rfl

/-- Visiting the entries in the store comes to visiting them in the view. -/
theorem pass_view {all : List Slot} (slots : List Slot) :
    ∀ {s : Store}, Tracked scope all s → (∀ slot ∈ slots, slot ∈ all) →
      (r.pass scope s slots).Ends
        (fun e => View.pass r (s.view scope.visible) (slots.map Slot.item) = .error e.1)
        (fun out => View.pass r (s.view scope.visible) (slots.map Slot.item) =
            .ok (out.1.view scope.visible, out.2.1.map Slot.item, out.2.2) ∧
          Tracked scope all out.1 ∧ out.2.1.map Slot.seat = slots.map Slot.seat) := by
  induction slots with
  | nil => exact fun h _ => ⟨rfl, h, rfl⟩
  | cons slot rest ih =>
    intro s h hmem
    have hvisit := visit_view (r := r) h (hmem slot List.mem_cons_self)
    rw [List.map_cons]
    unfold pass View.pass
    revert hvisit
    cases r.visit scope s slot with
    | error e =>
      intro hvisit
      dsimp only [Attempt.Ends] at hvisit ⊢
      rw [hvisit]
    | ok out =>
      obtain ⟨s', slot', changed⟩ := out
      rintro ⟨hvisit, h', hseat⟩
      have hrest := ih h' fun x hx => hmem x (List.mem_cons_of_mem _ hx)
      dsimp only at hvisit hrest hseat ⊢
      revert hrest
      cases r.pass scope s' rest with
      | error e =>
        intro hrest
        dsimp only [Attempt.Ends] at hrest ⊢
        rw [hvisit]
        dsimp only
        rw [hrest]
      | ok out =>
        obtain ⟨s'', rest', changed'⟩ := out
        rintro ⟨hrest, h'', hseats⟩
        refine ⟨?_, h'', by rw [List.map_cons, List.map_cons, hseat, hseats]⟩
        rw [hvisit]
        dsimp only
        rw [hrest]
        rfl

/-- Passes over the store come to passes over the view. -/
theorem passes_view (n : Nat) : ∀ {p : Progress}, Tracked scope p.slots p.store →
    View.passes r n ⟨p.store.view scope.visible, p.slots.map Slot.item, p.changing⟩ =
      match r.passes scope n p with
      | .ok q => .ok ⟨q.store.view scope.visible, q.slots.map Slot.item, q.changing⟩
      | .error e => .error (e.1, e.2.2) := by
  induction n with
  | zero => exact fun _ => rfl
  | succ n ih =>
    intro p h
    have hpass := pass_view (r := r) p.slots h fun _ hx => hx
    unfold passes View.passes
    revert hpass
    dsimp only
    cases r.pass scope p.store p.slots with
    | error e =>
      intro (hpass : _ = _)
      rw [hpass]
    | ok out =>
      obtain ⟨s, slots, changed⟩ := out
      rintro ⟨hpass, h', hseats⟩
      rw [hpass]
      dsimp only at h' hseats ⊢
      cases changed with
      | false => rfl
      | true =>
        rw [if_pos rfl, if_pos rfl]
        exact ih (p := ⟨s, slots, p.changing + 1⟩) (h'.of_seats hseats)

/-! ## Putting the entries into the store -/

/-- A slot that stands under the path of its entry, as an entry of the scope. -/
structure Entered (scope : Scope) (s : Store) (slot : Slot) : Prop where
  /-- The path leads to the token. -/
  found : s.find? slot.entry.flat = some slot.token
  /-- The token is an entry. -/
  kind : (s.token slot.token).kind = .input
  /-- It belongs to the scope. -/
  scope : (s.token slot.token).scope = some scope

/-- An entry with the same path shares the token, any other leaves it alone. -/
theorem Entered.add {s : Store} {slot : Slot} (h : Entered scope s slot) (hs : s.Sound)
    {d : Draft} (hkind : d.kind = .input) (hscope : d.scope = some scope) :
    Entered scope (s.add d).1 slot := by
  have hid := identity_add (hs.key_inside h.found) d
  simp only [Token.identity, Prod.mk.injEq] at hid
  obtain ⟨-, hk, -, hsc, -⟩ := hid
  refine ⟨?_, hk.trans h.kind, hsc.trans h.scope⟩
  rw [find?_add]
  by_cases hp : slot.entry.flat = d.name
  · rw [if_pos hp]
    rcases add_cases s d with ⟨old, hf, -, -, hadd⟩ | ⟨hno, -⟩
    · rw [hadd, ← hf, ← hp, h.found]
    · refine absurd ?_ (hno slot.token (by rw [← hp]; exact h.found))
      rw [hs.token_create h.found, h.kind, h.scope, hkind, hscope]
      exact ⟨rfl, rfl⟩
  · rw [if_neg hp]
    exact h.found

theorem Entered.placed {s : Store} {slot : Slot} (h : Entered scope s slot) (hs : s.Sound)
    (hn : s.Named) : slot.Placed scope.visible s :=
  ⟨hs.key_inside h.found, hn _ _ h.found, Or.inr h.found⟩

/-- Putting the entries into the store puts them into the view. -/
theorem enterAll_view (r : Resolver) (scope : Scope) (entries : List Entry) :
    ∀ {s : Store}, s.Sound → s.Named →
    (r.enterAll scope s entries).1.view scope.visible =
      (s.view scope.visible).enterAll r entries ∧
    (r.enterAll scope s entries).2.map Slot.item = View.items r entries ∧
    (r.enterAll scope s entries).1.Sound ∧ (r.enterAll scope s entries).1.Named ∧
    (∀ slot ∈ (r.enterAll scope s entries).2, Entered scope (r.enterAll scope s entries).1 slot) ∧
    ∀ slot, Entered scope s slot → Entered scope (r.enterAll scope s entries).1 slot := by
  induction entries with
  | nil => exact fun hs hn => ⟨rfl, rfl, hs, hn, fun _ h => absurd h List.not_mem_nil, fun _ h => h⟩
  | cons e rest ih =>
    intro s hs hn
    have hs' := hs.add (r.entryDraft scope e)
    obtain ⟨hview, hitems, hsound, hnamed, hslots, hkeep⟩ :=
      ih hs' (hn.add hs (r.entryDraft scope e))
    obtain ⟨hkind, hscope, -⟩ := hs.token_add_self (r.entryDraft scope e)
    have hnew : Entered scope (s.add (r.entryDraft scope e)).1
        ⟨e, (s.add (r.entryDraft scope e)).2, r.expand e.value⟩ :=
      ⟨by rw [find?_add]; exact if_pos rfl, hkind, hscope⟩
    refine ⟨?_, congrArg (_ :: ·) hitems, hsound, hnamed, ?_, ?_⟩
    · refine hview.trans ?_
      rw [view_add_entry hs hn rfl rfl scope.mem_visible]
      rfl
    · intro slot hmem
      rcases List.mem_cons.1 hmem with rfl | hmem
      · exact hkeep _ hnew
      · exact hslots slot hmem
    · exact fun slot h => hkeep slot (h.add hs rfl rfl)

/-! ## Main statements -/

/-- **Resolving a store is resolving what it shows.**  Outcome and number of changing passes depend
on the view of the scope alone. -/
theorem evaluateFrom_view (r : Resolver) {s : Store} (hs : s.Sound) (hn : s.Named) (scope : Scope)
    (entries : List Entry) :
    ((r.evaluateFrom s scope entries).outcome, (r.evaluateFrom s scope entries).changingPasses) =
      View.evaluate r scope (s.view scope.visible) entries := by
  obtain ⟨hview, hitems, hsound, hnamed, hslots, -⟩ :=
    enterAll_view r scope entries hs hn
  have htracked : Tracked scope (r.enterAll scope s entries).2 (r.enterAll scope s entries).1 :=
    ⟨hsound, hnamed, fun slot hmem => (hslots slot hmem).placed hsound hnamed⟩
  have hrun := passes_view (r := r) r.limit
    (p := ⟨(r.enterAll scope s entries).1, (r.enterAll scope s entries).2, 0⟩) htracked
  rw [hview, hitems] at hrun
  rw [View.evaluate, hrun, evaluateFrom]
  dsimp only
  cases r.passes scope r.limit
      ⟨(r.enterAll scope s entries).1, (r.enterAll scope s entries).2, 0⟩ with
  | error e => rfl
  | ok p =>
    have hleft : ((p.slots.map Slot.item).filter View.unfinished).map (·.1.flat) =
        (p.slots.filter unfinished).map (·.entry.flat) := by
      rw [List.filter_map, List.map_map]
      rfl
    dsimp only
    rw [View.result, hleft]
    cases (p.slots.filter unfinished).map (·.entry.flat) with
    | nil =>
      dsimp only
      rw [List.map_map]
      rfl
    | cons path rest => rfl

/-- Taking a checkpoint is not seen. -/
theorem view_checkpoint (s : Store) (visible : List Scope) :
    s.checkpoint.1.view visible = s.view visible := by
  funext p
  refine view_congr (find?_checkpoint s p) ?_
  intro t _
  rw [token_checkpoint]

/-- The same for an evaluation with its checkpoint. -/
theorem evaluate_view (r : Resolver) {s : Store} (hs : s.Sound) (hn : s.Named) (scope : Scope)
    (entries : List Entry) :
    ((r.evaluate s scope entries).outcome, (r.evaluate s scope entries).changingPasses) =
      View.evaluate r scope (s.view scope.visible) entries := by
  obtain ⟨hout, hpasses⟩ := evaluate_outcome r s scope entries
  rw [hout, hpasses, evaluateFrom_view r hs.checkpoint hn.checkpoint, view_checkpoint]

/-- **Scopes are isolated.**  Two stores whose visible entries have the same values under the same
paths give every evaluation of the scope the same outcome and the same number of changing passes,
whatever else they hold. -/
theorem evaluate_eq_of_view_eq (r : Resolver) (scope : Scope) {s₁ s₂ : Store}
    (hs₁ : s₁.Sound) (hn₁ : s₁.Named) (hs₂ : s₂.Sound) (hn₂ : s₂.Named)
    (same : ∀ path, s₁.view scope.visible path = s₂.view scope.visible path)
    (entries : List Entry) :
    (r.evaluate s₁ scope entries).outcome = (r.evaluate s₂ scope entries).outcome ∧
    (r.evaluate s₁ scope entries).changingPasses =
      (r.evaluate s₂ scope entries).changingPasses := by
  have hview : s₁.view scope.visible = s₂.view scope.visible := funext same
  have h₁ := evaluate_view r hs₁ hn₁ scope entries
  rw [hview, ← evaluate_view r hs₂ hn₂ scope entries] at h₁
  exact Prod.mk.inj h₁

/-- A store with an entry of the theme beside one of the palette. -/
def paletteAndTheme : Store :=
  (onePalette.add { name := "x", kind := .input, value := .text "blue", scope := some .theme }).1

/-- A palette entry that refers to an entry of the theme is left unresolved as if there were no
such entry. -/
theorem palette_ignores_theme :
    ((⟨refusing, 3, "palette"⟩ : Resolver).evaluate onePalette .palette
      [⟨[.key "b"], .text "$(a)$(x)", none⟩]).outcome =
    ((⟨refusing, 3, "palette"⟩ : Resolver).evaluate paletteAndTheme .palette
      [⟨[.key "b"], .text "$(a)$(x)", none⟩]).outcome := by
  have hs := onePalette_sound
  have hn := onePalette_named
  have hview : paletteAndTheme.view Scope.palette.visible =
      onePalette.view Scope.palette.visible := by
    rw [paletteAndTheme, view_add_foreign hs hn rfl (by decide)]
    exact View.hide_of_none (by decide)
  exact (evaluate_eq_of_view_eq _ .palette hs hn (hs.add _) (hn.add hs _)
    (fun path => congrFun hview.symm path) _).1

end Resolver

end Colourway
