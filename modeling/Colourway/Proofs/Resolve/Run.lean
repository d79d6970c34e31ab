import Colourway.Proofs.Except
import Colourway.Resolve.Scope

/-!
# What resolving a scope does to the store

Resolving a scope changes the store in three ways only: it adds the draft of an entry, it adds the
draft of a step and ascribes the token to an entry, and it gives the token of an entry a value and
further steps.  `Kept` bundles what a property of stores needs for these three; `evaluateFrom_kept`
is the induction over a whole run, done once for all such properties.

A run stops where the colour arithmetic does not evaluate a call, and at a reference to a value that
cannot be told (`Refusal`).
-/

namespace Colourway

open Syntax

/-- How an attempt ends: `failed` holds of a failure and the store it leaves, `done` of a result. -/
def Attempt.Ends {α : Type} (failed : Failure × Store → Prop) (done : α → Prop) :
    Attempt α → Prop
  | .ok a => done a
  | .error e => failed e

/-- The state of a visit after one more step to the value `next`. -/
def Visited.advance (here : Visited) (key : Text) (d : Draft) (next : Text) : Visited :=
  ⟨(here.store.add d).1.setParent (here.store.add d).2 (some key), next,
    here.trail ++ [(here.store.add d).2]⟩

namespace Resolver

variable {r : Resolver} {scope : Scope}

/-! ## The drafts of steps -/

/-- The first reference of a text leads to an entry whose value cannot be told. -/
def RefersUntold (s : Store) (scope : Scope) (value : Text) : Prop :=
  ∃ ref t, findReference value = some ref ∧ s.findEntry? ref.path scope.visible = some t ∧
    (s.token t).value.spliced? = none

/-- What the reference step comes to: no reference that can be replaced, one whose value cannot be
told, or the draft of the replacement. -/
theorem referenceStep_cases (s : Store) (scope : Scope) (key value : Text) :
    referenceStep s scope key value = .ok none ∨
    (referenceStep s scope key value = .error .longInteger ∧ RefersUntold s scope value) ∨
    ∃ ref t shown, findReference value = some ref ∧
      s.findEntry? ref.path scope.visible = some t ∧ (s.token t).name ≠ key ∧
      (s.token t).value.spliced? = some shown ∧
      referenceStep s scope key value = .ok (some
        { name := value, kind := .reference, raw := .text ref.captured,
          value := .text (Text.replaceFirst ref.captured shown value),
          scope := some scope, dependency := some t }) := by
  unfold referenceStep
  cases href : findReference value with
  | none => exact .inl rfl
  | some ref =>
    dsimp only
    cases ht : s.findEntry? ref.path scope.visible with
    | none => exact .inl rfl
    | some t =>
      dsimp only
      by_cases hkey : (s.token t).name = key
      · exact .inl (if_pos hkey)
      · rw [if_neg hkey]
        cases hshown : (s.token t).value.spliced? with
        | none => exact .inr (.inl ⟨rfl, ref, t, href, ht, hshown⟩)
        | some shown => exact .inr (.inr ⟨ref, t, shown, rfl, ht, hkey, hshown, rfl⟩)

theorem referenceStep_draft {s : Store} {key value : Text} {d : Draft}
    (h : ColourError.ofFault (referenceStep s scope key value) = .ok (some d)) :
    ∃ ref t shown, findReference value = some ref ∧
      s.findEntry? ref.path scope.visible = some t ∧ (s.token t).name ≠ key ∧
      (s.token t).value.spliced? = some shown ∧
      d = { name := value, kind := .reference, raw := .text ref.captured,
            value := .text (Text.replaceFirst ref.captured shown value),
            scope := some scope, dependency := some t } := by
  rcases referenceStep_cases s scope key value with hnone | ⟨hlong, -⟩ |
    ⟨ref, t, shown, href, ht, hkey, hshown, hstep⟩
  · rw [hnone] at h
    cases h
  · rw [hlong] at h
    cases h
  · rw [hstep] at h
    cases h
    exact ⟨ref, t, shown, href, ht, hkey, hshown, rfl⟩

theorem callStep_draft {value : Text} {d : Draft} (h : r.callStep scope value = .ok (some d)) :
    ∃ call result, findCall value = some call ∧
      r.math.apply (.ofName call.name call.args call.captured) = .ok result ∧
      d = {
        name := value
        kind := .call
        raw := .text call.captured
        value := .text (Text.replaceFirst call.captured result value)
        scope := some scope } := by
  unfold callStep at h
  cases hcall : findCall value with
  | none =>
    rw [hcall] at h
    cases h
  | some call =>
    rw [hcall] at h
    obtain ⟨result, hresult, hd⟩ := map_eq_ok_iff.mp h
    cases hd
    exact ⟨call, result, rfl, hresult, rfl⟩

theorem callStep_error {value : Text} {e : ColourError}
    (h : r.callStep scope value = .error e) :
    ∃ call, findCall value = some call ∧
      r.math.apply (.ofName call.name call.args call.captured) = .error e := by
  unfold callStep at h
  cases hcall : findCall value with
  | none =>
    rw [hcall] at h
    cases h
  | some call =>
    rw [hcall] at h
    exact ⟨call, rfl, map_eq_error_iff.mp h⟩

/-- A step stands for the value before it, belongs to the scope and is no entry. -/
theorem step_draft {s : Store} {key value : Text} {d : Draft}
    (h : r.step s scope key value = .ok (some d)) :
    d.name = value ∧ d.kind ≠ .input ∧ d.scope = some scope ∧ ∃ next, d.value = .text next := by
  unfold step at h
  split at h
  · obtain ⟨x, -, rfl⟩ := Option.map_eq_some_iff.1 (Except.ok.inj h)
    exact ⟨rfl, by simp, rfl, x, rfl⟩
  · obtain ⟨ref, t, shown, -, -, -, -, rfl⟩ := referenceStep_draft h
    exact ⟨rfl, by simp, rfl, _, rfl⟩
  · obtain ⟨call, result, -, -, rfl⟩ := callStep_draft h
    exact ⟨rfl, by simp, rfl, _, rfl⟩
  · cases h

/-- What makes a visit fail: a call that the colour arithmetic does not evaluate, or a reference to
a value that cannot be told. -/
def Refusal (r : Resolver) (scope : Scope) (f : Failure) (s : Store) : Prop :=
  (∃ key call e, r.math.apply call = .error e ∧ f = blame key e) ∨
  f = .fault .longInteger ∧ ∃ value, RefersUntold s scope value

/-- Only the colour arithmetic and a value that cannot be told make a step fail. -/
theorem step_error {s : Store} {key value : Text} {e : ColourError}
    (h : r.step s scope key value = .error e) :
    (∃ call, r.math.apply call = .error e) ∨
      e = .fault .longInteger ∧ RefersUntold s scope value := by
  unfold step at h
  split at h
  · cases h
  · rcases referenceStep_cases s scope key value with hnone | ⟨hlong, hrefers⟩ |
      ⟨ref, t, shown, -, -, -, -, hstep⟩
    · rw [hnone] at h
      cases h
    · rw [hlong] at h
      cases h
      exact .inr ⟨rfl, hrefers⟩
    · rw [hstep] at h
      cases h
  · obtain ⟨call, -, hcall⟩ := callStep_error h
    exact .inl ⟨_, hcall⟩
  · cases h

theorem step_refusal {s : Store} {key value : Text} {e : ColourError}
    (h : r.step s scope key value = .error e) : r.Refusal scope (blame key e) s := by
  rcases step_error h with ⟨call, hcall⟩ | ⟨rfl, hrefers⟩
  · exact .inl ⟨key, call, e, hcall, rfl⟩
  · exact .inr ⟨rfl, value, hrefers⟩

/-- One round of following a value. -/
theorem follow_succ (key : Text) (n : Nat) (seen : List Text) (here : Visited) :
    r.follow scope key (n + 1) seen here =
      match r.step here.store scope key here.value with
      | .error e => .error (blame key e, here.store)
      | .ok none => .ok here
      | .ok (some d) =>
        if d.value.text?.getD here.value = here.value then .ok here
        else if d.value.text?.getD here.value ∈ seen then
          .ok (here.advance key d (d.value.text?.getD here.value))
        else follow r scope key n (d.value.text?.getD here.value :: seen)
          (here.advance key d (d.value.text?.getD here.value)) := rfl

/-- The draft under which an entry is put into the store. -/
def entryDraft (r : Resolver) (scope : Scope) (e : Entry) : Draft :=
  { name := e.flat, kind := .input, raw := e.value, value := r.expand e.value,
    scope := some scope }

/-! ## Properties that a run keeps -/

/-- `I` is a property of stores, and `Own` one of the tokens that entries have got in a store, and
both survive the three things that resolving a scope does to the store. -/
structure Kept (r : Resolver) (scope : Scope) (entries : List Entry) (I : Store → Prop)
    (Own : Store → TokenId → Prop) : Prop where
  /-- An entry is put into the store, and gets a token. -/
  entry : ∀ {s e}, I s → e ∈ entries →
    I (s.add (r.entryDraft scope e)).1 ∧
    Own (s.add (r.entryDraft scope e)).1 (s.add (r.entryDraft scope e)).2 ∧
    ∀ u, Own s u → Own (s.add (r.entryDraft scope e)).1 u
  /-- A step is put into the store and ascribed to an entry. -/
  step : ∀ {s d key value}, I s → r.step s scope key value = .ok (some d) →
    I ((s.add d).1.setParent (s.add d).2 (some key)) ∧
    ∀ u, Own s u → Own ((s.add d).1.setParent (s.add d).2 (some key)) u
  /-- The token of an entry learns what a visit came to. -/
  finish : ∀ {s t} (value : Text) (steps : List TokenId), I s → Own s t →
    I ((s.setValue t (.text value)).addTrail t steps) ∧
    ∀ u, Own s u → Own ((s.setValue t (.text value)).addTrail t steps) u

variable {entries : List Entry} {I : Store → Prop} {Own : Store → TokenId → Prop}

theorem follow_kept (hk : Kept r scope entries I Own) (key : Text) :
    ∀ (n : Nat) (seen : List Text) (here : Visited), I here.store →
      (r.follow scope key n seen here).Ends (fun e => r.Refusal scope e.1 e.2 ∧ I e.2)
        fun v => I v.store ∧ ∀ u, Own here.store u → Own v.store u := by
  intro n
  induction n with
  | zero => exact fun _ here h => ⟨h, fun _ hu => hu⟩
  | succ n ih =>
    intro seen here h
    rw [follow_succ]
    cases hstep : r.step here.store scope key here.value with
    | error e => exact ⟨step_refusal hstep, h⟩
    | ok next =>
      cases next with
      | none => exact ⟨h, fun _ hu => hu⟩
      | some d =>
        have hadv := hk.step h hstep
        dsimp only
        split
        · exact ⟨h, fun _ hu => hu⟩
        · split
          · exact hadv
          · have hrest := ih (d.value.text?.getD here.value :: seen)
              (here.advance key d (d.value.text?.getD here.value)) hadv.1
            revert hrest
            cases r.follow scope key n (d.value.text?.getD here.value :: seen)
              (here.advance key d (d.value.text?.getD here.value)) with
            | error e => exact id
            | ok v => exact fun hrest => ⟨hrest.1, fun u hu => hrest.2 u (hadv.2 u hu)⟩

theorem visit_kept (hk : Kept r scope entries I Own) {s : Store} {slot : Slot} (h : I s)
    (hslot : Own s slot.token) :
    (r.visit scope s slot).Ends (fun e => r.Refusal scope e.1 e.2 ∧ I e.2) fun out =>
      I out.1 ∧ out.2.1.token = slot.token ∧ ∀ u, Own s u → Own out.1 u := by
  unfold visit
  cases hv : slot.value.text? with
  | none => exact ⟨h, rfl, fun _ hu => hu⟩
  | some value =>
    have hrun := follow_kept hk slot.entry.flat r.limit [value] ⟨s, value, []⟩ h
    revert hrun
    dsimp only
    cases r.follow scope slot.entry.flat r.limit [value] ⟨s, value, []⟩ with
    | error e => exact id
    | ok v =>
      intro hrun
      have hfin := hk.finish v.value v.trail hrun.1 (hrun.2 _ hslot)
      exact ⟨hfin.1, rfl, fun u hu => hfin.2 u (hrun.2 u hu)⟩

theorem pass_kept (hk : Kept r scope entries I Own) (slots : List Slot) :
    ∀ {s : Store}, I s → (∀ slot ∈ slots, Own s slot.token) →
      (r.pass scope s slots).Ends (fun e => r.Refusal scope e.1 e.2 ∧ I e.2) fun out =>
        I out.1 ∧ out.2.1.map Slot.token = slots.map Slot.token ∧ ∀ u, Own s u → Own out.1 u := by
  induction slots with
  | nil => exact fun h _ => ⟨h, rfl, fun _ hu => hu⟩
  | cons slot rest ih =>
    intro s h hslots
    have hvisit := visit_kept hk h (hslots slot List.mem_cons_self)
    unfold pass
    revert hvisit
    cases r.visit scope s slot with
    | error e => exact id
    | ok out =>
      obtain ⟨s', slot', changed⟩ := out
      rintro ⟨h', htok, hown⟩
      have hrest := ih h' fun x hx => hown _ (hslots x (List.mem_cons_of_mem _ hx))
      dsimp only at htok hown hrest ⊢
      revert hrest
      cases r.pass scope s' rest with
      | error e => exact id
      | ok out =>
        obtain ⟨s'', rest', changed'⟩ := out
        rintro ⟨h'', htoks, hown'⟩
        exact ⟨h'', by rw [List.map_cons, List.map_cons, htok, htoks],
          fun u hu => hown' u (hown u hu)⟩

theorem passes_kept (hk : Kept r scope entries I Own) (n : Nat) :
    ∀ {p : Progress}, I p.store → (∀ slot ∈ p.slots, Own p.store slot.token) →
      match r.passes scope n p with
      | .ok q => I q.store
      | .error e => r.Refusal scope e.1 e.2.1 ∧ I e.2.1 := by
  induction n with
  | zero => exact fun h _ => h
  | succ n ih =>
    intro p h hslots
    have hpass := pass_kept hk p.slots h hslots
    unfold passes
    revert hpass
    cases r.pass scope p.store p.slots with
    | error e => exact id
    | ok out =>
      obtain ⟨s, slots, changed⟩ := out
      rintro ⟨h', htoks, hown⟩
      dsimp only at h' htoks hown ⊢
      cases changed with
      | false => exact h'
      | true =>
        rw [if_pos rfl]
        refine ih (p := ⟨s, slots, p.changing + 1⟩) h' ?_
        intro slot hmem
        have : slot.token ∈ p.slots.map Slot.token := by
          rw [← htoks]
          exact List.mem_map_of_mem hmem
        obtain ⟨old, hold, heq⟩ := List.mem_map.1 this
        rw [← heq]
        exact hown _ (hslots old hold)

theorem enterAll_kept (hk : Kept r scope entries I Own) (given : List Entry) :
    ∀ {s : Store}, I s → (∀ e ∈ given, e ∈ entries) →
      I (r.enterAll scope s given).1 ∧
      (∀ slot ∈ (r.enterAll scope s given).2, Own (r.enterAll scope s given).1 slot.token) ∧
      ∀ u, Own s u → Own (r.enterAll scope s given).1 u := by
  induction given with
  | nil => exact fun h _ => ⟨h, fun _ hmem => absurd hmem List.not_mem_nil, fun _ hu => hu⟩
  | cons e rest ih =>
    intro s h hgiven
    obtain ⟨h₁, hnew, hold⟩ := hk.entry h (hgiven e List.mem_cons_self)
    obtain ⟨h₂, hslots, hkeep⟩ := ih h₁ fun x hx => hgiven x (List.mem_cons_of_mem _ hx)
    refine ⟨h₂, ?_, fun u hu => hkeep u (hold u hu)⟩
    intro slot hmem
    rcases List.mem_cons.1 hmem with rfl | hmem
    · exact hkeep _ hnew
    · exact hslots slot hmem

/-- **A run keeps what its three kinds of change keep**, whether it succeeds or fails.  It fails
over a refusal, or because entries are left unresolved. -/
theorem evaluateFrom_kept (hk : Kept r scope entries I Own) {s : Store} (h : I s) :
    I (r.evaluateFrom s scope entries).store ∧
    ∀ f, (r.evaluateFrom s scope entries).outcome = .error f →
      r.Refusal scope f (r.evaluateFrom s scope entries).store ∨
        ∃ left, f = .error (.unresolved left (some scope.name)) := by
  obtain ⟨h₁, hslots, -⟩ := enterAll_kept hk entries h fun _ he => he
  have hrun := passes_kept hk r.limit
    (p := ⟨(r.enterAll scope s entries).1, (r.enterAll scope s entries).2, 0⟩) h₁ hslots
  unfold evaluateFrom
  revert hrun
  dsimp only
  cases r.passes scope r.limit
      ⟨(r.enterAll scope s entries).1, (r.enterAll scope s entries).2, 0⟩ with
  | error e =>
    rintro ⟨hrefused, hI⟩
    refine ⟨hI, ?_⟩
    rintro f ⟨⟩
    exact Or.inl hrefused
  | ok p =>
    intro hrun
    dsimp only
    split
    · exact ⟨hrun, fun f hf => by cases hf⟩
    · refine ⟨hrun, ?_⟩
      rintro f ⟨⟩
      exact Or.inr ⟨_, rfl⟩

end Resolver

end Colourway
