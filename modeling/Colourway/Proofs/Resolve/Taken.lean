import Colourway.Proofs.Resolve.Settled

/-!
# The steps that a run takes

The store remembers of each expression one value only, the last.  Here the steps of a run are
listed one by one, each as the expression before it and the text after it, in the order in which
the run takes them (`Resolver.taken`).

* `follow_carried` — what every step keeps is true at the end of a visit.
* `Carried`, `evaluate_carried` — what entering and visiting keep is true of every evaluation that
  succeeds, with the steps taken so far in view.
* `IsStep`, `Steppable` — what every step is, and which texts it can start from.
* `Leads` — steps that lead from one text to another; `Leads.nodup` says that no text comes up twice
  on the way to a text that is no start, if every text has one value.
-/

namespace Colourway

open Syntax

/-- Steps in the order in which they were taken: what stood there, and what came of it. -/
abbrev Steps := List (Text × Text)

namespace Resolver

variable {r : Resolver} {scope : Scope}

/-! ## The list of steps -/

/-- The steps taken while a value is followed. -/
def followTaken (r : Resolver) (scope : Scope) (key : Text) :
    (steps : Nat) → (seen : List Text) → Visited → Steps
  | 0, _, _ => []
  | steps + 1, seen, here =>
    match r.step here.store scope key here.value with
    | .ok (some d) =>
      let next := d.value.text?.getD here.value
      if next = here.value then []
      else (here.value, next) ::
        if next ∈ seen then []
        else followTaken r scope key steps (next :: seen) (here.advance key d next)
    | _ => []

/-- The step taken in one round, and those after it. -/
theorem followTaken_succ (key : Text) (n : Nat) (seen : List Text) (here : Visited) :
    r.followTaken scope key (n + 1) seen here =
      match r.step here.store scope key here.value with
      | .ok (some d) =>
        if d.value.text?.getD here.value = here.value then []
        else (here.value, d.value.text?.getD here.value) ::
          if d.value.text?.getD here.value ∈ seen then []
          else r.followTaken scope key n (d.value.text?.getD here.value :: seen)
            (here.advance key d (d.value.text?.getD here.value))
      | _ => [] := rfl

/-- The steps taken on a visit to an entry. -/
def visitTaken (r : Resolver) (scope : Scope) (s : Store) (slot : Slot) : Steps :=
  match slot.value.text? with
  | none => []
  | some value => r.followTaken scope slot.entry.flat r.limit [value] ⟨s, value, []⟩

/-- The steps taken in a pass. -/
def passTaken (r : Resolver) (scope : Scope) : Store → List Slot → Steps
  | _, [] => []
  | s, slot :: rest =>
    r.visitTaken scope s slot ++
      match r.visit scope s slot with
      | .ok (s, _, _) => passTaken r scope s rest
      | .error _ => []

/-- The steps taken in at most `left` passes. -/
def passesTaken (r : Resolver) (scope : Scope) : (left : Nat) → Progress → Steps
  | 0, _ => []
  | left + 1, p =>
    r.passTaken scope p.store p.slots ++
      match r.pass scope p.store p.slots with
      | .ok (s, slots, true) => passesTaken r scope left ⟨s, slots, p.changing + 1⟩
      | _ => []

/-- The steps that resolving the entries of a scope takes. -/
def taken (r : Resolver) (s : Store) (scope : Scope) (entries : List Entry) : Steps :=
  r.passesTaken scope r.limit
    ⟨(r.enterAll scope s.checkpoint.1 entries).1, (r.enterAll scope s.checkpoint.1 entries).2, 0⟩

/-! ## Runs that succeed -/

/-- **What every step keeps is true at the end of a visit.** -/
theorem follow_carried {key : Text} {P : Steps → Visited → Prop}
    (step : ∀ {steps here d next}, P steps here →
      r.step here.store scope key here.value = .ok (some d) → d.value = .text next →
      next ≠ here.value → P (steps ++ [(here.value, next)]) (here.advance key d next))
    (n : Nat) : ∀ {steps : Steps} {seen : List Text} {here v : Visited}, P steps here →
      r.follow scope key n seen here = .ok v →
      P (steps ++ r.followTaken scope key n seen here) v := by
  induction n with
  | zero =>
    intro steps seen here v h hv
    cases hv
    change P (steps ++ []) here
    rwa [List.append_nil]
  | succ n ih =>
    intro steps seen here v h hv
    rw [follow_succ] at hv
    rw [followTaken_succ]
    cases hstep : r.step here.store scope key here.value with
    | error e => simp [hstep] at hv
    | ok d? =>
      cases d? with
      | none =>
        simp only [hstep, Except.ok.injEq] at hv
        simpa [← hv] using h
      | some d =>
        obtain ⟨-, -, -, next, hd⟩ := step_draft hstep
        have hnext : d.value.text?.getD here.value = next := by rw [hd]; rfl
        simp only [hstep, hnext] at hv ⊢
        by_cases hsame : next = here.value
        · -- A step that leads back to its own text is not taken.
          simp only [hsame, if_true, Except.ok.injEq] at hv ⊢
          simpa [← hv] using h
        · have hadv := step h hstep hd hsame
          simp only [hsame, if_false] at hv ⊢
          by_cases hseen : next ∈ seen
          · -- A step to a text that came up before is taken, and is the last one.
            simp only [hseen, if_true, Except.ok.injEq] at hv ⊢
            simpa [← hv] using hadv
          · simp only [hseen, if_false] at hv ⊢
            simpa using ih hadv hv

/-- The two kinds of visit: a value that is no text stays as it is, a text is followed and the
token of the entry learns what came of it. -/
theorem visit_cases {s s' : Store} {slot slot' : Slot} {changed : Bool}
    (h : r.visit scope s slot = .ok (s', slot', changed)) :
    (slot.value.text? = none ∧ s' = s ∧ slot' = slot ∧ r.visitTaken scope s slot = []) ∨
    ∃ value v, slot.value = .text value ∧
      r.follow scope slot.entry.flat r.limit [value] ⟨s, value, []⟩ = .ok v ∧
      s' = (v.store.setValue slot.token (.text v.value)).addTrail slot.token v.trail ∧
      slot' = { slot with value := .text v.value } ∧
      r.visitTaken scope s slot =
        r.followTaken scope slot.entry.flat r.limit [value] ⟨s, value, []⟩ := by
  unfold visit at h
  cases hv : slot.value.text? with
  | none =>
    simp only [hv, Except.ok.injEq, Prod.mk.injEq] at h
    exact Or.inl ⟨rfl, h.1.symm, h.2.1.symm, by rw [visitTaken, hv]⟩
  | some value =>
    simp only [hv] at h
    cases hf : r.follow scope slot.entry.flat r.limit [value] ⟨s, value, []⟩ with
    | error e => simp [hf, Except.map] at h
    | ok v =>
      simp only [hf, Except.map, Except.ok.injEq, Prod.mk.injEq] at h
      exact Or.inr ⟨value, v, Document.eq_text_of_text? hv, hf, h.1.symm, h.2.1.symm,
        by rw [visitTaken, hv]⟩

/-- `P` is a property of the steps taken so far, the store and the slots, and an entry that is put
into the store keeps it as well as a visit to an entry does. -/
structure Carried (r : Resolver) (scope : Scope) (entries : List Entry)
    (P : Steps → Store → List Slot → Prop) : Prop where
  /-- An entry is put into the store. -/
  enter : ∀ {s slots e}, P [] s slots → e ∈ entries → e.flat ∉ slots.map (·.entry.flat) →
    P [] (s.add (r.entryDraft scope e)).1
      (slots ++ [⟨e, (s.add (r.entryDraft scope e)).2, r.expand e.value⟩])
  /-- An entry is visited. -/
  visit : ∀ {steps s s' before slot slot' after changed}, P steps s (before ++ slot :: after) →
    r.visit scope s slot = .ok (s', slot', changed) →
    P (steps ++ r.visitTaken scope s slot) s' (before ++ slot' :: after)

variable {entries : List Entry} {P : Steps → Store → List Slot → Prop}

theorem enterAll_cons (s : Store) (e : Entry) (rest : List Entry) :
    r.enterAll scope s (e :: rest) =
      ((r.enterAll scope (s.add (r.entryDraft scope e)).1 rest).1,
        ⟨e, (s.add (r.entryDraft scope e)).2, r.expand e.value⟩ ::
          (r.enterAll scope (s.add (r.entryDraft scope e)).1 rest).2) := rfl

theorem enterAll_carried (hP : Carried r scope entries P) (rest : List Entry) :
    ∀ {s : Store} {slots : List Slot}, P [] s slots → (∀ e ∈ rest, e ∈ entries) →
      (slots.map (·.entry.flat) ++ rest.map Entry.flat).Nodup →
      P [] (r.enterAll scope s rest).1 (slots ++ (r.enterAll scope s rest).2) := by
  induction rest with
  | nil =>
    intro s slots h _ _
    simpa [enterAll] using h
  | cons e rest ih =>
    intro s slots h hmem hnodup
    obtain ⟨he, hrest⟩ := List.forall_mem_cons.mp hmem
    have hnew : e.flat ∉ slots.map (·.entry.flat) := by
      intro hin
      exact (List.nodup_append.mp hnodup).2.2 _ hin _ List.mem_cons_self rfl
    have hone := hP.enter h he hnew
    rw [enterAll_cons]
    simpa using ih hone hrest (by simpa using hnodup)

/-- What every visit keeps is true at the end of a pass. -/
theorem pass_carried (hP : Carried r scope entries P) (slots : List Slot) :
    ∀ {steps : Steps} {s s' : Store} {before slots' : List Slot} {changed : Bool},
      P steps s (before ++ slots) → r.pass scope s slots = .ok (s', slots', changed) →
      P (steps ++ r.passTaken scope s slots) s' (before ++ slots') := by
  induction slots with
  | nil =>
    intro steps s s' before slots' changed h hpass
    simp only [pass, Except.ok.injEq, Prod.mk.injEq] at hpass
    simpa [passTaken, ← hpass.1, ← hpass.2.1] using h
  | cons slot rest ih =>
    intro steps s s' before slots' changed h hpass
    cases hvisit : r.visit scope s slot with
    | error e => simp [pass, hvisit] at hpass
    | ok out =>
      obtain ⟨s₁, slot₁, changed₁⟩ := out
      cases hrest : r.pass scope s₁ rest with
      | error e => simp [pass, hvisit, hrest] at hpass
      | ok out =>
        obtain ⟨s₂, rest₂, changed₂⟩ := out
        simp only [pass, hvisit, hrest, Except.ok.injEq, Prod.mk.injEq] at hpass
        obtain ⟨rfl, rfl, -⟩ := hpass
        have hone : P (steps ++ r.visitTaken scope s slot) s₁ ((before ++ [slot₁]) ++ rest) := by
          simpa using hP.visit h hvisit
        simpa [passTaken, hvisit] using ih hone hrest

theorem passes_carried (hP : Carried r scope entries P) (n : Nat) :
    ∀ (steps : Steps) {p q : Progress}, P steps p.store p.slots →
      r.passes scope n p = .ok q → P (steps ++ r.passesTaken scope n p) q.store q.slots := by
  induction n with
  | zero =>
    intro steps p q h hp
    cases hp
    simpa [passesTaken] using h
  | succ n ih =>
    intro steps p q h hp
    cases hpass : r.pass scope p.store p.slots with
    | error e => simp [passes, hpass] at hp
    | ok out =>
      obtain ⟨s', slots', changed⟩ := out
      have hone : P (steps ++ r.passTaken scope p.store p.slots) s' ([] ++ slots') :=
        pass_carried hP p.slots (show P steps p.store ([] ++ p.slots) from h) hpass
      cases changed with
      | false =>
        simp only [passes, hpass, Bool.false_eq_true, if_false, Except.ok.injEq] at hp
        simpa [passesTaken, hpass, ← hp] using hone
      | true =>
        simp only [passes, hpass, if_true] at hp
        simpa [passesTaken, hpass] using ih _ (p := ⟨s', slots', p.changing + 1⟩) hone hp

/-- Visits keep the entries. -/
theorem passes_entries (n : Nat) {p q : Progress} (h : r.passes scope n p = .ok q) :
    q.slots.map Slot.entry = p.slots.map Slot.entry := by
  have hkept : Carried r scope [] fun _ _ slots =>
      slots.map Slot.entry = p.slots.map Slot.entry := by
    refine ⟨fun _ he => absurd he List.not_mem_nil, ?_⟩
    intro _ _ _ before slot slot' after _ hslots hvisit
    rw [← hslots, List.map_append, List.map_append, List.map_cons, List.map_cons,
      visit_entry hvisit]
  exact passes_carried hkept n [] rfl h

/-- **What entering and visiting keep is true of an evaluation that succeeds**, and it returns what
its slots hold. -/
theorem evaluate_carried (hP : Carried r scope entries P) {s : Store} {done : List Entry}
    (distinct : (entries.map Entry.flat).Nodup) (start : P [] s.checkpoint.1 [])
    (h : (r.evaluate s scope entries).outcome = .ok done) :
    ∃ slots, P (r.taken s scope entries) (r.evaluate s scope entries).store slots ∧
      slots.map Slot.entry = entries ∧ (∀ slot ∈ slots, slot.value.Resolved) ∧
      done = slots.map fun slot => slot.entry.withValue slot.value := by
  rw [(evaluate_outcome r s scope entries).1] at h
  have hstore : (r.evaluate s scope entries).store =
      (r.evaluateFrom s.checkpoint.1 scope entries).store := by
    rcases evaluate_cases r s scope entries with ⟨cause, hfail, -⟩ | ⟨-, hstore⟩
    · rw [hfail] at h
      cases h
    · exact hstore
  obtain ⟨q, hq, hresolved, hdone, -⟩ := evaluateFrom_ok h
  have hentered := enterAll_carried hP entries start (fun _ he => he) (by simpa using distinct)
  refine ⟨q.slots, ?_, ?_, hresolved, hdone⟩
  · rw [hstore, evaluateFrom_of_passes hq hresolved]
    exact passes_carried hP r.limit [] hentered hq
  · have hpairs := congrArg (List.map Prod.fst) (enterAll_slots r scope entries s.checkpoint.1)
    rw [passes_entries r.limit hq]
    simpa [Function.comp_def] using hpairs

/-- Entries keep their paths when they are resolved. -/
theorem evaluate_paths {s : Store} {done : List Entry}
    (h : (r.evaluate s scope entries).outcome = .ok done) :
    done.map Entry.path = entries.map Entry.path := by
  rw [(evaluate_outcome r s scope entries).1] at h
  obtain ⟨q, hq, -, rfl, -⟩ := evaluateFrom_ok h
  have hentered := congrArg (List.map fun p => p.1.path)
    (enterAll_slots r scope entries s.checkpoint.1)
  have hkept := congrArg (List.map Entry.path) (passes_entries r.limit hq)
  simp only [List.map_map] at hentered hkept ⊢
  exact hkept.trans hentered

/-! ## What steps start from -/

/-- What every step is: it changes the text that it starts from, and all that it does to a text
without references and calls is to spell a hex literal out. -/
structure IsStep (p : Text × Text) : Prop where
  /-- The text changes. -/
  changes : p.2 ≠ p.1
  /-- A resolved text is spelled out. -/
  spells : hasUnresolved p.1 = false → normalHex? p.1 = some p.2

theorem isStep_of_step {s : Store} {key x next : Text} {d : Draft}
    (h : r.step s scope key x = .ok (some d)) (hd : d.value = .text next) (hne : next ≠ x) :
    IsStep (x, next) := by
  refine ⟨hne, fun hx => ?_⟩
  rw [step_resolved hx, hexStep] at h
  obtain ⟨y, hy, rfl⟩ := Option.map_eq_some_iff.mp (Except.ok.inj h)
  cases hd
  exact hy

/-- A text that a step can change: a short hex literal, or a text with a reference or a call. -/
def Steppable (x : Text) : Prop := isShortHex x = true ∨ hasUnresolved x = true

theorem IsStep.steppable {p : Text × Text} (h : IsStep p) : Steppable p.1 := by
  cases hx : hasUnresolved p.1 with
  | true => exact Or.inr hx
  | false =>
    refine Or.inl ?_
    by_contra hshort
    have hself := spelledOut_eq_self_iff.mpr (Bool.eq_false_iff.mpr hshort)
    rw [spelledOut_of_some (h.spells hx)] at hself
    exact h.changes hself

/-- No step changes literal text. -/
theorem Steppable.classify_ne {x : Text} (h : Steppable x) : classify x ≠ .literal := by
  intro hliteral
  unfold classify at hliteral
  split at hliteral
  · cases hliteral
  · next hhex =>
    split at hliteral
    · cases hliteral
    · next href =>
      split at hliteral
      · cases hliteral
      · next hcall =>
        rcases h with h | h
        · exact hhex (by rw [isHex, h, Bool.or_true])
        · rw [hasUnresolved, Bool.or_eq_true] at h
          exact h.elim href hcall

end Resolver

/-! ## Steps one after the other -/

/-- Steps that lead from one text to another, each from where the one before ended. -/
inductive Leads : Text → Steps → Text → Prop
  /-- No step leads from a text to itself. -/
  | rest (x : Text) : Leads x [] x
  /-- A step, and steps from where it ends. -/
  | step {x y z : Text} {steps : Steps} : Leads y steps z → Leads x ((x, y) :: steps) z

/-- Steps in which every text has one value. -/
def SingleValued (steps : Steps) : Prop :=
  ∀ x v w, (x, v) ∈ steps → (x, w) ∈ steps → v = w

theorem SingleValued.mono {steps more : Steps} (h : SingleValued more) (sub : steps ⊆ more) :
    SingleValued steps :=
  fun x v w hv hw => h x v w (sub hv) (sub hw)

namespace Leads

variable {x y z : Text} {steps more : Steps}

theorem append (h : Leads x steps y) (h' : Leads y more z) : Leads x (steps ++ more) z := by
  induction h with
  | rest _ => exact h'
  | step _ ih => exact .step (ih h')

theorem concat (h : Leads x steps y) (z : Text) : Leads x (steps ++ [(y, z)]) z :=
  h.append (.step (.rest z))

/-- Steps with a text in the middle lead to it, and on from it. -/
theorem split (h : Leads x (steps ++ (y, z) :: more) w) : Leads x steps y ∧ Leads z more w := by
  induction steps generalizing x with
  | nil =>
    cases h with
    | step hrest => exact ⟨.rest _, hrest⟩
  | cons p steps ih =>
    cases h with
    | step hrest => exact ⟨.step (ih hrest).1, (ih hrest).2⟩

/-- Of two runs of steps from the same text the longer one begins with the shorter one, if every
text has one value. -/
theorem comparable (h : Leads x steps y) (h' : Leads x more z)
    (single : SingleValued (steps ++ more)) :
    (∃ rest, more = steps ++ rest ∧ Leads y rest z) ∨
    ∃ rest, rest ≠ [] ∧ steps = more ++ rest ∧ Leads z rest y := by
  induction h generalizing more with
  | rest _ => exact Or.inl ⟨more, rfl, h'⟩
  | @step x v y steps hrest ih =>
    cases h' with
    | rest _ => exact Or.inr ⟨_, List.cons_ne_nil _ _, rfl, .step hrest⟩
    | @step _ w _ more hmore =>
      obtain rfl : v = w := single x v w (by simp) (by simp)
      have hsub : steps ++ more ⊆ (x, v) :: steps ++ (x, v) :: more := by
        intro p hp
        simp only [List.mem_append, List.mem_cons] at hp ⊢
        tauto
      rcases ih hmore (single.mono hsub) with ⟨rest, rfl, hlead⟩ | ⟨rest, hne, rfl, hlead⟩
      · exact Or.inl ⟨rest, rfl, hlead⟩
      · exact Or.inr ⟨rest, hne, rfl, hlead⟩

/-- Steps start from where they lead from, if there are any. -/
theorem start_mem (h : Leads x steps y) (hne : steps ≠ []) : x ∈ steps.map Prod.fst := by
  cases h with
  | rest _ => exact absurd rfl hne
  | step _ => simp

/-- **No text comes up twice on the way to one that no step starts from**, if every text has one
value.  A text that did would lead to itself, and so would all that comes after. -/
theorem nodup (h : Leads x steps y) (single : SingleValued steps)
    (hend : y ∉ steps.map Prod.fst) : (steps.map Prod.fst).Nodup := by
  induction h with
  | rest _ => exact List.nodup_nil
  | @step x v y steps hrest ih =>
    rw [List.map_cons, List.mem_cons, not_or] at hend
    have hsub : steps ⊆ (x, v) :: steps := List.subset_cons_self _ _
    have hnodup := ih (single.mono hsub) hend.2
    rw [List.map_cons, List.nodup_cons]
    refine ⟨fun hmem => ?_, hnodup⟩
    obtain ⟨p, hp, hpx⟩ := List.mem_map.mp hmem
    obtain ⟨before, after, rfl⟩ := List.append_of_mem hp
    obtain ⟨a, w⟩ := p
    obtain rfl : a = x := hpx
    obtain rfl : v = w := single a v w (by simp) (by simp)
    obtain ⟨hcycle, hafter⟩ := hrest.split
    have hboth : before ++ after ⊆ (a, v) :: (before ++ (a, v) :: after) := by
      intro p hp
      simp only [List.mem_append, List.mem_cons] at hp ⊢
      tauto
    rcases hcycle.comparable hafter (single.mono hboth) with
      ⟨rest, rfl, hlead⟩ | ⟨rest, hne, rfl, hlead⟩
    · -- The way on from the cycle starts from `a` again, or ends there.
      by_cases hnil : rest = []
      · subst hnil
        cases hlead
        exact hend.1 rfl
      · have hagain := hlead.start_mem hnil
        simp only [List.map_append, List.map_cons, List.nodup_append, List.nodup_cons,
          List.mem_append] at hnodup
        exact hnodup.2.1.1 (Or.inr hagain)
    · refine hend.2 ?_
      have hagain := hlead.start_mem hne
      simp only [List.map_append, List.mem_append]
      exact Or.inl (Or.inr hagain)

/-- Steps do not start from the resolved text that they lead to. -/
theorem resolved_not_mem (h : Leads x steps y) (hsteps : ∀ p ∈ steps, Resolver.IsStep p)
    (hy : hasUnresolved y = false) : y ∉ steps.map Prod.fst := by
  intro hmem
  obtain ⟨p, hp, hpy⟩ := List.mem_map.mp hmem
  obtain ⟨before, after, rfl⟩ := List.append_of_mem hp
  obtain ⟨a, w⟩ := p
  obtain rfl : a = y := hpy
  have hspell : normalHex? a = some w := (hsteps _ hp).spells hy
  -- The step spells a hex literal out, which no further step changes.
  have hnormal : spelledOut w = w := by
    rw [← spelledOut_of_some hspell, spelledOut_spelledOut]
  cases h.split.2 with
  | rest _ => exact (hsteps _ hp).changes rfl
  | @step _ v _ after _ =>
    have hnext := hsteps (w, v) (by simp)
    have hagain : normalHex? w = some v :=
      hnext.spells (hasUnresolved_of_unmarked (isMark_of_normalHex? hspell))
    rw [spelledOut_of_some hagain] at hnormal
    exact hnext.changes hnormal

end Leads

end Colourway
