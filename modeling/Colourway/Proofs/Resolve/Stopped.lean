import Colourway.Proofs.Except
import Colourway.Proofs.Resolve.Taken

/-!
# Where a run stops over a fault

Resolving a scope comes upon a fault only where it evaluates a call, and where it replaces a
reference to a value that cannot be told.  The text with this call or reference is one that the run
came to: an entry was written with it, or a step that was taken led to it (**`evaluate_fault`**).

A run that stops has no slots and no trail to show, so what it came to is told by the steps that it
took (`Resolver.taken`), and `Comes` is carried along these.  The store that it stops in is the one
that it leaves.
-/

namespace Colourway

open Syntax

namespace Resolver

variable {r : Resolver} {scope : Scope} {f : Fault}

/-- The next step on a text is to evaluate a call over which the colour arithmetic comes upon a
fault. -/
def FaultsOver (r : Resolver) (value : Text) (f : Fault) : Prop :=
  ∃ call, classify value = .call ∧ findCall value = some call ∧
    r.math.apply (.ofName call.name call.args call.captured) = .error (.fault f)

/-- The next step on a text comes upon a fault in a store: it evaluates a call, or replaces a
reference to a value that cannot be told. -/
inductive StopsOver (r : Resolver) (scope : Scope) (s : Store) (value : Text) : Fault → Prop where
  /-- The colour arithmetic comes upon a fault. -/
  | call {f : Fault} (faults : r.FaultsOver value f) : StopsOver r scope s value f
  /-- The first reference leads to a value that cannot be told. -/
  | reference (kind : classify value = .reference) (untold : RefersUntold s scope value) :
      StopsOver r scope s value .longInteger

/-- A text that steps lead to from some first texts, or one of these. -/
def Comes (first : Text → Prop) (steps : Steps) (value : Text) : Prop :=
  first value ∨ ∃ step ∈ steps, step.2 = value

theorem Comes.mono {first later : Text → Prop} {steps : Steps} {value : Text}
    (h : Comes first steps value) (hlater : ∀ v, first v → later v) : Comes later steps value :=
  h.imp (hlater value) id

/-- Steps from texts that other steps lead to. -/
theorem Comes.append {first : Text → Prop} {steps more : Steps} {value : Text}
    (h : Comes (Comes first steps) more value) : Comes first (steps ++ more) value := by
  rcases h with (hfirst | ⟨x, hx, hvalue⟩) | ⟨x, hx, hvalue⟩
  · exact .inl hfirst
  · exact .inr ⟨x, List.mem_append_left _ hx, hvalue⟩
  · exact .inr ⟨x, List.mem_append_right _ hx, hvalue⟩

/-! ## One visit -/

theorem blame_eq_fault {key : Text} {e : ColourError} (h : blame key e = .fault f) :
    e = .fault f := by
  cases e with
  | refused => cases h
  | fault g =>
    cases h
    rfl

/-- A step faults only over a call or a value that cannot be told. -/
theorem step_fault {s : Store} {key value : Text}
    (h : r.step s scope key value = .error (.fault f)) : r.StopsOver scope s value f := by
  unfold step at h
  cases hkind : classify value with
  | reference =>
    rw [hkind] at h
    rcases referenceStep_cases s scope key value with hnone | ⟨hlong, hrefers⟩ |
      ⟨ref, t, shown, -, -, -, -, hstep⟩
    · rw [hnone] at h
      cases h
    · rw [hlong] at h
      cases h
      exact .reference hkind hrefers
    · rw [hstep] at h
      cases h
  | call =>
    rw [hkind] at h
    obtain ⟨call, hcall, hfaults⟩ := callStep_error h
    exact .call ⟨call, hkind, hcall, hfaults⟩
  | _ =>
    rw [hkind] at h
    cases h

variable (r scope)

/-- What a visit comes to: the value that it ends with, and the one that it stops over. -/
theorem follow_comes (key : Text) (n : Nat) : ∀ (seen : List Text) (here : Visited),
    (r.follow scope key n seen here).Ends
      (fun e => ∀ f, e.1 = .fault f → ∃ value,
        Comes (· = here.value) (r.followTaken scope key n seen here) value ∧
          r.StopsOver scope e.2 value f)
      fun v => Comes (· = here.value) (r.followTaken scope key n seen here) v.value := by
  induction n with
  | zero => exact fun _ here => .inl rfl
  | succ n ih =>
    intro seen here
    rw [follow_succ, followTaken_succ]
    cases hstep : r.step here.store scope key here.value with
    | error e =>
      intro f hf
      exact ⟨here.value, .inl rfl, step_fault (hstep.trans (congrArg _ (blame_eq_fault hf)))⟩
    | ok d? =>
      cases d? with
      | none => exact .inl rfl
      | some d =>
        dsimp only
        generalize d.value.text?.getD here.value = next
        by_cases hsame : next = here.value
        · rw [if_pos hsame, if_pos hsame]
          exact .inl rfl
        · rw [if_neg hsame, if_neg hsame]
          by_cases hseen : next ∈ seen
          · rw [if_pos hseen, if_pos hseen]
            exact .inr ⟨_, List.mem_cons_self, rfl⟩
          · rw [if_neg hseen, if_neg hseen]
            have hrest := ih (next :: seen) (here.advance key d next)
            -- From the next text on, everything lies behind the step to it.
            have hbehind : ∀ {value : Text} {steps : Steps}, Comes (· = next) steps value →
                Comes (· = here.value) ((here.value, next) :: steps) value := by
              intro value steps h
              have hone : ∀ v, v = next → Comes (· = here.value) [(here.value, next)] v := by
                rintro v rfl
                exact .inr ⟨_, List.mem_singleton_self _, rfl⟩
              exact (h.mono hone).append
            revert hrest
            cases r.follow scope key n (next :: seen) (here.advance key d next) with
            | error e =>
              intro hrest f hf
              obtain ⟨value, hvalue, hfaults⟩ := hrest f hf
              exact ⟨value, hbehind hvalue, hfaults⟩
            | ok v => exact fun hrest => hbehind hrest

/-! ## All visits -/

/-- A text that one of some slots holds. -/
def Held (slots : List Slot) (value : Text) : Prop := ∃ slot ∈ slots, slot.value = .text value

/-- A run from some slots comes to a text that it stops over, and leaves this store. -/
def Stops (r : Resolver) (scope : Scope) (slots : List Slot) (steps : Steps) (s : Store)
    (f : Fault) : Prop :=
  ∃ value, Comes (Held slots) steps value ∧ r.StopsOver scope s value f

theorem visit_comes (s : Store) (slot : Slot) :
    (r.visit scope s slot).Ends
      (fun e => ∀ f, e.1 = .fault f → r.Stops scope [slot] (r.visitTaken scope s slot) e.2 f)
      fun out => ∀ value, out.2.1.value = .text value →
        Comes (Held [slot]) (r.visitTaken scope s slot) value := by
  unfold visit visitTaken
  cases htext : slot.value.text? with
  | none => exact fun value hvalue => .inl ⟨slot, List.mem_singleton_self _, hvalue⟩
  | some start =>
    have hstart : ∀ v, v = start → Held [slot] v := by
      rintro v rfl
      exact ⟨slot, List.mem_singleton_self _, Document.eq_text_of_text? htext⟩
    have hrun := follow_comes r scope slot.entry.flat r.limit [start]
      ⟨s, start, []⟩
    revert hrun
    dsimp only
    cases r.follow scope slot.entry.flat r.limit [start] ⟨s, start, []⟩ with
    | error e =>
      intro hrun f hf
      obtain ⟨value, hvalue, hfaults⟩ := hrun f hf
      exact ⟨value, hvalue.mono hstart, hfaults⟩
    | ok v =>
      intro hrun value hvalue
      cases hvalue
      have hcomes : Comes (· = start) _ v.value := hrun
      exact hcomes.mono hstart

theorem pass_comes (slots : List Slot) : ∀ s : Store,
    (r.pass scope s slots).Ends
      (fun e => ∀ f, e.1 = .fault f → r.Stops scope slots (r.passTaken scope s slots) e.2 f)
      fun out => ∀ value, Held out.2.1 value →
        Comes (Held slots) (r.passTaken scope s slots) value := by
  induction slots with
  | nil => exact fun s value hvalue => .inl hvalue
  | cons slot rest ih =>
    intro s
    have hvisit := visit_comes r scope s slot
    -- What the first visit comes to, and what the visits after it come to.
    have hfirst : ∀ {value : Text} {more : Steps},
        Comes (Held [slot]) (r.visitTaken scope s slot) value →
        Comes (Held (slot :: rest)) (r.visitTaken scope s slot ++ more) value := by
      intro value more h
      refine Comes.append (.inl (h.mono ?_))
      rintro v ⟨x, hx, hv⟩
      exact ⟨x, List.mem_cons.mpr (.inl (List.mem_singleton.mp hx)), hv⟩
    have hlater : ∀ {value : Text} {more : Steps}, Comes (Held rest) more value →
        Comes (Held (slot :: rest)) (r.visitTaken scope s slot ++ more) value := by
      intro value more h
      refine Comes.append (h.mono ?_)
      rintro v ⟨x, hx, hv⟩
      exact .inl ⟨x, List.mem_cons_of_mem _ hx, hv⟩
    unfold pass passTaken
    revert hvisit
    cases r.visit scope s slot with
    | error e =>
      intro hvisit f hf
      obtain ⟨value, hvalue, hfaults⟩ := hvisit f hf
      exact ⟨value, hfirst hvalue, hfaults⟩
    | ok out =>
      obtain ⟨s', slot', changed⟩ := out
      intro hvisit
      have hrest := ih s'
      dsimp only
      revert hrest
      cases r.pass scope s' rest with
      | error e =>
        intro hrest f hf
        obtain ⟨value, hvalue, hfaults⟩ := hrest f hf
        exact ⟨value, hlater hvalue, hfaults⟩
      | ok out =>
        rintro hrest value ⟨x, hx, hv⟩
        rcases List.mem_cons.mp hx with rfl | hx
        · exact hfirst (hvisit value hv)
        · exact hlater (hrest value ⟨x, hx, hv⟩)

variable {r scope}

theorem passes_stops (n : Nat) : ∀ (p : Progress) {e : Failure × Store × Nat},
    r.passes scope n p = .error e → e.1 = .fault f →
      r.Stops scope p.slots (r.passesTaken scope n p) e.2.1 f := by
  induction n with
  | zero =>
    intro p e h
    cases h
  | succ n ih =>
    intro p e h hf
    have hpass := pass_comes r scope p.slots p.store
    unfold passes at h
    unfold passesTaken
    revert hpass h
    cases r.pass scope p.store p.slots with
    | error e' =>
      intro hpass h
      cases h
      obtain ⟨value, hvalue, hfaults⟩ := hpass f hf
      exact ⟨value, Comes.append (.inl hvalue), hfaults⟩
    | ok out =>
      obtain ⟨s, slots, changed⟩ := out
      intro hpass h
      cases changed with
      | false => cases h
      | true =>
        obtain ⟨value, hvalue, hfaults⟩ := ih ⟨s, slots, p.changing + 1⟩ h hf
        exact ⟨value, Comes.append (hvalue.mono hpass), hfaults⟩

/-- A text that resolving entries comes to: an entry is written with it, aliases apart, or a step
that is taken leads to it. -/
def CameTo (r : Resolver) (s : Store) (scope : Scope) (entries : List Entry) (value : Text) :
    Prop :=
  Comes (fun v => ∃ e ∈ entries, r.expand e.value = .text v) (r.taken s scope entries) value

/-- **A fault comes from a text that the run came to**, in the store that it leaves. -/
theorem evaluate_fault {s : Store} {entries : List Entry}
    (h : (r.evaluate s scope entries).outcome = .error (.fault f)) :
    ∃ value, r.CameTo s scope entries value ∧
      r.StopsOver scope (r.evaluate s scope entries).store value f := by
  rw [(evaluate_outcome r s scope entries).1] at h
  rcases evaluate_cases r s scope entries with ⟨cause, hfail, -⟩ | ⟨-, hstore⟩
  · rw [hfail] at h
    cases h
  rw [hstore]
  rw [evaluateFrom] at h ⊢
  dsimp only at h ⊢
  split at h
  · next e s' changing hpasses =>
    obtain ⟨value, hvalue, hstops⟩ := passes_stops r.limit _ hpasses (Except.error.inj h)
    refine ⟨value, hvalue.mono ?_, hstops⟩
    -- Entries are put into slots with their aliases written out.
    rintro v ⟨slot, hslot, hv⟩
    have hmem := List.mem_map_of_mem (f := fun slot : Slot => (slot.entry, slot.value)) hslot
    rw [enterAll_slots] at hmem
    obtain ⟨entry, hentry, heq⟩ := List.mem_map.mp hmem
    obtain ⟨-, hvalue⟩ := Prod.mk.inj heq
    exact ⟨entry, hentry, hvalue.trans hv⟩
  · split at h <;> cases h

end Resolver

end Colourway
