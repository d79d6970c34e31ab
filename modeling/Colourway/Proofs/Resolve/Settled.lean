import Colourway.Proofs.Resolve.Resolved

/-!
# Settled values

A value that holds no reference and no call, and is no short hex literal, is settled: nothing
changes it any more (`visit_settled`).  So the entries of a scope that are given with settled values
come out of a resolution as they went in, whatever the others do (**`evaluate_filter`**).
-/

namespace Colourway

open Syntax

/-- A value that no visit changes. -/
structure Document.Settled (d : Document) : Prop where
  /-- It holds no reference and no call. -/
  resolved : d.Resolved
  /-- It is no short hex literal. -/
  spelled : d.spelledOut = d

theorem Document.settled_of_text?_none {d : Document} (h : d.text? = none) : d.Settled := by
  refine ⟨?_, spelledOut_of_text?_none h⟩
  rintro v rfl
  cases h

theorem Document.settled_of_long {v : Text} (h : isLongHex v = true) :
    (Document.text v).Settled := by
  have hnormal : normalHex? v = some v := normalHex?_of_long h
  constructor
  · rintro w ⟨⟩
    exact hasUnresolved_of_unmarked (isMark_of_normalHex? hnormal)
  · rw [spelledOut_text, spelledOut_of_some hnormal]

namespace Resolver

variable {r : Resolver} {scope : Scope}

theorem visit_entry {s s' : Store} {slot slot' : Slot} {changed : Bool}
    (h : r.visit scope s slot = .ok (s', slot', changed)) : slot'.entry = slot.entry := by
  unfold visit at h
  cases hv : slot.value.text? with
  | none =>
    simp only [hv, Except.ok.injEq, Prod.mk.injEq] at h
    rw [h.2.1]
  | some v =>
    simp only [hv] at h
    cases hf : r.follow scope slot.entry.flat r.limit [v] ⟨s, v, []⟩ with
    | error e => simp [hf, Except.map] at h
    | ok out =>
      simp only [hf, Except.map, Except.ok.injEq, Prod.mk.injEq] at h
      rw [← h.2.1]

/-- A visit leaves a settled slot as it is. -/
theorem visit_settled (r : Resolver) (scope : Scope) (s : Store) {slot : Slot}
    (h : slot.value.Settled) : ∃ s', r.visit scope s slot = .ok (s', slot, false) := by
  obtain ⟨entry, token, value⟩ := slot
  unfold visit
  cases hv : value.text? with
  | none => exact ⟨s, rfl⟩
  | some v =>
    obtain rfl := Document.eq_text_of_text? hv
    have hspelled : spelledOut v = v := by simpa [Document.text, Document.spelledOut] using h.spelled
    have hfollow : r.follow scope entry.flat r.limit [v] ⟨s, v, []⟩ = .ok ⟨s, v, []⟩ :=
      follow_spelledOut entry.flat r.limit [v] (h.resolved v rfl) hspelled
    refine ⟨(s.setValue token (.text v)).addTrail token [], ?_⟩
    simp [hfollow, Except.map]

section Runs

variable {keep : Entry → Bool}

/-- The slots that a filter keeps come out of a pass as they went in, if they are settled. -/
theorem pass_filter (slots : List Slot) :
    ∀ {s s' : Store} {slots' : List Slot} {changed : Bool},
      (∀ slot ∈ slots, keep slot.entry = true → slot.value.Settled) →
      r.pass scope s slots = .ok (s', slots', changed) →
      slots'.filter (fun slot => keep slot.entry) = slots.filter fun slot => keep slot.entry := by
  induction slots with
  | nil =>
    intro s s' slots' changed _ h
    simp only [pass, Except.ok.injEq, Prod.mk.injEq] at h
    rw [← h.2.1]
  | cons slot rest ih =>
    intro s s' slots' changed hsettled h
    cases hvisit : r.visit scope s slot with
    | error e => simp [pass, hvisit] at h
    | ok out =>
      obtain ⟨s₁, slot₁, changed₁⟩ := out
      cases hpass : r.pass scope s₁ rest with
      | error e => simp [pass, hvisit, hpass] at h
      | ok out =>
        obtain ⟨s₂, rest₂, changed₂⟩ := out
        simp only [pass, hvisit, hpass, Except.ok.injEq, Prod.mk.injEq] at h
        obtain ⟨-, rfl, -⟩ := h
        have hrest := ih (fun x hx => hsettled x (List.mem_cons_of_mem _ hx)) hpass
        rw [List.filter_cons, List.filter_cons, visit_entry hvisit, hrest]
        by_cases hkeep : keep slot.entry = true
        · obtain ⟨s₃, hsame⟩ := visit_settled r scope s (hsettled slot List.mem_cons_self hkeep)
          have hslot : slot₁ = slot := by
            rw [hsame] at hvisit
            simp only [Except.ok.injEq, Prod.mk.injEq] at hvisit
            exact hvisit.2.1.symm
          rw [hslot]
        · simp [hkeep]

theorem passes_filter (n : Nat) : ∀ {p q : Progress},
    (∀ slot ∈ p.slots, keep slot.entry = true → slot.value.Settled) →
    r.passes scope n p = .ok q →
    q.slots.filter (fun slot => keep slot.entry) =
      p.slots.filter fun slot => keep slot.entry := by
  induction n with
  | zero =>
    intro p q _ h
    cases h
    rfl
  | succ n ih =>
    intro p q hsettled h
    cases hpass : r.pass scope p.store p.slots with
    | error e => simp [passes, hpass] at h
    | ok out =>
      obtain ⟨s', slots', changed⟩ := out
      have hfilter := pass_filter p.slots hsettled hpass
      rw [passes, hpass] at h
      cases changed with
      | false =>
        cases h
        exact hfilter
      | true =>
        have hsettled' : ∀ slot ∈ slots', keep slot.entry = true → slot.value.Settled := by
          intro slot hslot hkeep
          have hmem : slot ∈ p.slots.filter fun slot => keep slot.entry := by
            rw [← hfilter]
            exact List.mem_filter.mpr ⟨hslot, hkeep⟩
          exact hsettled slot (List.mem_filter.mp hmem).1 hkeep
        rw [← hfilter]
        exact ih (p := ⟨s', slots', p.changing + 1⟩) hsettled' h

end Runs

/-- **Settled entries come out as they went in.**  A filter that goes by the place of an entry and
keeps settled entries only gives the same before and after a resolution. -/
theorem evaluate_filter {s : Store} {entries done : List Entry} {keep : Entry → Bool}
    (hkeep : ∀ e value, keep (e.withValue value) = keep e)
    (settled : ∀ e ∈ entries, keep e = true → e.value.Settled)
    (h : (r.evaluate s scope entries).outcome = .ok done) :
    done.filter keep = entries.filter keep := by
  rw [(evaluate_outcome r s scope entries).1] at h
  obtain ⟨q, hq, -, rfl, -⟩ := evaluateFrom_ok h
  set slots := (r.enterAll scope s.checkpoint.1 entries).2 with hslots
  have hpairs : slots.map (fun slot => (slot.entry, slot.value)) =
      entries.map fun e => (e, r.expand e.value) := by rw [hslots, enterAll_slots]
  have hstart : ∀ slot ∈ slots, keep slot.entry = true → slot.value.Settled := by
    intro slot hslot hk
    have hmem : (slot.entry, slot.value) ∈ entries.map fun e => (e, r.expand e.value) := by
      rw [← hpairs]
      exact List.mem_map_of_mem hslot
    obtain ⟨e, he, heq⟩ := List.mem_map.mp hmem
    obtain ⟨hentry, hvalue⟩ := Prod.mk.inj heq
    have hsettled := settled e he (by rwa [hentry])
    rwa [← hvalue, expand_resolved r hsettled.resolved]
  -- No pass touches the slots that the filter keeps.
  have hfilter := passes_filter (p := ⟨(r.enterAll scope s.checkpoint.1 entries).1, slots, 0⟩)
    r.limit hstart hq
  calc (q.slots.map fun slot => slot.entry.withValue slot.value).filter keep
      = (q.slots.filter fun slot => keep slot.entry).map
          fun slot => slot.entry.withValue slot.value := by
        rw [List.filter_map]
        simp only [Function.comp_def, hkeep]
    _ = (slots.filter fun slot => keep slot.entry).map
          fun slot => slot.entry.withValue slot.value := by rw [hfilter]
    _ = ((slots.map fun slot => (slot.entry, slot.value)).filter fun p => keep p.1).map
          fun p => p.1.withValue p.2 := by
        rw [List.filter_map, List.map_map]
        rfl
    _ = (entries.filter keep).map fun e => e.withValue (r.expand e.value) := by
        rw [hpairs, List.filter_map, List.map_map]
        rfl
    _ = entries.filter keep := by
        refine (List.map_congr_left fun e he => ?_).trans (List.map_id _)
        obtain ⟨hmem, hk⟩ := List.mem_filter.mp he
        rw [expand_resolved r (settled e hmem hk).resolved]
        rfl

end Resolver

end Colourway
