import Colourway.Proofs.Resolve.Outcome
import Colourway.Proofs.Resolve.Settled

/-!
# Raising the limit

A visit rests if it ends for its own reasons: allowed one step more than the limit, it takes no more
than the limit.  A run that succeeds, and all of whose visits rest, is the same under any greater
limit (**`evaluate_raised`**): its visits take the same steps (`follow_of_rests`), and the passes
that it did not make find settled values (`settled_of_rests`).

Where the limit cuts visits off, it decides which half resolved values the entries take from one
another, and with them how much is left to do.  So raising it can turn a success into a failure
(`raised_limit_fails`).
-/

namespace Colourway

open Syntax

namespace Resolver

variable {r : Resolver} {scope : Scope}

/-- The resolver with another limit. -/
def withLimit (r : Resolver) (limit : Nat) : Resolver := { r with limit := limit }

@[simp] theorem limit_withLimit (r : Resolver) (limit : Nat) : (r.withLimit limit).limit = limit :=
  rfl

/-- The steps do not depend on the limit, only their number does. -/
theorem follow_withLimit (limit : Nat) (key : Text) (n : Nat) (seen : List Text)
    (here : Visited) :
    (r.withLimit limit).follow scope key n seen here = r.follow scope key n seen here := by
  induction n generalizing seen here with
  | zero => rfl
  | succ n ih =>
    have hstep : (r.withLimit limit).step here.store scope key here.value =
        r.step here.store scope key here.value := rfl
    rw [follow_succ, follow_succ, hstep]
    simp only [ih]

theorem enterAll_withLimit (limit : Nat) (s : Store) (entries : List Entry) :
    (r.withLimit limit).enterAll scope s entries = r.enterAll scope s entries := by
  induction entries generalizing s with
  | nil => rfl
  | cons e rest ih =>
    have henter : (r.withLimit limit).enter scope s e = r.enter scope s e := rfl
    simp only [enterAll, henter, ih]

/-! ## Visits that rest -/

/-- A visit that takes no more steps than the limit when it is allowed one more. -/
def visitRests (r : Resolver) (scope : Scope) (s : Store) (slot : Slot) : Bool :=
  match slot.value.text? with
  | none => true
  | some value =>
    match r.follow scope slot.entry.flat (r.limit + 1) [value] ⟨s, value, []⟩ with
    | .ok out => out.trail.length ≤ r.limit
    | .error _ => false

/-- All visits of a pass rest. -/
def passRests (r : Resolver) (scope : Scope) : Store → List Slot → Bool
  | _, [] => true
  | s, slot :: rest =>
    r.visitRests scope s slot &&
      match r.visit scope s slot with
      | .ok (s, _, _) => passRests r scope s rest
      | .error _ => true

/-- All visits of at most `left` passes rest. -/
def passesRest (r : Resolver) (scope : Scope) : (left : Nat) → Progress → Bool
  | 0, _ => true
  | left + 1, p =>
    r.passRests scope p.store p.slots &&
      match r.pass scope p.store p.slots with
      | .ok (s, slots, true) => passesRest r scope left ⟨s, slots, p.changing + 1⟩
      | _ => true

/-- All visits rest when entries are resolved. -/
def Rests (r : Resolver) (s : Store) (scope : Scope) (entries : List Entry) : Prop :=
  r.passesRest scope r.limit
    ⟨(r.enterAll scope s.checkpoint.1 entries).1, (r.enterAll scope s.checkpoint.1 entries).2, 0⟩ =
      true

instance (r : Resolver) (s : Store) (scope : Scope) (entries : List Entry) :
    Decidable (r.Rests s scope entries) := inferInstanceAs (Decidable (_ = true))

/-- A visit stays where it is, fails, or takes one step and goes on from there, whatever the number
of steps that are left. -/
theorem follow_cases (r : Resolver) (scope : Scope) (key : Text) (seen : List Text)
    (here : Visited) :
    (∀ n, r.follow scope key n seen here = .ok here) ∨
    (∃ e, ∀ n, r.follow scope key (n + 1) seen here = .error e) ∨
    ∃ d next, next ≠ here.value ∧ ∀ n, r.follow scope key (n + 1) seen here =
      if next ∈ seen then .ok (here.advance key d next)
      else r.follow scope key n (next :: seen) (here.advance key d next) := by
  cases hstep : r.step here.store scope key here.value with
  | error e => exact Or.inr (Or.inl ⟨_, fun n => by rw [follow_succ, hstep]⟩)
  | ok d? =>
    cases d? with
    | none =>
      refine Or.inl fun n => ?_
      cases n with
      | zero => rfl
      | succ n => rw [follow_succ, hstep]
    | some d =>
      by_cases hsame : d.value.text?.getD here.value = here.value
      · refine Or.inl fun n => ?_
        cases n with
        | zero => rfl
        | succ n => simp only [follow_succ, hstep, hsame, if_true]
      · refine Or.inr (Or.inr ⟨d, d.value.text?.getD here.value, hsame, fun n => ?_⟩)
        simp only [follow_succ, hstep, hsame, if_false]

theorem length_trail_advance (here : Visited) (key : Text) (d : Draft) (next : Text) :
    (here.advance key d next).trail.length = here.trail.length + 1 := by
  simp [Visited.advance]

theorem length_trail_le_follow {key : Text} (n : Nat) : ∀ {seen : List Text} {here out : Visited},
    r.follow scope key n seen here = .ok out → here.trail.length ≤ out.trail.length := by
  induction n with
  | zero =>
    intro seen here out h
    cases h
    exact Nat.le_refl _
  | succ n ih =>
    intro seen here out h
    rcases follow_cases r scope key seen here with hstay | ⟨e, herror⟩ | ⟨d, next, -, hgo⟩
    · rw [hstay] at h
      cases h
      exact Nat.le_refl _
    · rw [herror] at h
      cases h
    · have hlonger := length_trail_advance here key d next
      rw [hgo] at h
      split at h
      · cases h
        omega
      · have hrest := ih h
        omega

/-- Steps that end within `n` of them are the same wherever `n` or more are allowed. -/
theorem follow_of_rests {key : Text} (n : Nat) : ∀ {seen : List Text} {here out : Visited},
    r.follow scope key (n + 1) seen here = .ok out → out.trail.length ≤ here.trail.length + n →
    ∀ m, n ≤ m → r.follow scope key m seen here = .ok out := by
  induction n with
  | zero =>
    intro seen here out h hlen m _
    rcases follow_cases r scope key seen here with hstay | ⟨e, herror⟩ | ⟨d, next, -, hgo⟩
    · rw [hstay] at h ⊢
      exact h
    · rw [herror] at h
      cases h
    · -- One step was taken, which is more than none.
      have hlonger := length_trail_advance here key d next
      rw [hgo] at h
      split at h
      · cases h
        omega
      · have hrest := length_trail_le_follow 0 h
        omega
  | succ n ih =>
    intro seen here out h hlen m hm
    obtain ⟨m, rfl⟩ : ∃ k, m = k + 1 := ⟨m - 1, by omega⟩
    rcases follow_cases r scope key seen here with hstay | ⟨e, herror⟩ | ⟨d, next, -, hgo⟩
    · rw [hstay] at h ⊢
      exact h
    · rw [herror] at h
      cases h
    · have hlonger := length_trail_advance here key d next
      rw [hgo] at h ⊢
      by_cases hseen : next ∈ seen
      · simpa only [hseen, if_true] using h
      · simp only [hseen, if_false] at h ⊢
        exact ih h (by omega) m (by omega)

/-- What a visit that rests comes to is settled, if it is resolved. -/
theorem spelledOut_of_rests {key : Text} (n : Nat) : ∀ {seen : List Text} {here out : Visited},
    r.follow scope key (n + 1) seen here = .ok out → out.trail.length ≤ here.trail.length + n →
    hasUnresolved out.value = false →
    hasUnresolved here.value = false ∨ (∀ w ∈ seen, hasUnresolved w = true) →
    spelledOut out.value = out.value := by
  -- A resolved value takes one step at most, and that spells it out.
  have hresolved : ∀ n {seen : List Text} {here out : Visited},
      r.follow scope key (n + 1) seen here = .ok out → hasUnresolved here.value = false →
      spelledOut out.value = out.value := by
    intro n seen here out h hhere
    obtain ⟨v, hv, hvalue⟩ := follow_resolved r scope key n seen hhere
    rw [h] at hv
    cases hv
    rw [hvalue, spelledOut_spelledOut]
  induction n with
  | zero =>
    intro seen here out h hlen hout _
    have hstay := follow_of_rests 0 h hlen 0 (Nat.le_refl 0)
    cases hstay
    exact hresolved 0 h hout
  | succ n ih =>
    intro seen here out h hlen hout hcase
    by_cases hhere : hasUnresolved here.value = false
    · exact hresolved _ h hhere
    · have hseen := hcase.resolve_left hhere
      rcases follow_cases r scope key seen here with hstay | ⟨e, herror⟩ | ⟨d, next, -, hgo⟩
      · rw [hstay] at h
        cases h
        exact absurd hout hhere
      · rw [herror] at h
        cases h
      · have hlonger := length_trail_advance here key d next
        rw [hgo] at h
        by_cases hmem : next ∈ seen
        · -- The visit would end with a text that came up before, and these are not resolved.
          simp only [hmem, if_true, Except.ok.injEq] at h
          subst h
          rw [show (here.advance key d next).value = next from rfl, hseen next hmem] at hout
          cases hout
        · simp only [hmem, if_false] at h
          refine ih h (by omega) hout ?_
          by_cases hnext : hasUnresolved next = false
          · exact Or.inl hnext
          · refine Or.inr (List.forall_mem_cons.mpr ⟨?_, hseen⟩)
            simpa using hnext

/-! ## Passes whose visits rest -/

section Passes

variable {limit : Nat} (le : r.limit ≤ limit)

theorem visit_of_rests {s : Store} {slot : Slot} (h : r.visitRests scope s slot = true)
    {n : Nat} (hn : r.limit ≤ n) :
    (r.withLimit n).visit scope s slot = r.visit scope s slot := by
  unfold visitRests at h
  unfold visit
  cases hv : slot.value.text? with
  | none => rfl
  | some value =>
    rw [hv] at h
    cases hf : r.follow scope slot.entry.flat (r.limit + 1) [value] ⟨s, value, []⟩ with
    | error e => simp [hf] at h
    | ok out =>
      have hlen : out.trail.length ≤ ([] : List TokenId).length + r.limit := by
        simpa [hf] using h
      simp only [limit_withLimit, follow_withLimit, follow_of_rests r.limit hf hlen n hn,
        follow_of_rests r.limit hf hlen r.limit (Nat.le_refl _)]

theorem settled_of_visit {s s' : Store} {slot slot' : Slot} {changed : Bool}
    (hrests : r.visitRests scope s slot = true)
    (h : r.visit scope s slot = .ok (s', slot', changed)) (resolved : slot'.value.Resolved) :
    slot'.value.Settled := by
  unfold visitRests at hrests
  unfold visit at h
  cases hv : slot.value.text? with
  | none =>
    simp only [hv, Except.ok.injEq, Prod.mk.injEq] at h
    rw [← h.2.1]
    exact Document.settled_of_text?_none hv
  | some value =>
    simp only [hv] at h hrests
    cases hf : r.follow scope slot.entry.flat (r.limit + 1) [value] ⟨s, value, []⟩ with
    | error e => simp [hf] at hrests
    | ok out =>
      have hlen : out.trail.length ≤ ([] : List TokenId).length + r.limit := by
        simpa [hf] using hrests
      rw [follow_of_rests r.limit hf hlen r.limit (Nat.le_refl _)] at h
      simp only [Except.map, Except.ok.injEq, Prod.mk.injEq] at h
      obtain ⟨-, rfl, -⟩ := h
      refine ⟨resolved, ?_⟩
      have hout : hasUnresolved out.value = false := resolved out.value rfl
      have hspelled := spelledOut_of_rests r.limit hf hlen hout (by
        by_cases hvalue : hasUnresolved value = false
        · exact Or.inl hvalue
        · exact Or.inr (by simpa using hvalue))
      rw [Document.spelledOut_text, hspelled]

include le in
theorem pass_of_rests (slots : List Slot) : ∀ {s : Store}, r.passRests scope s slots = true →
    (r.withLimit limit).pass scope s slots = r.pass scope s slots := by
  induction slots with
  | nil => exact fun _ => rfl
  | cons slot rest ih =>
    intro s h
    rw [passRests, Bool.and_eq_true] at h
    rw [pass, pass, visit_of_rests h.1 le]
    cases hvisit : r.visit scope s slot with
    | error e => rfl
    | ok out =>
      obtain ⟨s', slot', changed⟩ := out
      have hrest : r.passRests scope s' rest = true := by simpa [hvisit] using h.2
      simp only [ih hrest]

theorem settled_of_pass (slots : List Slot) :
    ∀ {s s' : Store} {slots' : List Slot} {changed : Bool}, r.passRests scope s slots = true →
      r.pass scope s slots = .ok (s', slots', changed) →
      (∀ slot ∈ slots', slot.value.Resolved) → ∀ slot ∈ slots', slot.value.Settled := by
  induction slots with
  | nil =>
    intro s s' slots' changed _ h
    simp only [pass, Except.ok.injEq, Prod.mk.injEq] at h
    simp [← h.2.1]
  | cons slot rest ih =>
    intro s s' slots' changed hrests h hresolved
    rw [passRests, Bool.and_eq_true] at hrests
    cases hvisit : r.visit scope s slot with
    | error e => simp [pass, hvisit] at h
    | ok out =>
      obtain ⟨s₁, slot₁, changed₁⟩ := out
      cases hpass : r.pass scope s₁ rest with
      | error e => simp [pass, hvisit, hpass] at h
      | ok out =>
        obtain ⟨s₂, rest₂, changed₂⟩ := out
        simp only [pass, hvisit, hpass, Except.ok.injEq, Prod.mk.injEq] at h
        obtain ⟨-, rfl, -⟩ := h
        obtain ⟨hslot, hrest⟩ := List.forall_mem_cons.mp hresolved
        refine List.forall_mem_cons.mpr ⟨settled_of_visit hrests.1 hvisit hslot, ?_⟩
        exact ih (by simpa [hvisit] using hrests.2) hpass hrest

/-- A pass over settled slots changes none of them. -/
theorem pass_settled (r : Resolver) (scope : Scope) (slots : List Slot) :
    ∀ s : Store, (∀ slot ∈ slots, slot.value.Settled) →
      ∃ s', r.pass scope s slots = .ok (s', slots, false) := by
  induction slots with
  | nil => exact fun s _ => ⟨s, rfl⟩
  | cons slot rest ih =>
    intro s h
    obtain ⟨hslot, hrest⟩ := List.forall_mem_cons.mp h
    obtain ⟨s₁, hvisit⟩ := visit_settled r scope s hslot
    obtain ⟨s₂, hpass⟩ := ih s₁ hrest
    exact ⟨s₂, by simp [pass, hvisit, hpass]⟩

theorem passes_settled (r : Resolver) (scope : Scope) (n : Nat) {p : Progress}
    (h : ∀ slot ∈ p.slots, slot.value.Settled) :
    ∃ s, r.passes scope n p = .ok ⟨s, p.slots, p.changing⟩ := by
  cases n with
  | zero => exact ⟨p.store, rfl⟩
  | succ n =>
    obtain ⟨s, hpass⟩ := pass_settled r scope p.slots p.store h
    exact ⟨s, by simp [passes, hpass]⟩

include le in
/-- Passes whose visits rest, and which leave everything resolved, come to the same slots when more
of them are allowed. -/
theorem passes_of_rests (n : Nat) : ∀ {p q : Progress}, r.passesRest scope (n + 1) p = true →
    r.passes scope (n + 1) p = .ok q → (∀ slot ∈ q.slots, slot.value.Resolved) →
    ∀ m, n < m → ∃ s, (r.withLimit limit).passes scope m p = .ok ⟨s, q.slots, q.changing⟩ := by
  induction n with
  | zero =>
    intro p q hrests h hresolved m hm
    obtain ⟨m, rfl⟩ : ∃ k, m = k + 1 := ⟨m - 1, by omega⟩
    rw [passesRest, Bool.and_eq_true] at hrests
    rw [passes, pass_of_rests le p.slots hrests.1]
    cases hpass : r.pass scope p.store p.slots with
    | error e => simp [passes, hpass] at h
    | ok out =>
      obtain ⟨s', slots', changed⟩ := out
      rw [passes, hpass] at h
      cases changed with
      | false =>
        cases h
        exact ⟨s', rfl⟩
      | true =>
        -- The limit ended the passes here; the others find settled slots.
        cases h
        have hsettled := settled_of_pass p.slots hrests.1 hpass hresolved
        exact passes_settled (r.withLimit limit) scope m hsettled
  | succ n ih =>
    intro p q hrests h hresolved m hm
    obtain ⟨m, rfl⟩ : ∃ k, m = k + 1 := ⟨m - 1, by omega⟩
    rw [passesRest, Bool.and_eq_true] at hrests
    rw [passes, pass_of_rests le p.slots hrests.1]
    cases hpass : r.pass scope p.store p.slots with
    | error e => simp [passes, hpass] at h
    | ok out =>
      obtain ⟨s', slots', changed⟩ := out
      rw [passes, hpass] at h
      cases changed with
      | false =>
        cases h
        exact ⟨s', rfl⟩
      | true =>
        have hlater : r.passesRest scope (n + 1) ⟨s', slots', p.changing + 1⟩ = true := by
          simpa [hpass] using hrests.2
        exact ih hlater h hresolved m (by omega)

end Passes

/-! ## Main statements -/

/-- **A greater limit changes nothing where visits rest.**  If a run succeeds and the limit cuts no
visit off, then it succeeds under any greater limit, with the same values and the same number of
changing passes. -/
theorem evaluate_raised (r : Resolver) (hlimit : 0 < r.limit) (s : Store) (scope : Scope)
    (entries : List Entry) {done : List Entry}
    (h : (r.evaluate s scope entries).outcome = .ok done) (rests : r.Rests s scope entries)
    {limit : Nat} (le : r.limit ≤ limit) :
    ((r.withLimit limit).evaluate s scope entries).outcome = .ok done ∧
      ((r.withLimit limit).evaluate s scope entries).changingPasses =
        (r.evaluate s scope entries).changingPasses := by
  obtain ⟨hout, hchanging⟩ := evaluate_outcome r s scope entries
  obtain ⟨hout', hchanging'⟩ := evaluate_outcome (r.withLimit limit) s scope entries
  rw [hout] at h
  obtain ⟨q, hq, hresolved, rfl, hcount⟩ := evaluateFrom_ok h
  obtain ⟨n, hn⟩ : ∃ n, r.limit = n + 1 := ⟨r.limit - 1, by omega⟩
  unfold Rests at rests
  rw [hn] at rests hq
  obtain ⟨s', hq'⟩ := passes_of_rests le n rests hq hresolved limit (by omega)
  rw [← enterAll_withLimit limit] at hq'
  rw [hout', hchanging', hchanging, hcount, evaluateFrom_of_passes hq' hresolved]
  exact ⟨rfl, rfl⟩

/-- Two entries, the first of which refers to the second. -/
def oneReference : List Entry :=
  [⟨[.key "b"], .text "$(x)", none⟩, ⟨[.key "x"], .text "m", none⟩]

/-- What they resolve to. -/
def oneReferenceDone : List Entry :=
  [⟨[.key "b"], .text "m", none⟩, ⟨[.key "x"], .text "m", none⟩]

/-- The limit ends the passes here, but cuts no visit off. -/
theorem one_reference_raised :
    ((⟨refusing, 1, "palette"⟩ : Resolver).evaluate {} .theme oneReference).outcome =
        .ok oneReferenceDone ∧
      (⟨refusing, 1, "palette"⟩ : Resolver).Rests {} .theme oneReference ∧
      (((⟨refusing, 1, "palette"⟩ : Resolver).withLimit 5).evaluate {} .theme
        oneReference).outcome = .ok oneReferenceDone := by
  have hdone : ((⟨refusing, 1, "palette"⟩ : Resolver).evaluate {} .theme oneReference).outcome =
      .ok oneReferenceDone := by with_unfolding_all rfl
  have hrests : (⟨refusing, 1, "palette"⟩ : Resolver).Rests {} .theme oneReference := by
    decide +kernel
  have hraised := evaluate_raised ⟨refusing, 1, "palette"⟩ (by decide) {} .theme oneReference hdone
    hrests (show 1 ≤ 5 by decide)
  exact ⟨hdone, hrests, hraised.1⟩

/-- Entries of which the first two take over calls from the others. -/
def sharedCalls : List Entry :=
  [⟨[.key "b"], .text "$(x) $(a) $(x) $(a)", none⟩,
    ⟨[.key "a"], .text "$(x) $(y) f() $(y)", none⟩,
    ⟨[.key "y"], .text "f() f() $(x)", none⟩, ⟨[.key "x"], .text "m", none⟩]

/-- **A greater limit can fail where a smaller one does not.**  With four steps a visit, `b` takes
`y` and `a` over a pass earlier than with three, with calls still in them, and four passes are not
enough to work these off one by one. -/
theorem raised_limit_fails :
    ¬ ∀ (r : Resolver) (s : Store) (scope : Scope) (entries done : List Entry) (limit : Nat),
      0 < r.limit → r.limit ≤ limit → (r.evaluate s scope entries).outcome = .ok done →
      ((r.withLimit limit).evaluate s scope entries).outcome = .ok done := by
  intro h
  have hthree : ((⟨answering, 3, "palette"⟩ : Resolver).evaluate {} .theme
      sharedCalls).outcome.toBool = true := by decide +kernel
  have hfour : (((⟨answering, 3, "palette"⟩ : Resolver).withLimit 4).evaluate {} .theme
      sharedCalls).outcome.toBool = false := by decide +kernel
  cases hout : ((⟨answering, 3, "palette"⟩ : Resolver).evaluate {} .theme sharedCalls).outcome with
  | error f =>
    rw [hout] at hthree
    cases hthree
  | ok done =>
    rw [h _ {} .theme sharedCalls done 4 (by decide) (by decide) hout] at hfour
    cases hfour

end Resolver

end Colourway
