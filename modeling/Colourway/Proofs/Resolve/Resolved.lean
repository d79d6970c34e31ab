import Colourway.Proofs.Resolve.Atomic
import Colourway.Proofs.Syntax.Hex

/-!
# Resolving what is resolved

Entries that a scope resolved to hold no reference and no call.  Resolving them again, in an empty
store, can do one thing only: spell out the short hex literals that are left (`evaluate_again`).
There are none if the passes came to an end because a pass changed nothing.  If the limit cut them
off there may be, for the last step of the last pass can leave a short literal behind
(`cut_off_is_changed_again`).

The step lemma is `follow_resolved`; `visit_resolved`, `pass_resolved` and `passes_resolved` carry
it through a run.
-/

namespace Colourway

open Syntax

/-! ## Spelled out values -/

/-- The value with its hex literal spelled out, if it is a text. -/
def Document.spelledOut : Document → Document
  | .scalar (.text v) => .text (Syntax.spelledOut v)
  | d => d

/-- The entry with its value spelled out. -/
def Entry.spelledOut (e : Entry) : Entry := e.withValue e.value.spelledOut

/-- A value that is a hex literal of three or four digits. -/
def Document.IsShort (d : Document) : Prop := ∃ v, d = .text v ∧ isShortHex v = true

/-- The slot with its value spelled out. -/
def Slot.spelledOut (slot : Slot) : Slot := { slot with value := slot.value.spelledOut }

/-- A value that holds no reference and no call. -/
def Document.Resolved (d : Document) : Prop := ∀ v, d = .text v → hasUnresolved v = false

@[simp] theorem Document.spelledOut_text (v : Text) :
    (Document.text v).spelledOut = .text (Syntax.spelledOut v) := rfl

theorem Document.spelledOut_of_text?_none {d : Document} (h : d.text? = none) :
    d.spelledOut = d := by
  unfold text? at h
  split at h
  · cases h
  · next hno =>
    unfold spelledOut
    split
    · next v => exact absurd rfl (hno v)
    · rfl

theorem Document.eq_text_of_text? {d : Document} {v : Text} (h : d.text? = some v) :
    d = .text v := by
  unfold text? at h
  split at h
  · cases h
    rfl
  · cases h

@[simp] theorem Document.spelledOut_spelledOut (d : Document) :
    d.spelledOut.spelledOut = d.spelledOut := by
  cases h : d.text? with
  | none => simp only [spelledOut_of_text?_none h]
  | some v => simp [eq_text_of_text? h]

theorem Document.Resolved.spelledOut {d : Document} (h : d.Resolved) : d.spelledOut.Resolved := by
  cases hd : d.text? with
  | none => rwa [spelledOut_of_text?_none hd]
  | some v =>
    obtain rfl := eq_text_of_text? hd
    rintro w ⟨⟩
    exact hasUnresolved_spelledOut (h v rfl)

theorem Document.spelledOut_eq_self_iff {d : Document} : d.spelledOut = d ↔ ¬ d.IsShort := by
  cases hd : d.text? with
  | none =>
    simp only [spelledOut_of_text?_none hd, true_iff]
    rintro ⟨v, rfl, -⟩
    cases hd
  | some v =>
    obtain rfl := eq_text_of_text? hd
    simp [IsShort, Document.text, spelledOut, Syntax.spelledOut_eq_self_iff]

theorem Entry.spelledOut_eq_self_iff {e : Entry} : e.spelledOut = e ↔ ¬ e.value.IsShort := by
  rw [← Document.spelledOut_eq_self_iff]
  obtain ⟨path, value, place⟩ := e
  simp [Entry.spelledOut, Entry.withValue]

theorem Slot.spelledOut_eq_self_iff {slot : Slot} :
    slot.spelledOut = slot ↔ ¬ slot.value.IsShort := by
  rw [← Document.spelledOut_eq_self_iff]
  obtain ⟨entry, token, value⟩ := slot
  simp [Slot.spelledOut]

/-- A list is mapped to itself exactly if each of its items is. -/
theorem map_eq_self_iff {α : Type} {f : α → α} {l : List α} :
    l.map f = l ↔ ∀ x ∈ l, f x = x := by
  have h := List.map_inj_left (l := l) (f := f) (g := id)
  simpa using h

namespace Resolver

variable {r : Resolver} {scope : Scope}

/-! ## A run over resolved values -/

theorem expand_resolved (r : Resolver) {d : Document} (h : d.Resolved) : r.expand d = d := by
  cases hd : d.text? with
  | none =>
    unfold expand
    split
    · cases hd
    · rfl
  | some v =>
    obtain rfl := Document.eq_text_of_text? hd
    exact congrArg Document.text (expandAliases_of_resolved r.palette (h v rfl))

/-- The only step on a resolved value is the spelling out of a hex literal. -/
theorem step_resolved {s : Store} {key value : Text} (h : hasUnresolved value = false) :
    r.step s scope key value = .ok (hexStep scope value) := by
  rw [step, classify_of_resolved h]
  cases hhex : isHex value with
  | true => rfl
  | false => simp [hexStep, normalHex?_of_not_hex hhex]

/-- The step that spells a hex literal out. -/
theorem hexStep_cases (scope : Scope) (value : Text) :
    (hexStep scope value = none ∧ spelledOut value = value) ∨
    ∃ d, hexStep scope value = some d ∧ d.value.text? = some (spelledOut value) := by
  cases hn : normalHex? value with
  | none => exact Or.inl ⟨by simp [hexStep, hn], spelledOut_of_none hn⟩
  | some x =>
    right
    refine ⟨_, by rw [hexStep, hn, Option.map_some], ?_⟩
    rw [spelledOut_of_some hn]
    rfl

/-- Nothing is left to follow once a value is spelled out. -/
theorem follow_spelledOut (key : Text) (n : Nat) (seen : List Text) {here : Visited}
    (h : hasUnresolved here.value = false) (hout : spelledOut here.value = here.value) :
    r.follow scope key n seen here = .ok here := by
  cases n with
  | zero => rfl
  | succ n =>
    rw [follow_succ, step_resolved h]
    rcases hexStep_cases scope here.value with ⟨hnone, -⟩ | ⟨d, hd, hnext⟩
    · rw [hnone]
    · have hsame : d.value.text?.getD here.value = here.value := by simp [hnext, hout]
      rw [hd]
      exact if_pos hsame

/-- **One visit is enough to spell a resolved value out.** -/
theorem follow_resolved (r : Resolver) (scope : Scope) (key : Text) (n : Nat) (seen : List Text)
    {here : Visited} (h : hasUnresolved here.value = false) :
    ∃ v, r.follow scope key (n + 1) seen here = .ok v ∧ v.value = spelledOut here.value := by
  rw [follow_succ, step_resolved h]
  rcases hexStep_cases scope here.value with ⟨hnone, hself⟩ | ⟨d, hd, hnext⟩
  · rw [hnone]
    exact ⟨here, rfl, hself.symm⟩
  · simp only [hd, hnext, Option.getD_some]
    by_cases hsame : spelledOut here.value = here.value
    · exact ⟨here, by rw [if_pos hsame], hsame.symm⟩
    · rw [if_neg hsame]
      by_cases hseen : spelledOut here.value ∈ seen
      · exact ⟨_, by rw [if_pos hseen], rfl⟩
      · rw [if_neg hseen, follow_spelledOut]
        · exact ⟨_, rfl, rfl⟩
        · exact hasUnresolved_spelledOut h
        · exact spelledOut_spelledOut here.value

/-- A visit to a resolved slot spells it out, and says so. -/
theorem visit_resolved (hlimit : 0 < r.limit) (scope : Scope) (s : Store) {slot : Slot}
    (h : slot.value.Resolved) :
    ∃ s' changed, r.visit scope s slot = .ok (s', slot.spelledOut, changed) ∧
      (changed = false ↔ slot.spelledOut = slot) := by
  obtain ⟨n, hn⟩ : ∃ n, r.limit = n + 1 := ⟨r.limit - 1, by omega⟩
  obtain ⟨entry, token, value⟩ := slot
  unfold visit
  cases hv : value.text? with
  | none =>
    have hself : Slot.spelledOut ⟨entry, token, value⟩ = ⟨entry, token, value⟩ := by
      simp [Slot.spelledOut, Document.spelledOut_of_text?_none hv]
    exact ⟨s, false, by rw [hself], by simp [hself]⟩
  | some v =>
    obtain rfl := Document.eq_text_of_text? hv
    obtain ⟨out, hout, hvalue⟩ : ∃ out, r.follow scope entry.flat (n + 1) [v] ⟨s, v, []⟩ = .ok out ∧
        out.value = spelledOut v := follow_resolved r scope entry.flat n [v] (h v rfl)
    refine ⟨(out.store.setValue token (.text out.value)).addTrail token out.trail,
      out.value != v, ?_, ?_⟩
    · simp [hn, hout, Except.map, Slot.spelledOut, hvalue]
    · simp [Slot.spelledOut, Document.text, Document.spelledOut, hvalue]

/-- So does a pass over resolved slots. -/
theorem pass_resolved (hlimit : 0 < r.limit) (scope : Scope) (slots : List Slot) :
    ∀ s : Store, (∀ slot ∈ slots, slot.value.Resolved) →
      ∃ s' changed, r.pass scope s slots = .ok (s', slots.map Slot.spelledOut, changed) ∧
        (changed = false ↔ slots.map Slot.spelledOut = slots) := by
  induction slots with
  | nil => exact fun s _ => ⟨s, false, rfl, by simp⟩
  | cons slot rest ih =>
    intro s h
    obtain ⟨s₁, changed, hvisit, hchanged⟩ :=
      visit_resolved hlimit scope s (h slot List.mem_cons_self)
    obtain ⟨s₂, changed', hpass, hchanged'⟩ :=
      ih s₁ fun x hx => h x (List.mem_cons_of_mem _ hx)
    refine ⟨s₂, changed || changed', ?_, ?_⟩
    · simp [pass, hvisit, hpass]
    · simp [hchanged, hchanged']

/-- Passes over resolved slots spell them out in the first pass, and no other pass changes
anything. -/
theorem passes_resolved (hlimit : 0 < r.limit) (scope : Scope) {p : Progress}
    (h : ∀ slot ∈ p.slots, slot.value.Resolved) :
    ∃ q, r.passes scope r.limit p = .ok q ∧ q.slots = p.slots.map Slot.spelledOut ∧
      (q.changing = p.changing ↔ p.slots.map Slot.spelledOut = p.slots) := by
  obtain ⟨n, hn⟩ : ∃ n, r.limit = n + 1 := ⟨r.limit - 1, by omega⟩
  obtain ⟨s₁, changed, hpass, hchanged⟩ := pass_resolved hlimit scope p.slots p.store h
  have htwice : (p.slots.map Slot.spelledOut).map Slot.spelledOut =
      p.slots.map Slot.spelledOut := by
    simp [Slot.spelledOut, Function.comp_def]
  rw [hn, passes, hpass]
  cases changed with
  | false => exact ⟨⟨s₁, _, p.changing⟩, rfl, rfl, by simpa using hchanged⟩
  | true =>
    have hdiffers : p.slots.map Slot.spelledOut ≠ p.slots := by simpa using hchanged
    cases n with
    | zero => exact ⟨⟨s₁, _, p.changing + 1⟩, rfl, rfl, by simp [hdiffers]⟩
    | succ n =>
      have hrest : ∀ slot ∈ p.slots.map Slot.spelledOut, slot.value.Resolved := by
        intro slot hslot
        obtain ⟨old, hold, rfl⟩ := List.mem_map.1 hslot
        exact (h old hold).spelledOut
      obtain ⟨s₂, again, hpass₂, hagain⟩ :=
        pass_resolved hlimit scope (p.slots.map Slot.spelledOut) s₁ hrest
      have hstill : again = false := hagain.2 htwice
      refine ⟨⟨s₂, p.slots.map Slot.spelledOut, p.changing + 1⟩, ?_, rfl, by simp [hdiffers]⟩
      simp [passes, hpass₂, hstill, htwice]

/-- The slots of entries that are put into a store. -/
theorem enterAll_slots (r : Resolver) (scope : Scope) (entries : List Entry) :
    ∀ s : Store, (r.enterAll scope s entries).2.map (fun slot => (slot.entry, slot.value)) =
      entries.map fun e => (e, r.expand e.value) := by
  induction entries with
  | nil => exact fun s => rfl
  | cons e rest ih => exact fun s => congrArg ((e, r.expand e.value) :: ·) (ih _)

/-! ## Passes that change nothing -/

/-- What a visit leaves as it is, and what is resolved then, is spelled out. -/
theorem visit_unchanged (hlimit : 0 < r.limit) {s s' : Store} {slot slot' : Slot}
    (h : r.visit scope s slot = .ok (s', slot', false)) (hresolved : slot'.value.Resolved) :
    slot'.spelledOut = slot' := by
  have hsame : slot' = slot := by
    unfold visit at h
    cases hv : slot.value.text? with
    | none =>
      simp only [hv, Except.ok.injEq, Prod.mk.injEq] at h
      exact h.2.1.symm
    | some v =>
      simp only [hv] at h
      cases hf : r.follow scope slot.entry.flat r.limit [v] ⟨s, v, []⟩ with
      | error e => simp [hf, Except.map] at h
      | ok out =>
        simp only [hf, Except.map, Except.ok.injEq, Prod.mk.injEq, bne_eq_false_iff_eq] at h
        obtain ⟨-, hslot, hvalue⟩ := h
        rw [← hslot, hvalue, ← Document.eq_text_of_text? hv]
  subst hsame
  obtain ⟨s₁, changed, hvisit, -⟩ := visit_resolved hlimit scope s hresolved
  rw [hvisit] at h
  simpa using congrArg (fun out => out.2.1) (Except.ok.inj h)

theorem pass_unchanged (hlimit : 0 < r.limit) (slots : List Slot) :
    ∀ {s s' : Store} {slots' : List Slot}, r.pass scope s slots = .ok (s', slots', false) →
      (∀ slot ∈ slots', slot.value.Resolved) → slots'.map Slot.spelledOut = slots' := by
  induction slots with
  | nil =>
    intro s s' slots' h _
    simp only [pass, Except.ok.injEq, Prod.mk.injEq] at h
    simp [← h.2.1]
  | cons slot rest ih =>
    intro s s' slots' h hresolved
    cases hvisit : r.visit scope s slot with
    | error e => simp [pass, hvisit] at h
    | ok out =>
      obtain ⟨s₁, slot₁, changed⟩ := out
      cases hpass : r.pass scope s₁ rest with
      | error e => simp [pass, hvisit, hpass] at h
      | ok out =>
        obtain ⟨s₂, rest₂, changed'⟩ := out
        simp only [pass, hvisit, hpass, Except.ok.injEq, Prod.mk.injEq, Bool.or_eq_false_iff] at h
        obtain ⟨-, rfl, rfl, rfl⟩ := h
        have hslot := visit_unchanged hlimit hvisit (hresolved slot₁ List.mem_cons_self)
        have hrest := ih hpass fun x hx => hresolved x (List.mem_cons_of_mem _ hx)
        simp [hslot, hrest]

/-- Unless the limit cuts them off, passes end with one that changes nothing. -/
theorem passes_end (n : Nat) : ∀ {p q : Progress}, r.passes scope n p = .ok q →
    q.changing < p.changing + n →
    ∃ s s' slots, r.pass scope s slots = .ok (s', q.slots, false) := by
  induction n with
  | zero =>
    intro p q h hlt
    cases h
    omega
  | succ n ih =>
    intro p q h hlt
    cases hpass : r.pass scope p.store p.slots with
    | error e => simp [passes, hpass] at h
    | ok out =>
      obtain ⟨s', slots', changed⟩ := out
      rw [passes, hpass] at h
      cases changed with
      | false =>
        cases h
        exact ⟨_, _, _, hpass⟩
      | true => exact ih h (by simp only; omega)

/-! ## Runs that succeed -/

theorem resolved_iff {slot : Slot} : slot.value.Resolved ↔ unfinished slot = false := by
  rw [unfinished]
  cases hv : slot.value.text? with
  | none =>
    simp only [Option.any_none, iff_true]
    intro v hslot
    rw [hslot] at hv
    cases hv
  | some v =>
    rw [Document.eq_text_of_text? hv]
    refine ⟨fun h => h v rfl, ?_⟩
    rintro h w ⟨⟩
    exact h

theorem evaluateFrom_of_passes {s : Store} {entries : List Entry} {q : Progress}
    (h : r.passes scope r.limit
      ⟨(r.enterAll scope s entries).1, (r.enterAll scope s entries).2, 0⟩ = .ok q)
    (hresolved : ∀ slot ∈ q.slots, slot.value.Resolved) :
    r.evaluateFrom s scope entries =
      ⟨.ok (q.slots.map fun slot => slot.entry.withValue slot.value), q.changing, q.store⟩ := by
  have hnone : q.slots.filter unfinished = [] := by
    rw [List.filter_eq_nil_iff]
    intro slot hslot
    simpa using resolved_iff.1 (hresolved slot hslot)
  simp [evaluateFrom, h, hnone]

/-- A run that succeeds has made its passes, and left nothing unresolved. -/
theorem evaluateFrom_ok {s : Store} {entries done : List Entry}
    (h : (r.evaluateFrom s scope entries).outcome = .ok done) :
    ∃ q, r.passes scope r.limit
        ⟨(r.enterAll scope s entries).1, (r.enterAll scope s entries).2, 0⟩ = .ok q ∧
      (∀ slot ∈ q.slots, slot.value.Resolved) ∧
      done = q.slots.map (fun slot => slot.entry.withValue slot.value) ∧
      (r.evaluateFrom s scope entries).changingPasses = q.changing := by
  cases hp : r.passes scope r.limit
      ⟨(r.enterAll scope s entries).1, (r.enterAll scope s entries).2, 0⟩ with
  | error e => simp [evaluateFrom, hp] at h
  | ok q =>
    have hresolved : ∀ slot ∈ q.slots, slot.value.Resolved := by
      intro slot hslot
      by_contra hleft
      have hmem : slot ∈ q.slots.filter unfinished := by
        rw [List.mem_filter]
        exact ⟨hslot, by simpa [resolved_iff] using hleft⟩
      cases hf : (q.slots.filter unfinished).map (·.entry.flat) with
      | nil =>
        rw [List.map_eq_nil_iff] at hf
        simp [hf] at hmem
      | cons path paths => simp [evaluateFrom, hp, hf] at h
    rw [evaluateFrom_of_passes hp hresolved] at h ⊢
    exact ⟨q, rfl, hresolved, (Except.ok.inj h).symm, rfl⟩

/-- A run over resolved entries succeeds, in any store, and spells them out. -/
theorem evaluateFrom_resolved (hlimit : 0 < r.limit) (scope : Scope) (s : Store)
    {entries : List Entry} (h : ∀ e ∈ entries, e.value.Resolved) :
    (r.evaluateFrom s scope entries).outcome = .ok (entries.map Entry.spelledOut) ∧
    ((r.evaluateFrom s scope entries).changingPasses = 0 ↔ ∀ e ∈ entries, ¬ e.value.IsShort) := by
  set slots := (r.enterAll scope s entries).2 with hdef
  have hslots : slots.map (fun slot => (slot.entry, slot.value)) =
      entries.map fun e => (e, e.value) := by
    rw [hdef, enterAll_slots]
    exact List.map_congr_left fun e he => by rw [expand_resolved r (h e he)]
  have hforall : ∀ P : Document → Prop,
      (∀ slot ∈ slots, P slot.value) ↔ ∀ e ∈ entries, P e.value := by
    intro P
    have hpairs : (∀ p ∈ slots.map fun slot => (slot.entry, slot.value), P p.2) ↔
        ∀ p ∈ entries.map fun e => (e, e.value), P p.2 := by rw [hslots]
    simpa using hpairs
  obtain ⟨q, hq, hqslots, hqchanging⟩ := passes_resolved hlimit scope
    (p := ⟨(r.enterAll scope s entries).1, slots, 0⟩) ((hforall Document.Resolved).2 h)
  have hresolved : ∀ slot ∈ q.slots, slot.value.Resolved := by
    intro slot hmem
    rw [hqslots] at hmem
    obtain ⟨old, hold, rfl⟩ := List.mem_map.1 hmem
    exact ((hforall Document.Resolved).2 h old hold).spelledOut
  rw [evaluateFrom_of_passes hq hresolved]
  refine ⟨?_, ?_⟩
  · have hvalues := congrArg
      (List.map fun p : Entry × Document => p.1.withValue p.2.spelledOut) hslots
    simp only [List.map_map] at hvalues
    rw [hqslots, List.map_map]
    exact congrArg Except.ok hvalues
  · rw [← hforall fun d => ¬ d.IsShort]
    simp only [hqchanging, map_eq_self_iff, Slot.spelledOut_eq_self_iff]

/-! ## Main statements -/

/-- **Resolving again only spells out.**  Entries that a scope resolved to can be resolved again in
any store.  That spells out their short hex literals and changes nothing else, with a changing pass
only if there are any.  There are none if the first run made fewer changing passes than the limit
allows: then resolving is idempotent. -/
theorem evaluate_again (r : Resolver) (hlimit : 0 < r.limit) (s fresh : Store) (scope : Scope)
    (entries : List Entry) {done : List Entry}
    (first : (r.evaluate s scope entries).outcome = .ok done) :
    (r.evaluate fresh scope done).outcome = .ok (done.map Entry.spelledOut) ∧
    ((r.evaluate fresh scope done).changingPasses = 0 ↔ ∀ e ∈ done, ¬ e.value.IsShort) ∧
    ((∀ e ∈ done, ¬ e.value.IsShort) → (r.evaluate fresh scope done).outcome = .ok done) ∧
    ((r.evaluate s scope entries).changingPasses < r.limit →
      ∀ e ∈ done, ¬ e.value.IsShort) := by
  obtain ⟨hout, hchanging⟩ := evaluate_outcome r s scope entries
  rw [hout] at first
  obtain ⟨q, hq, hresolved, rfl, hqchanging⟩ := evaluateFrom_ok first
  obtain ⟨hout', hchanging'⟩ := evaluate_outcome r fresh scope
    (q.slots.map fun slot => slot.entry.withValue slot.value)
  have hdone : ∀ e ∈ q.slots.map fun slot => slot.entry.withValue slot.value,
      e.value.Resolved := by
    intro e he
    obtain ⟨slot, hslot, rfl⟩ := List.mem_map.1 he
    exact hresolved slot hslot
  obtain ⟨hagain, hpasses⟩ := evaluateFrom_resolved hlimit scope fresh.checkpoint.1 hdone
  rw [hout', hchanging', hagain]
  refine ⟨rfl, hpasses, ?_, ?_⟩
  · intro hlong
    refine congrArg Except.ok (map_eq_self_iff.2 ?_)
    exact fun e he => Entry.spelledOut_eq_self_iff.2 (hlong e he)
  · intro hlt e he
    obtain ⟨slot, hslot, rfl⟩ := List.mem_map.1 he
    rw [hchanging, hqchanging] at hlt
    obtain ⟨s₁, s₂, slots, hpass⟩ := passes_end r.limit hq (by simpa using hlt)
    have hself := map_eq_self_iff.1 (pass_unchanged hlimit slots hpass hresolved)
    exact Slot.spelledOut_eq_self_iff.1 (hself slot hslot)

/-- Entries whose first refers to the second, a short literal. -/
def shortBehind : List Entry :=
  [⟨[.key "b"], .text "$(a)", none⟩, ⟨[.key "a"], .text "#abc", none⟩]

/-- What they resolve to in one pass of one step. -/
def shortLeft : List Entry :=
  [⟨[.key "b"], .text "#abc", none⟩, ⟨[.key "a"], .text "#aabbcc", none⟩]

set_option maxRecDepth 10000 in
theorem evaluate_shortBehind :
    ((⟨refusing, 1, "palette"⟩ : Resolver).evaluate {} .theme shortBehind).outcome =
      .ok shortLeft := by
  with_unfolding_all rfl

/-- With one pass of one step, a short literal is left and spelled out by the next run. -/
theorem short_spelled_out_again :
    ((⟨refusing, 1, "palette"⟩ : Resolver).evaluate {} .theme shortBehind).outcome =
      .ok shortLeft ∧
    ((⟨refusing, 1, "palette"⟩ : Resolver).evaluate {} .theme shortLeft).outcome =
      .ok (shortLeft.map Entry.spelledOut) :=
  ⟨evaluate_shortBehind,
    (evaluate_again _ (by decide) {} {} .theme shortBehind evaluate_shortBehind).1⟩

/-- So resolving is not idempotent where the limit cuts it off. -/
theorem cut_off_is_changed_again :
    ¬ ∀ (r : Resolver) (s : Store) (scope : Scope) (entries done : List Entry), 0 < r.limit →
      (r.evaluate s scope entries).outcome = .ok done →
      (r.evaluate {} scope done).outcome = .ok done ∧
        (r.evaluate {} scope done).changingPasses = 0 := by
  intro h
  have again : ((⟨refusing, 1, "palette"⟩ : Resolver).evaluate {} .theme shortLeft).changingPasses =
      1 := by decide +kernel
  have hzero := (h _ {} .theme shortBehind shortLeft (by decide) evaluate_shortBehind).2
  rw [again] at hzero
  exact absurd hzero (by decide)

end Resolver

end Colourway
