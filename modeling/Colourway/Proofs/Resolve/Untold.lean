import Colourway.Proofs.Document.Untold
import Colourway.Proofs.Resolve.Run
import Colourway.Proofs.Token.Operations

/-!
# Values that cannot be told, in a run

A run stops at a reference to a value that cannot be told.  No step makes such a value and no visit
stores one, so it is the value of an entry that was given, or it was in the store before
(`evaluateFrom_untoldFrom`).  A run that stops leaves the keys of its entries in the store
(`mem_keys_evaluateFrom`).
-/

namespace Colourway

open Store

/-! ## What changes of a value -/

theorem Store.value_setValue (s : Store) (t u : TokenId) (value : Document) :
    ((s.setValue t value).token u).value = value ∨
      ((s.setValue t value).token u).value = (s.token u).value := by
  by_cases hu : u = t
  · subst hu
    by_cases hlt : u < s.tokens.size
    · rw [setValue, token_update_self hlt]
      exact .inl rfl
    · have hle : s.tokens.size ≤ u := Nat.not_lt.mp hlt
      rw [setValue, token_of_size_le (Nat.le_trans (Nat.le_of_eq (size_update s u _)) hle),
        token_of_size_le hle]
      exact .inr rfl
  · rw [setValue, token_update_of_ne hu]
    exact .inr rfl

theorem Store.value_setParent (s : Store) (t u : TokenId) (parent : Option Text) :
    ((s.setParent t parent).token u).value = (s.token u).value :=
  token_update_congr (fun x : Token => x.value) (f := fun x => { x with parent := parent })
    (fun _ => rfl) s t u

namespace Resolver

variable {r : Resolver} {scope : Scope} {base : Store} {entries : List Entry}

/-- Aliases are written out in texts, and a text can be told. -/
theorem spliced?_expand (r : Resolver) (d : Document) :
    (r.expand d).spliced? = none ↔ d.spliced? = none := by
  cases d with
  | scalar v => cases v <;> simp [expand, Document.text, Document.spliced?, Scalar.spliced?]
  | _ => rfl

/-- The values in a store that cannot be told are those of entries, or were in another store
before. -/
def UntoldFrom (base : Store) (entries : List Entry) (s : Store) : Prop :=
  ∀ t, (s.token t).value.spliced? = none →
    (∃ e ∈ entries, e.value.spliced? = none) ∨ (base.token t).value.spliced? = none

/-- A run makes no value that cannot be told. -/
theorem untoldFrom_kept : Kept r scope entries (UntoldFrom base entries) fun _ _ => True := by
  refine ⟨?_, ?_, ?_⟩
  · intro s e h he
    refine ⟨fun t ht => ?_, trivial, fun _ _ => trivial⟩
    rcases value_add s (r.entryDraft scope e) t with hvalue | hvalue
    · rw [hvalue] at ht
      exact .inl ⟨e, he, (spliced?_expand r e.value).mp ht⟩
    · rw [hvalue] at ht
      exact h t ht
  · intro s d key value h hstep
    obtain ⟨-, -, -, next, hnext⟩ := step_draft hstep
    refine ⟨fun t ht => ?_, fun _ _ => trivial⟩
    rw [value_setParent] at ht
    rcases value_add s d t with hvalue | hvalue
    · rw [hvalue, hnext] at ht
      cases ht
    · rw [hvalue] at ht
      exact h t ht
  · intro s u value steps h _
    refine ⟨fun t ht => ?_, fun _ _ => trivial⟩
    change ((s.setValue u (.text value)).token t).value.spliced? = none at ht
    rcases value_setValue s u t (.text value) with hvalue | hvalue
    · rw [hvalue] at ht
      cases ht
    · rw [hvalue] at ht
      exact h t ht

/-- A step that depends on an entry told its value. -/
theorem step_dependency {s : Store} {key value : Text} {d : Draft} {t : TokenId}
    (h : r.step s scope key value = .ok (some d)) (ht : d.dependency = some t) :
    ∃ path, s.findEntry? path scope.visible = some t ∧ (s.token t).value.spliced? ≠ none := by
  unfold step at h
  split at h
  · obtain ⟨x, -, rfl⟩ := Option.map_eq_some_iff.mp (Except.ok.inj h)
    cases ht
  · obtain ⟨ref, u, shown, -, hu, -, hshown, rfl⟩ := referenceStep_draft h
    obtain rfl : u = t := Option.some.inj ht
    exact ⟨ref.path, hu, by simp [hshown]⟩
  · obtain ⟨call, result, -, -, rfl⟩ := callStep_draft h
    cases ht
  · cases h

theorem evaluateFrom_untoldFrom (s : Store) :
    UntoldFrom s entries (r.evaluateFrom s scope entries).store :=
  (evaluateFrom_kept untoldFrom_kept fun _ ht => .inr ht).1

/-! ## Keys that stay -/

theorem find?_add_isSome {s : Store} (d : Draft) {key : Text} (h : (s.find? key).isSome) :
    ((s.add d).1.find? key).isSome := by
  rw [find?_add]
  split
  · rfl
  · exact h

/-- Nothing that a run does takes a key away. -/
theorem keys_kept (names : List Text) :
    Kept r scope entries (fun s => ∀ name ∈ names, (s.find? name).isSome) fun _ _ => True where
  entry h _ :=
    ⟨fun name hname => find?_add_isSome _ (h name hname), trivial, fun _ _ => trivial⟩
  step h _ := ⟨fun name hname => find?_add_isSome _ (h name hname), fun _ _ => trivial⟩
  finish _ _ h _ := ⟨h, fun _ _ => trivial⟩

theorem enterAll_isSome (given : List Entry) : ∀ (s : Store) {e : Entry}, e ∈ given →
    ((r.enterAll scope s given).1.find? e.flat).isSome := by
  induction given with
  | nil => exact fun _ _ he => absurd he List.not_mem_nil
  | cons first rest ih =>
    intro s e he
    rcases List.mem_cons.mp he with rfl | he
    · have hstart : ∀ name ∈ [e.flat], ((s.add (r.entryDraft scope e)).1.find? name).isSome := by
        intro name hname
        rw [List.mem_singleton.mp hname, find?_add]
        simp [entryDraft]
      have hkept : Kept r scope rest _ _ := keys_kept [e.flat]
      exact (enterAll_kept hkept rest hstart fun _ h => h).1 e.flat List.mem_cons_self
    · exact ih _ he

/-- A run that stops leaves its entries under their keys. -/
theorem mem_keys_evaluateFrom (s : Store) :
    ∀ e ∈ entries, ((r.evaluateFrom s scope entries).store.find? e.flat).isSome := by
  have hstart : ∀ name ∈ entries.map Entry.flat,
      ((r.enterAll scope s entries).1.find? name).isSome := by
    intro name hname
    obtain ⟨e, he, rfl⟩ := List.mem_map.mp hname
    exact enterAll_isSome entries s he
  have hkept : Kept r scope entries _ _ := keys_kept (entries.map Entry.flat)
  have hrun := passes_kept hkept r.limit
    (p := ⟨(r.enterAll scope s entries).1, (r.enterAll scope s entries).2, 0⟩) hstart
    fun _ _ => trivial
  suffices h : ∀ name ∈ entries.map Entry.flat,
      ((r.evaluateFrom s scope entries).store.find? name).isSome from
    fun e he => h e.flat (List.mem_map_of_mem he)
  unfold evaluateFrom
  revert hrun
  dsimp only
  cases r.passes scope r.limit
      ⟨(r.enterAll scope s entries).1, (r.enterAll scope s entries).2, 0⟩ with
  | error e => exact fun hrun => hrun.2
  | ok p =>
    intro hrun
    dsimp only
    split
    · exact hrun
    · exact hrun

end Resolver

end Colourway
