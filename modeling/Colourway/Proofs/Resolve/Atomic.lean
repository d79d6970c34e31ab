import Colourway.Proofs.Resolve.Untold
import Colourway.Proofs.Token.Rollback
import Mathlib.Data.List.Permutation

/-!
# A scope resolves completely or not at all

Resolving a scope changes new tokens, the tokens of its own entries and the tokens of the scope's
steps, and of these only such as stand under a key (`evaluateFrom_running`).  A checkpoint
covers all of them, so a failure that is reported leaves the store as it was, tokens without a key
included.  Besides these there is one failure that is not reported: a reference to a value that
cannot be told, which leaves the store as it stands (`evaluate_error_restores`).  A sound store
stays sound, and its keys stay names, through any evaluation (`evaluate_sound`, `evaluate_named`),
and so every store that comes about is sound (`Reached.sound_named`).
-/

namespace Colourway

open Store

namespace Resolver

variable {r : Resolver} {scope : Scope} {paths : List Text} {base : Store}

/-! ## What resolving a scope may change -/

/-- The tokens that the entries at some paths may get: new ones, and the entries of the scope that
stand under these paths already. -/
def OwnEntry (base : Store) (scope : Scope) (paths : List Text) (t : TokenId) : Prop :=
  base.tokens.size ≤ t ∨ ∃ path ∈ paths, base.find? path = some t ∧
    (base.token t).kind = .input ∧ (base.token t).scope = some scope

/-- The tokens that resolving a scope may change: those that its entries may get, and the tokens
under a key that stand for a step of the scope. -/
def MayChange (base : Store) (scope : Scope) (paths : List Text) (t : TokenId) : Prop :=
  OwnEntry base scope paths t ∨ ∃ key, base.find? key = some t ∧
    (base.token t).kind ≠ .input ∧ (base.token t).scope = some scope

theorem MayChange.undoable {t : TokenId} (h : MayChange base scope paths t) : base.Undoable t := by
  have hid : ∀ {key}, base.find? key = some t → t ∈ base.ids := by
    intro key hkey
    exact Assoc.mem_of_get? hkey
  rcases h with (hnew | ⟨_, _, hkey, _⟩) | ⟨_, hkey, _⟩
  · exact Or.inr hnew
  · exact Or.inl (hid hkey)
  · exact Or.inl (hid hkey)

/-- The state of the store in the middle of a run that began with `base`. -/
structure Running (base : Store) (scope : Scope) (paths : List Text) (s : Store) : Prop where
  /-- The store is sound. -/
  sound : s.Sound
  /-- Keys that were names are names. -/
  named : base.Named → s.Named
  /-- Only what may change has changed. -/
  changes : ChangesOnly (MayChange base scope paths) base s

/-- The token that a draft of the scope may be written into is one that stood under the draft's key
from the start, with its kind and scope, or a new one. -/
theorem Running.found_of_merge {s : Store} (h : Running base scope paths s) (hb : base.Sound)
    {d : Draft} {old : TokenId} (hf : s.find? d.name = some old)
    (hkind : ((s.create d).1.token old).kind = d.kind)
    (hscope : ((s.create d).1.token old).scope = d.scope) :
    base.tokens.size ≤ old ∨ (base.find? d.name = some old ∧
      (base.token old).kind = d.kind ∧ (base.token old).scope = d.scope) := by
  rw [h.sound.token_create hf] at hkind hscope
  rcases h.changes.found hf with hbase | hnew
  · have hid := h.changes.identity (hb.key_inside hbase)
    simp only [Token.identity, Prod.mk.injEq] at hid
    obtain ⟨-, hk, -, hs, -⟩ := hid
    exact Or.inr ⟨hbase, hk ▸ hkind, hs ▸ hscope⟩
  · exact Or.inl hnew

/-- The token that an entry gets is one that it may get. -/
theorem Running.ownEntry_add {s : Store} (h : Running base scope paths s) (hb : base.Sound)
    {d : Draft} (hkind : d.kind = .input) (hscope : d.scope = some scope) (hname : d.name ∈ paths) :
    OwnEntry base scope paths (s.add d).2 := by
  rcases add_cases s d with ⟨old, hf, hk, hs, hadd⟩ | ⟨-, hadd⟩
  · rw [hadd]
    rcases h.found_of_merge hb hf hk hs with hnew | ⟨hbase, hk', hs'⟩
    · exact Or.inl hnew
    · exact Or.inr ⟨d.name, hname, hbase, hk'.trans hkind, hs'.trans hscope⟩
  · rw [hadd]
    exact Or.inl h.changes.tokens_le

/-- Adding a draft of the scope, one of an entry only under a path of the entries. -/
theorem Running.add {s : Store} (h : Running base scope paths s) (hb : base.Sound)
    {d : Draft} (hscope : d.scope = some scope) (hname : d.kind = .input → d.name ∈ paths) :
    Running base scope paths (s.add d).1 ∧ MayChange base scope paths (s.add d).2 := by
  have hmerge : ∀ old, s.find? d.name = some old → ((s.create d).1.token old).kind = d.kind →
      ((s.create d).1.token old).scope = d.scope → MayChange base scope paths old := by
    intro old hf hk hs
    rcases h.found_of_merge hb hf hk hs with hnew | ⟨hbase, hk', hs'⟩
    · exact Or.inl (Or.inl hnew)
    · by_cases hin : d.kind = .input
      · exact Or.inl (Or.inr ⟨d.name, hname hin, hbase, hk'.trans hin, hs'.trans hscope⟩)
      · exact Or.inr ⟨d.name, hbase, by rw [hk']; exact hin, hs'.trans hscope⟩
  refine ⟨⟨h.sound.add d, fun hn => (h.named hn).add h.sound d,
    h.changes.trans (ChangesOnly.add s d hmerge)⟩, ?_⟩
  rcases add_cases s d with ⟨old, hf, hk, hs, hadd⟩ | ⟨-, hadd⟩
  · rw [hadd]
    exact hmerge old hf hk hs
  · rw [hadd]
    exact Or.inl (Or.inl h.changes.tokens_le)

/-- Changing a token that may change, in what tokens may change. -/
theorem Running.update {s : Store} (h : Running base scope paths s) {t : TokenId}
    (ht : MayChange base scope paths t) {f : Token → Token}
    (keeps : ∀ x : Token, (f x).identity = x.identity) :
    Running base scope paths (s.update t f) where
  sound := h.sound.update t fun x => Token.trail_of_identity (keeps x)
  named hn := (h.named hn).update t fun x => Token.name_of_identity (keeps x)
  changes := h.changes.trans (ChangesOnly.update s ht keeps)

/-- What a run does to the store keeps it in the state of `Running`. -/
theorem running_kept (hb : base.Sound) (entries : List Entry) :
    Kept r scope entries (Running base scope (entries.map Entry.flat))
      fun s t => OwnEntry base scope (entries.map Entry.flat) t ∧ t < s.tokens.size := by
  refine ⟨?_, ?_, ?_⟩
  · intro s e h he
    have hname : e.flat ∈ entries.map Entry.flat := List.mem_map_of_mem he
    refine ⟨(h.add hb rfl fun _ => hname).1,
      ⟨h.ownEntry_add hb rfl rfl hname, h.sound.add_inside _⟩, ?_⟩
    exact fun u hu => ⟨hu.1, Nat.lt_of_lt_of_le hu.2 (size_le_add s _)⟩
  · intro s d key value h hstep
    obtain ⟨-, hkind, hscope, -⟩ := step_draft hstep
    obtain ⟨hadd, hmay⟩ := h.add hb hscope fun hin => absurd hin hkind
    refine ⟨hadd.update hmay fun _ => rfl, ?_⟩
    intro u hu
    refine ⟨hu.1, Nat.lt_of_lt_of_le hu.2 ?_⟩
    exact Nat.le_trans (size_le_add s d) (Nat.le_of_eq (size_update _ _ _).symm)
  · intro s t value steps h ht
    have hset := h.update (Or.inl ht.1) (f := fun x => { x with value := .text value })
      fun _ => rfl
    have hsize : t < (s.setValue t (.text value)).tokens.size := by
      rw [setValue, size_update]
      exact ht.2
    refine ⟨⟨hset.sound.addTrail t steps, hset.named,
      hset.changes.trans (ChangesOnly.addTrail _ (Or.inl ht.1) hsize steps)⟩, ?_⟩
    intro u hu
    refine ⟨hu.1, Nat.lt_of_lt_of_le hu.2 ?_⟩
    exact Nat.le_of_eq (size_update s t _).symm

/-- Resolving a scope keeps the store sound and changes only what it may change, whether it
succeeds or fails. -/
theorem evaluateFrom_running (r : Resolver) {s : Store} (hs : s.Sound) (scope : Scope)
    (entries : List Entry) :
    Running s scope (entries.map Entry.flat) (r.evaluateFrom s scope entries).store :=
  (evaluateFrom_kept (running_kept hs entries) ⟨hs, id, ChangesOnly.refl s⟩).1

/-! ## Failures undo everything -/

/-- What resolving a scope from a checkpoint changes, a rollback can undo. -/
theorem evaluateFrom_undoable (r : Resolver) {s : Store} (hs : s.Sound) (scope : Scope)
    (entries : List Entry) :
    ChangesOnly s.Undoable s.checkpoint.1 (r.evaluateFrom s.checkpoint.1 scope entries).store := by
  refine (evaluateFrom_running r hs.checkpoint scope entries).changes.mono ?_
  intro t ht
  exact (undoable_checkpoint s t).1 ht.undoable

/-- The two endings of an evaluation: a reported error rolls the store back, anything else leaves
it as the run does. -/
theorem evaluate_cases (r : Resolver) (s : Store) (scope : Scope) (entries : List Entry) :
    (∃ cause, (r.evaluateFrom s.checkpoint.1 scope entries).outcome = .error (.error cause) ∧
      (r.evaluate s scope entries).store =
        (r.evaluateFrom s.checkpoint.1 scope entries).store.rollback s.checkpoint.2) ∨
    ((∀ cause, (r.evaluateFrom s.checkpoint.1 scope entries).outcome ≠ .error (.error cause)) ∧
      (r.evaluate s scope entries).store =
        (r.evaluateFrom s.checkpoint.1 scope entries).store) := by
  unfold evaluate
  dsimp only
  cases h : (r.evaluateFrom s.checkpoint.1 scope entries).outcome with
  | ok _ => exact Or.inr ⟨fun _ hc => (by cases hc), rfl⟩
  | error f =>
    cases f with
    | error cause => exact Or.inl ⟨cause, rfl, rfl⟩
    | fault _ => exact Or.inr ⟨fun _ hc => (by cases hc), rfl⟩

/-- Rolling back does not touch the outcome, nor the count of passes. -/
theorem evaluate_outcome (r : Resolver) (s : Store) (scope : Scope) (entries : List Entry) :
    (r.evaluate s scope entries).outcome =
      (r.evaluateFrom s.checkpoint.1 scope entries).outcome ∧
    (r.evaluate s scope entries).changingPasses =
      (r.evaluateFrom s.checkpoint.1 scope entries).changingPasses := by
  unfold evaluate
  dsimp only
  split <;> exact ⟨rfl, rfl⟩

/-- An evaluation keeps the store sound, whatever it comes to. -/
theorem evaluate_sound (r : Resolver) {s : Store} (hs : s.Sound) (scope : Scope)
    (entries : List Entry) : (r.evaluate s scope entries).store.Sound := by
  have hrun := (evaluateFrom_running r hs.checkpoint scope entries).sound
  rcases evaluate_cases r s scope entries with ⟨cause, -, hstore⟩ | ⟨-, hstore⟩
  · rw [hstore]
    exact Sound.rollback hs (evaluateFrom_undoable r hs scope entries) hrun
  · rw [hstore]
    exact hrun

/-- The keys of a store stay the names of their tokens. -/
theorem evaluate_named (r : Resolver) {s : Store} (hs : s.Sound) (hn : s.Named) (scope : Scope)
    (entries : List Entry) : (r.evaluate s scope entries).store.Named := by
  rcases evaluate_cases r s scope entries with ⟨cause, -, hstore⟩ | ⟨-, hstore⟩
  · rw [hstore]
    exact Named.rollback hs (evaluateFrom_undoable r hs scope entries) hn
  · rw [hstore]
    exact (evaluateFrom_running r hs.checkpoint scope entries).named hn.checkpoint

/-- The stores that come about: tokens are made, put under their names and written into, trails
grow, and scopes are resolved or fail. -/
inductive Reached : Store → Prop
  | empty : Reached {}
  | create {s : Store} (d : Draft) : Reached s → Reached (s.create d).1
  | register {s : Store} {t : TokenId} (dependency : Option TokenId) : Reached s →
      t < s.tokens.size → Reached (s.register t dependency).1
  | update {s : Store} (t : TokenId) {f : Token → Token} : Reached s →
      (∀ x, (f x).identity = x.identity) → Reached (s.update t f)
  | addTrail {s : Store} (t : TokenId) (steps : List TokenId) : Reached s →
      Reached (s.addTrail t steps)
  | evaluate {s : Store} (r : Resolver) (scope : Scope) (entries : List Entry) : Reached s →
      Reached (r.evaluate s scope entries).store

/-- Every store that comes about is sound, and its keys are the names of their tokens. -/
theorem Reached.sound_named {s : Store} (h : Reached s) : s.Sound ∧ s.Named := by
  induction h with
  | empty => exact ⟨sound_empty, named_empty⟩
  | create d _ ih => exact ⟨ih.1.create d, ih.2.create ih.1 d⟩
  | register dependency _ ht ih => exact ⟨ih.1.register ht dependency, ih.2.register _ dependency⟩
  | update t _ keeps ih =>
    exact ⟨ih.1.update t fun x => Token.trail_of_identity (keeps x),
      ih.2.update t fun x => Token.name_of_identity (keeps x)⟩
  | addTrail t steps _ ih => exact ⟨ih.1.addTrail t steps, ih.2⟩
  | evaluate r scope entries _ ih =>
    exact ⟨evaluate_sound r ih.1 scope entries, evaluate_named r ih.1 ih.2 scope entries⟩

/-- A run over a sound store that refers to a value that cannot be told has it from one of its
entries, or from an entry of the store that can be seen. -/
theorem untold_source {s : Store} (hs : s.Sound) {entries : List Entry} {value : Text}
    (refers : RefersUntold (r.evaluateFrom s scope entries).store scope value) :
    (∃ e ∈ entries, e.value.spliced? = none) ∨
      ∃ path t, s.findEntry? path scope.visible = some t ∧ (s.token t).value.spliced? = none := by
  obtain ⟨ref, t, -, hfound, huntold⟩ := refers
  have hrun := (evaluateFrom_running r hs scope entries).changes
  rcases evaluateFrom_untoldFrom s t huntold with hentry | hbefore
  · exact .inl hentry
  · have hlt : t < s.tokens.size := by
      by_contra hout
      rw [token_of_size_le (Nat.not_lt.mp hout)] at hbefore
      cases hbefore
    obtain ⟨hkey, hvisible⟩ := Option.filter_eq_some_iff.mp hfound
    have hid := hrun.identity hlt
    simp only [Token.identity, Prod.mk.injEq] at hid
    obtain ⟨-, hkind, -, hscope, -⟩ := hid
    refine .inr ⟨ref.path, t, Option.filter_eq_some_iff.mpr ⟨?_, ?_⟩, hbefore⟩
    · exact (hrun.found hkey).resolve_right (Nat.not_le.mpr hlt)
    · rwa [Token.isEntry, ← hkind, ← hscope]

/-- **A scope that fails to resolve leaves no trace, with one exception.**  Where the colour
arithmetic has no faults but only refuses calls, a failed evaluation reports an error and leaves the
same keys on the same tokens in the same order, and every token that had been made before says what
it said, its trail included.  Or it stops over an integer of too many digits, the value of an entry
that was given or of one that the scope can see; then all entries stay in the store. -/
theorem evaluate_error_restores (r : Resolver)
    (refuses : ∀ call cause, r.math.apply call ≠ .error (.fault cause))
    {s : Store} (hs : s.Sound) (scope : Scope) (entries : List Entry) {f : Failure}
    (failed : (r.evaluate s scope entries).outcome = .error f) :
    ((∃ cause, f = .error cause) ∧
      (r.evaluate s scope entries).store.index = s.index ∧
      ∀ t, t < s.tokens.size →
        ((r.evaluate s scope entries).store.token t).toDraft = (s.token t).toDraft ∧
        (r.evaluate s scope entries).store.trailOf t = s.trailOf t) ∨
    (f = .fault .longInteger ∧
      ((∃ e ∈ entries, e.value.spliced? = none) ∨
        ∃ path t, s.findEntry? path scope.visible = some t ∧
          (s.token t).value.spliced? = none) ∧
      ∀ e ∈ entries, ((r.evaluate s scope entries).store.find? e.flat).isSome) := by
  rw [(evaluate_outcome r s scope entries).1] at failed
  rcases evaluate_cases r s scope entries with ⟨cause, hcause, hstore⟩ | ⟨hno, hstore⟩
  · rw [hstore]
    exact .inl ⟨⟨cause, Except.error.inj (failed.symm.trans hcause)⟩,
      rollback_restores hs (evaluateFrom_undoable r hs scope entries)⟩
  · -- Without faults in the arithmetic, what is not reported is a value that cannot be told.
    have hcause := (evaluateFrom_kept (running_kept hs.checkpoint entries)
      ⟨hs.checkpoint, id, ChangesOnly.refl _⟩).2 f failed
    rcases hcause with (⟨key, call, e, hcall, rfl⟩ | ⟨rfl, value, hrefers⟩) | ⟨left, rfl⟩
    · cases e with
      | refused expression reason => exact absurd failed (hno _)
      | fault cause => exact absurd hcall (refuses call cause)
    · have hsource := untold_source hs.checkpoint hrefers
      simp only [find?_checkpoint, findEntry?, token_checkpoint] at hsource
      rw [hstore]
      exact .inr ⟨rfl, hsource, mem_keys_evaluateFrom _⟩
    · exact absurd failed (hno _)

/-- Colour arithmetic that refuses every call. -/
def refusing : ColourMath := ⟨fun call => .error (.refused call.expression "refused")⟩

/-- A store with one entry of the palette. -/
def onePalette : Store :=
  (({} : Store).add
    { name := "a", kind := .input, value := .text "#aabbcc", scope := some .palette }).1

theorem onePalette_sound : onePalette.Sound := sound_empty.add _

theorem onePalette_named : onePalette.Named := named_empty.add sound_empty _

set_option maxRecDepth 10000 in
/-- An entry that gets one of its two references replaced, and fails over the other. -/
theorem missing_reference_restores :
    ((⟨refusing, 3, "palette"⟩ : Resolver).evaluate onePalette .palette
      [⟨[.key "b"], .text "$(a)$(d)", none⟩]).outcome =
        .error (.error (.unresolved ["b"] (some "palette"))) ∧
    ((⟨refusing, 3, "palette"⟩ : Resolver).evaluate onePalette .palette
      [⟨[.key "b"], .text "$(a)$(d)", none⟩]).store.index = onePalette.index := by
  have failed : ((⟨refusing, 3, "palette"⟩ : Resolver).evaluate onePalette .palette
      [⟨[.key "b"], .text "$(a)$(d)", none⟩]).outcome =
        .error (.error (.unresolved ["b"] (some "palette"))) := by cbv
  rcases evaluate_error_restores _ (fun _ _ h => by cases h) onePalette_sound .palette _ failed with
    ⟨-, hindex, -⟩ | ⟨hfault, -⟩
  · exact ⟨failed, hindex⟩
  · cases hfault

/-- An integer of too many digits, and an entry that refers to it. -/
def longEntries : List Entry :=
  [⟨[.key "a"], .scalar (.int longInteger), none⟩, ⟨[.key "b"], .text "$(a)", none⟩]

set_option maxRecDepth 10000 in
/-- **A scope can fail and leave its entries behind.**  The reference has no text to give way to,
which is no error that is reported, and the store that was empty is not empty afterwards. -/
theorem long_integer_leaves_entries :
    Sound {} ∧ (∀ call cause, refusing.apply call ≠ .error (.fault cause)) ∧
    ((⟨refusing, 3, "palette"⟩ : Resolver).evaluate {} .palette longEntries).outcome =
      .error (.fault .longInteger) ∧
    Assoc.keys
        ((⟨refusing, 3, "palette"⟩ : Resolver).evaluate {} .palette longEntries).store.index =
      (["a", "b"] : List Text) := by
  have failed : ((⟨refusing, 3, "palette"⟩ : Resolver).evaluate {} .palette
      longEntries).outcome.map (fun _ => ()) = .error (.fault .longInteger) := by decide +kernel
  have refuses : ∀ call cause, refusing.apply call ≠ .error (.fault cause) :=
    fun _ _ h => by cases h
  exact ⟨sound_empty, refuses, map_eq_error_iff.mp failed, by decide +kernel⟩

end Resolver

end Colourway
