import Colourway.Proofs.Resolve.Isolation
import Colourway.Proofs.Resolve.Taken

/-!
# What an evaluation leaves in the store

The values that an evaluation returns are those that its entries hold in the store
(`Slot.Stands`), through every step and every visit.  But an entry can be found only as long as it
keeps its key, and keys are shared with the steps: a step that starts from a text which is also the
key of an entry takes that key over.  So the entries that are found afterwards are those whose key
no step started from (**`evaluate_stored`**), and the others are found no more
(`entry_behind_step`).
-/

namespace Colourway

open Store Syntax

/-- What a token is known by: its name, kind and scope, and its value now. -/
def Token.face (t : Token) : Text × TokenKind × Option Scope × Document :=
  (t.name, t.kind, t.scope, t.value)

/-- The entry that a step belongs to does not show in the face of its token. -/
theorem Store.face_setParent (s : Store) (t u : TokenId) (parent : Option Text) :
    ((s.setParent t parent).token u).face = (s.token u).face :=
  token_update_congr Token.face (f := fun x => { x with parent := parent }) (fun _ => rfl) s t u

/-- A step writes the key that it starts from. -/
theorem Store.find?_add_setParent (s : Store) (d : Draft) (parent : Option Text) (key : Text) :
    ((s.add d).1.setParent (s.add d).2 parent).find? key =
      if key = d.name then some (s.add d).2 else s.find? key :=
  find?_add s d key

/-- The token of a slot holds the value of the slot, as an entry of the scope.  It stands under the
path of the entry unless a step started from that path; then the token of a step stands there. -/
structure Slot.Stands (scope : Scope) (steps : Steps) (s : Store) (slot : Slot) : Prop where
  /-- The token has been made. -/
  inside : slot.token < s.tokens.size
  /-- The token holds the value of the slot. -/
  face : (s.token slot.token).face = (slot.entry.flat, .input, some scope, slot.value)
  /-- A path that no step started from leads to the token. -/
  found : slot.entry.flat ∉ steps.map Prod.fst → s.find? slot.entry.flat = some slot.token
  /-- Any other path leads to the token of a step. -/
  displaced : slot.entry.flat ∈ steps.map Prod.fst →
    ∃ t, s.find? slot.entry.flat = some t ∧ (s.token t).kind ≠ .input

namespace Resolver

variable {r : Resolver} {scope : Scope}

/-- Slots with different paths that stand in a sound store, after some steps. -/
structure Standing (scope : Scope) (steps : Steps) (s : Store) (slots : List Slot) : Prop where
  /-- The store is sound. -/
  sound : s.Sound
  /-- Keys are names. -/
  named : s.Named
  /-- Each of the steps is one. -/
  isStep : ∀ p ∈ steps, IsStep p
  /-- The paths are different. -/
  distinct : (slots.map (·.entry.flat)).Nodup
  /-- Every slot stands. -/
  stands : ∀ slot ∈ slots, slot.Stands scope steps s

/-! ## The changes of a run -/

theorem Standing.enter {s : Store} {slots : List Slot} (h : Standing scope [] s slots) {e : Entry}
    (hnew : e.flat ∉ slots.map (·.entry.flat)) :
    Standing scope [] (s.add (r.entryDraft scope e)).1
      (slots ++ [⟨e, (s.add (r.entryDraft scope e)).2, r.expand e.value⟩]) := by
  have hnamed := h.named.add h.sound (r.entryDraft scope e)
  have hfind := find?_add s (r.entryDraft scope e)
  refine ⟨h.sound.add _, hnamed, h.isStep, ?_, ?_⟩
  · rw [List.map_append, List.map_singleton, ← List.concat_eq_append]
    exact h.distinct.concat hnew
  · intro slot hmem
    rw [List.mem_append, List.mem_singleton] at hmem
    rcases hmem with hmem | rfl
    · -- An entry from before has another key.
      have hst := h.stands slot hmem
      have hkey := hst.found List.not_mem_nil
      have hne : slot.entry.flat ≠ e.flat := by
        intro heq
        exact hnew (heq ▸ List.mem_map_of_mem hmem)
      refine ⟨Nat.lt_of_lt_of_le hst.inside (size_le_add s _), ?_, fun _ => ?_,
        fun hin => absurd hin List.not_mem_nil⟩
      · rw [h.named.token_add_of_ne h.sound hkey hne]
        exact hst.face
      · rw [hfind]
        exact (if_neg hne).trans hkey
    · obtain ⟨hkind, hscope, hvalue⟩ := h.sound.token_add_self (r.entryDraft scope e)
      have hkey : (s.add (r.entryDraft scope e)).1.find? e.flat =
          some (s.add (r.entryDraft scope e)).2 := by
        rw [hfind]
        exact if_pos rfl
      refine ⟨h.sound.add_inside _, ?_, fun _ => hkey, fun hin => absurd hin List.not_mem_nil⟩
      simp only [Token.face, hnamed _ _ hkey, hkind, hscope, hvalue]
      rfl

/-- A step takes the key over that it starts from, and leaves the entries as they are. -/
theorem Standing.step {steps : Steps} {s : Store} {slots : List Slot}
    (h : Standing scope steps s slots) {d : Draft} {next : Text} (hkind : d.kind ≠ .input)
    (hstep : IsStep (d.name, next)) (parent : Option Text) :
    Standing scope (steps ++ [(d.name, next)]) ((s.add d).1.setParent (s.add d).2 parent)
      slots := by
  have hkinds : ∀ t, (((s.add d).1.setParent (s.add d).2 parent).token t).kind =
      ((s.add d).1.token t).kind := fun t =>
    congrArg (fun f => f.2.1) (face_setParent _ _ t parent)
  refine ⟨(h.sound.add d).update _ fun _ => rfl, (h.named.add h.sound d).update _ fun _ => rfl,
    ?_, h.distinct, ?_⟩
  · intro p hp
    rw [List.mem_append, List.mem_singleton] at hp
    rcases hp with hp | rfl
    · exact h.isStep p hp
    · exact hstep
  · intro slot hmem
    have hst := h.stands slot hmem
    have hinput : (s.token slot.token).kind ≠ d.kind := by
      rw [show (s.token slot.token).kind = .input from congrArg (fun f => f.2.1) hst.face]
      exact fun heq => hkind heq.symm
    refine ⟨?_, ?_, ?_, ?_⟩
    · rw [setParent, size_update]
      exact Nat.lt_of_lt_of_le hst.inside (size_le_add s d)
    · rw [face_setParent, token_add_of_kind_ne hst.inside hinput]
      exact hst.face
    · intro hout
      simp only [List.map_append, List.map_singleton, List.mem_append, List.mem_singleton,
        not_or] at hout
      rw [find?_add_setParent, if_neg hout.2]
      exact hst.found hout.1
    · -- The key of the entry is taken by this step, or was taken by one before.
      intro hin
      simp only [List.map_append, List.map_singleton, List.mem_append, List.mem_singleton] at hin
      by_cases hkey : slot.entry.flat = d.name
      · refine ⟨(s.add d).2, (find?_add_setParent s d parent _).trans (if_pos hkey), ?_⟩
        rw [hkinds, (h.sound.token_add_self d).1]
        exact hkind
      · obtain ⟨t, hfound, hother⟩ := hst.displaced (hin.resolve_right hkey)
        refine ⟨t, (find?_add_setParent s d parent _).trans ((if_neg hkey).trans hfound), ?_⟩
        have hid := identity_add (h.sound.key_inside hfound) d
        rw [hkinds, show ((s.add d).1.token t).kind = (s.token t).kind from
          congrArg (fun i => i.2.1) hid]
        exact hother

theorem mem_middle_cases {α : Type} {before after : List α} {x y : α}
    (h : y ∈ before ++ x :: after) : y = x ∨ y ∈ before ++ after := by
  simp only [List.mem_append, List.mem_cons] at h ⊢
  tauto

theorem mem_middle {α : Type} {before after : List α} {x y : α} (h : y ∈ before ++ after) :
    y ∈ before ++ x :: after := by
  simp only [List.mem_append, List.mem_cons] at h ⊢
  tauto

/-- Different slots have different tokens. -/
theorem Standing.token_ne {steps : Steps} {s : Store} {before after : List Slot}
    {slot other : Slot} (h : Standing scope steps s (before ++ slot :: after))
    (hother : other ∈ before ++ after) : other.token ≠ slot.token := by
  intro heq
  have hdistinct := h.distinct
  rw [List.map_append, List.map_cons, List.nodup_middle, ← List.map_append,
    List.nodup_cons] at hdistinct
  have hst := h.stands other (mem_middle hother)
  have hname := congrArg Prod.fst hst.face
  rw [heq, (h.stands slot (by simp)).face] at hname
  refine hdistinct.1 ?_
  rw [show slot.entry.flat = other.entry.flat from hname]
  exact List.mem_map_of_mem hother

/-- The token of a slot learns what a visit came to, and no other entry is concerned. -/
theorem Standing.learn {steps : Steps} {s : Store} {before after : List Slot} {slot : Slot}
    (h : Standing scope steps s (before ++ slot :: after)) (value : Document)
    (trail : List TokenId) :
    Standing scope steps ((s.setValue slot.token value).addTrail slot.token trail)
      (before ++ { slot with value := value } :: after) := by
  refine ⟨?_, h.named.update _ fun _ => rfl, h.isStep, ?_, ?_⟩
  · refine Sound.addTrail ?_ _ _
    exact h.sound.update _ fun _ => rfl
  · simpa using h.distinct
  · have hslot := h.stands slot (by simp)
    intro other hmem
    have hkinds : ∀ t, (((s.setValue slot.token value).addTrail slot.token trail).token t).kind =
        (s.token t).kind :=
      token_update_congr (fun x : Token => x.kind) (f := fun x => { x with value := value })
        (fun _ => rfl) s slot.token
    -- Only the token of this slot is written to, and no other slot has it.
    rcases mem_middle_cases hmem with rfl | hother
    · refine ⟨?_, ?_, hslot.found, ?_⟩
      · exact Nat.lt_of_lt_of_eq hslot.inside (size_update s _ _).symm
      · have hself : ((s.setValue slot.token value).addTrail slot.token trail).token slot.token =
            { s.token slot.token with value := value } := token_update_self hslot.inside _
        have hold := hslot.face
        simp only [Token.face, Prod.mk.injEq] at hold
        simp [hself, Token.face, hold]
      · intro hin
        obtain ⟨t, hfound, hkind⟩ := hslot.displaced hin
        exact ⟨t, hfound, by rwa [hkinds]⟩
    · have hst := h.stands other (mem_middle hother)
      have hsame : ((s.setValue slot.token value).addTrail slot.token trail).token other.token =
          s.token other.token := token_update_of_ne (h.token_ne hother) _
      refine ⟨?_, ?_, hst.found, ?_⟩
      · exact Nat.lt_of_lt_of_eq hst.inside (size_update s _ _).symm
      · rw [hsame]
        exact hst.face
      · intro hin
        obtain ⟨t, hfound, hkind⟩ := hst.displaced hin
        exact ⟨t, hfound, by rwa [hkinds]⟩

/-- A visit keeps the slots standing. -/
theorem Standing.visit {steps : Steps} {s s' : Store} {before after : List Slot}
    {slot slot' : Slot} {changed : Bool} (h : Standing scope steps s (before ++ slot :: after))
    (hvisit : r.visit scope s slot = .ok (s', slot', changed)) :
    Standing scope (steps ++ r.visitTaken scope s slot) s' (before ++ slot' :: after) := by
  rcases visit_cases hvisit with ⟨-, rfl, rfl, htaken⟩ | ⟨value, v, -, hfollow, rfl, rfl, htaken⟩
  · rw [htaken, List.append_nil]
    exact h
  · rw [htaken]
    refine Standing.learn ?_ (.text v.value) v.trail
    refine follow_carried (P := fun steps here =>
      Standing scope steps here.store (before ++ slot :: after)) ?_ r.limit h hfollow
    intro steps here d next hstanding hstep hd hne
    obtain ⟨hname, hkind, -⟩ := step_draft hstep
    have hone := hstanding.step hkind (hname ▸ isStep_of_step hstep hd hne)
      (some slot.entry.flat)
    rw [hname] at hone
    exact hone

theorem standing_carried (r : Resolver) (scope : Scope) (entries : List Entry) :
    Carried r scope entries (Standing scope) :=
  ⟨fun h _ hnew => h.enter hnew, fun h hvisit => h.visit hvisit⟩

/-! ## Main statements -/

/-- **The store holds what an evaluation returns, under every path that no step started from.**
There the path leads to an entry of the scope with the value that was returned.  A path that a step
did start from, which is a short hex literal or holds a reference or a call, leads to no entry. -/
theorem evaluate_stored (r : Resolver) {s : Store} (hs : s.Sound) (hn : s.Named) (scope : Scope)
    {entries done : List Entry} (distinct : (entries.map Entry.flat).Nodup)
    (h : (r.evaluate s scope entries).outcome = .ok done) :
    ∀ e ∈ done,
      (e.flat ∉ (r.taken s scope entries).map Prod.fst →
        ∃ t, Store.findEntry? (r.evaluate s scope entries).store e.flat scope.visible = some t ∧
          ((r.evaluate s scope entries).store.token t).kind = .input ∧
          ((r.evaluate s scope entries).store.token t).scope = some scope ∧
          ((r.evaluate s scope entries).store.token t).value = e.value) ∧
      (e.flat ∈ (r.taken s scope entries).map Prod.fst →
        Store.findEntry? (r.evaluate s scope entries).store e.flat scope.visible = none ∧
          Steppable e.flat) := by
  have hstart : Standing scope [] s.checkpoint.1 [] :=
    ⟨hs.checkpoint, hn.checkpoint, by simp, by simp, by simp⟩
  obtain ⟨slots, hstanding, -, -, rfl⟩ :=
    evaluate_carried (standing_carried r scope entries) distinct hstart h
  intro e he
  obtain ⟨slot, hslot, rfl⟩ := List.mem_map.mp he
  have hst := hstanding.stands slot hslot
  have hflat : (slot.entry.withValue slot.value).flat = slot.entry.flat := rfl
  rw [hflat]
  have hface := hst.face
  simp only [Token.face, Prod.mk.injEq] at hface
  obtain ⟨-, hkind, hscope, hvalue⟩ := hface
  refine ⟨fun hout => ⟨slot.token, ?_, hkind, hscope, hvalue⟩, fun hin => ⟨?_, ?_⟩⟩
  · simp [hst.found hout, findEntry?, Token.isEntry, hkind, hscope, scope.mem_visible]
  · obtain ⟨t, hfound, hkind⟩ := hst.displaced hin
    simp [hfound, findEntry?, Token.isEntry, hkind]
  · obtain ⟨p, hp, hflat⟩ := List.mem_map.mp hin
    exact hflat ▸ (hstanding.isStep p hp).steppable

/-- Two entries, the second with a value that is the key of the first. -/
def keyAsValue : List Entry :=
  [⟨[.key "#abc"], .text "x", none⟩, ⟨[.key "b"], .text "#abc", none⟩]

set_option maxRecDepth 10000 in
theorem evaluate_keyAsValue :
    ((⟨refusing, 10, "palette"⟩ : Resolver).evaluate {} .vars keyAsValue).outcome =
      .ok [⟨[.key "#abc"], .text "x", none⟩, ⟨[.key "b"], .text "#aabbcc", none⟩] := by
  with_unfolding_all rfl

set_option maxRecDepth 10000 in
/-- Spelling out `#abc` takes the key of the first entry over; the second entry is found. -/
theorem second_entry_found :
    ∃ t, Store.findEntry? ((⟨refusing, 10, "palette"⟩ : Resolver).evaluate {} .vars keyAsValue).store
        "b" Scope.vars.visible = some t ∧
      (((⟨refusing, 10, "palette"⟩ : Resolver).evaluate {} .vars keyAsValue).store.token t).kind =
        .input ∧
      (((⟨refusing, 10, "palette"⟩ : Resolver).evaluate {} .vars keyAsValue).store.token t).scope =
        some .vars ∧
      (((⟨refusing, 10, "palette"⟩ : Resolver).evaluate {} .vars keyAsValue).store.token t).value =
        .text "#aabbcc" :=
  (evaluate_stored ⟨refusing, 10, "palette"⟩ sound_empty named_empty .vars (by decide +kernel)
    evaluate_keyAsValue
    ⟨[.key "b"], .text "#aabbcc", none⟩ (by simp)).1 (by decide +kernel)

/-- So not every entry is found with the value that was returned. -/
theorem entry_behind_step :
    ¬ ∀ (r : Resolver) (s : Store) (scope : Scope) (entries done : List Entry), s.Sound → s.Named →
      (entries.map Entry.flat).Nodup → (r.evaluate s scope entries).outcome = .ok done →
      ∀ e ∈ done, ∃ t,
        Store.findEntry? (r.evaluate s scope entries).store e.flat scope.visible = some t ∧
        ((r.evaluate s scope entries).store.token t).kind = .input ∧
        ((r.evaluate s scope entries).store.token t).scope = some scope ∧
        ((r.evaluate s scope entries).store.token t).value = e.value := by
  intro h
  obtain ⟨t, hfound, -⟩ := h ⟨refusing, 10, "palette"⟩ {} .vars keyAsValue _ sound_empty named_empty
    (by decide +kernel) evaluate_keyAsValue ⟨[.key "#abc"], .text "x", none⟩ (by simp)
  have hnone : Store.findEntry? ((⟨refusing, 10, "palette"⟩ : Resolver).evaluate {} .vars
      keyAsValue).store "#abc" Scope.vars.visible = none := by decide +kernel
  have hflat : (⟨[.key "#abc"], .text "x", none⟩ : Entry).flat = "#abc" := by decide +kernel
  rw [hflat, hnone] at hfound
  cases hfound

end Resolver

end Colourway
