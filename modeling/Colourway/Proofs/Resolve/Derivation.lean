import Colourway.Proofs.Resolve.Stored
import Colourway.Proofs.Theme.Assembled
import Colourway.Proofs.Token.Trail

/-!
# Trails and derivations

An entry comes to its value by steps, each from where the last one ended (`Leads`).  Its trail lists
the expressions that these steps started from, each at its first occurrence, and every expression
holds in the store what the last step from it came to, be that a step for this entry or for
another one (**`evaluate_derived`**).

So a trail is the derivation itself, link by link, if no expression on it came to two different
values in the whole run (`Leads.chains`).  It need not be otherwise: a later step from the same
expression, taken once the entries that it refers to have changed, is written over the earlier one.
-/

namespace Colourway

open Store Syntax

namespace Resolver

variable {r : Resolver} {scope : Scope}

/-! ## One token for each expression -/

/-- The kind of the tokens that stand for steps from a text. -/
def stepKind (x : Text) : TokenKind :=
  match classify x with
  | .hex => .hex
  | .reference => .reference
  | .call => .call
  | .literal => .literal

theorem step_kind {s : Store} {key x : Text} {d : Draft}
    (h : r.step s scope key x = .ok (some d)) : d.kind = stepKind x := by
  unfold step at h
  split at h
  · next hx =>
    obtain ⟨y, -, rfl⟩ := Option.map_eq_some_iff.mp (Except.ok.inj h)
    rw [stepKind, hx]
  · next hx =>
    obtain ⟨ref, t, shown, -, -, -, -, rfl⟩ := referenceStep_draft h
    rw [stepKind, hx]
  · next hx =>
    obtain ⟨call, result, -, -, rfl⟩ := callStep_draft h
    rw [stepKind, hx]
  · cases h

end Resolver

/-- The trail of a slot's token lists what the steps started from that led to the slot's value. -/
structure Slot.Derived (r : Resolver) (steps : Steps) (s : Store) (slot : Slot) : Prop where
  /-- The token keeps the value as it was given. -/
  raw : (s.token slot.token).raw = slot.entry.value
  /-- The steps are some of those that were taken. -/
  derived : ∃ own, own ⊆ steps ∧
    (s.trailOf slot.token).map some = (own.map Prod.fst).eraseDups.map s.find? ∧
    ∀ start, r.expand slot.entry.value = .text start →
      ∃ v, slot.value = .text v ∧ Leads start own v

namespace Resolver

/-- A run over entries with literal paths that began with an empty store: the keys are the paths and
the texts that steps started from, and each of the latter has a token of its own for good. -/
structure Recorded (r : Resolver) (scope : Scope) (steps : Steps) (s : Store)
    (slots : List Slot) : Prop extends Standing scope steps s slots where
  /-- The paths of the entries are literal. -/
  literal : ∀ slot ∈ slots, classify slot.entry.flat = .literal
  /-- A key is the path of an entry or what a step started from. -/
  keys : ∀ {key t}, s.find? key = some t →
    key ∈ steps.map Prod.fst ∨ key ∈ slots.map (·.entry.flat)
  /-- What steps started from holds what the last of them came to. -/
  last : ∀ {x v}, Assoc.last? x steps = some v → ∃ t, s.find? x = some t ∧
    (s.token t).face = (x, stepKind x, some scope, .text v)
  /-- Every trail lists a derivation. -/
  derived : ∀ slot ∈ slots, slot.Derived r steps s

section Changes

variable {steps : Steps} {s : Store} {slots before after : List Slot} {slot : Slot}

theorem stepKind_ne_input (x : Text) : stepKind x ≠ .input := by
  unfold stepKind
  split <;> decide

theorem exists_last? {x : Text} (h : x ∈ steps.map Prod.fst) :
    ∃ v, Assoc.last? x steps = some v := by
  obtain ⟨p, hp, hx⟩ := List.mem_map.mp h
  rw [← Option.ne_none_iff_exists']
  intro hnone
  exact Assoc.last?_eq_none_iff.mp hnone p hp hx

namespace Recorded

/-- No step starts from the path of an entry. -/
theorem not_mem (h : Recorded r scope steps s slots) (hslot : slot ∈ slots) :
    slot.entry.flat ∉ steps.map Prod.fst := by
  intro hmem
  obtain ⟨p, hp, hx⟩ := List.mem_map.mp hmem
  exact (h.isStep p hp).steppable.classify_ne (hx ▸ h.literal slot hslot)

/-- What a step started from has a token. -/
theorem exists_token (h : Recorded r scope steps s slots) {x : Text}
    (hx : x ∈ steps.map Prod.fst) : ∃ t v, s.find? x = some t ∧
      (s.token t).face = (x, stepKind x, some scope, .text v) := by
  obtain ⟨v, hv⟩ := exists_last? hx
  obtain ⟨t, ht, hface⟩ := h.last hv
  exact ⟨t, v, ht, hface⟩

/-- The tokens of expressions that steps started from are no entries. -/
theorem token_not_mem (h : Recorded r scope steps s slots) (hslot : slot ∈ slots)
    {names : List Text} (hnames : ∀ x ∈ names, x ∈ steps.map Prod.fst) {trail : List TokenId}
    (htrail : trail.map some = names.map s.find?) : slot.token ∉ trail := by
  intro hmem
  have hsome : some slot.token ∈ names.map s.find? := by
    rw [← htrail]
    exact List.mem_map_of_mem hmem
  obtain ⟨x, hx, hfound⟩ := List.mem_map.mp hsome
  have hname : slot.entry.flat = x :=
    h.named.key_unique ((h.stands slot hslot).found (h.not_mem hslot)) hfound
  exact h.not_mem hslot (hname ▸ hnames x hx)

theorem enter (h : Recorded r scope [] s slots) {e : Entry} (hliteral : classify e.flat = .literal)
    (hnew : e.flat ∉ slots.map (·.entry.flat)) :
    Recorded r scope [] (s.add (r.entryDraft scope e)).1
      (slots ++ [⟨e, (s.add (r.entryDraft scope e)).2, r.expand e.value⟩]) := by
  have hnone : s.find? e.flat = none := by
    cases hf : s.find? e.flat with
    | none => rfl
    | some t => exact absurd (h.keys hf) (by simpa using hnew)
  obtain ⟨hid, htoken, htrail⟩ := add_of_new (d := r.entryDraft scope e) hnone
  refine ⟨h.toStanding.enter hnew, ?_, ?_, fun hv => (by cases hv), ?_⟩
  · intro slot hmem
    rw [List.mem_append, List.mem_singleton] at hmem
    rcases hmem with hmem | rfl
    · exact h.literal slot hmem
    · exact hliteral
  · -- The only new key is that of the entry.
    intro key t hkey
    rw [find?_add] at hkey
    refine Or.inr ?_
    by_cases he : key = (r.entryDraft scope e).name
    · rw [he]
      simp [entryDraft]
    · rw [if_neg he] at hkey
      simpa using Or.inl ((h.keys hkey).resolve_left List.not_mem_nil)
  · -- No step was taken yet, so the trails are empty and every value leads to itself.
    intro slot hmem
    rw [List.mem_append, List.mem_singleton] at hmem
    rcases hmem with hmem | rfl
    · have hst := h.stands slot hmem
      have hne : slot.entry.flat ≠ e.flat := fun heq => hnew (heq ▸ List.mem_map_of_mem hmem)
      obtain ⟨hraw, own, hown, htrail, hlead⟩ := h.derived slot hmem
      obtain rfl : own = [] := List.eq_nil_of_subset_nil hown
      refine ⟨?_, [], hown, ?_, hlead⟩
      · rw [h.named.token_add_of_ne h.sound (hst.found List.not_mem_nil) hne]
        exact hraw
      · rw [h.sound.trailOf_add hst.inside]
        exact htrail
    · refine ⟨?_, [], List.Subset.refl _, ?_, ?_⟩
      · simp only [hid, htoken]
        rfl
      · simp only [hid, htrail]
        rfl
      · exact fun start hstart => ⟨start, hstart, .rest start⟩

/-- A step finds the token of its expression, or makes it: every key stays where it is. -/
theorem find?_add_step (h : Recorded r scope steps s slots) {d : Draft}
    (hkind : d.kind = stepKind d.name) (hscope : d.scope = some scope) (hstep : Steppable d.name)
    {key : Text} {t : TokenId} (hf : s.find? key = some t) :
    (s.add d).1.find? key = some t := by
  rw [find?_add]
  by_cases hkey : key = d.name
  · subst hkey
    rcases h.keys hf with hmem | hmem
    · obtain ⟨u, v, hu, hface⟩ := h.exists_token hmem
      obtain rfl : t = u := Option.some.inj (hf.symm.trans hu)
      simp only [Token.face, Prod.mk.injEq] at hface
      rw [if_pos rfl, h.sound.add_of_same hf (hface.2.1.trans hkind.symm)
        (hface.2.2.1.trans hscope.symm)]
    · obtain ⟨slot, hslot, heq⟩ := List.mem_map.mp hmem
      exact absurd (h.literal slot hslot) (heq ▸ hstep.classify_ne)
  · rw [if_neg hkey]
    exact hf

/-- The expressions of some steps stay where they are. -/
theorem map_find?_add_step (h : Recorded r scope steps s slots) {d : Draft}
    (hkind : d.kind = stepKind d.name) (hscope : d.scope = some scope) (hstep : Steppable d.name)
    {names : List Text} (hnames : ∀ x ∈ names, x ∈ steps.map Prod.fst) :
    names.map (s.add d).1.find? = names.map s.find? := by
  refine List.map_congr_left fun x hx => ?_
  obtain ⟨t, v, ht, -⟩ := h.exists_token (hnames x hx)
  rw [ht, h.find?_add_step hkind hscope hstep ht]

/-- A step is written into the token of its expression. -/
theorem step (h : Recorded r scope steps s slots) {d : Draft} {next : Text}
    (hkind : d.kind = stepKind d.name) (hscope : d.scope = some scope)
    (hvalue : d.value = .text next) (hstep : IsStep (d.name, next)) (parent : Option Text) :
    Recorded r scope (steps ++ [(d.name, next)]) ((s.add d).1.setParent (s.add d).2 parent)
      slots := by
  have hinput : d.kind ≠ .input := hkind ▸ stepKind_ne_input d.name
  have hraw : ∀ t, (((s.add d).1.setParent (s.add d).2 parent).token t).raw =
      ((s.add d).1.token t).raw :=
    token_update_congr (fun x : Token => x.raw) (f := fun x => { x with parent := parent })
      (fun _ => rfl) _ _
  refine ⟨h.toStanding.step hinput hstep parent, h.literal, ?_, ?_, ?_⟩
  · -- The only new key is the expression of the step.
    intro key t hkey
    rw [find?_add_setParent] at hkey
    by_cases hname : key = d.name
    · exact Or.inl (by simp [hname])
    · rw [if_neg hname] at hkey
      rcases h.keys hkey with hmem | hmem
      · exact Or.inl (by simpa using Or.inl (by simpa using hmem))
      · exact Or.inr hmem
  · -- Under the expression of the step stands what the step came to, under others what did before.
    intro x v hlast
    rw [Assoc.last?_append, Assoc.last?, Assoc.last?, Option.none_or] at hlast
    by_cases hname : x = d.name
    · subst hname
      obtain ⟨hk, hs, hv⟩ := h.sound.token_add_self d
      have hkey : (s.add d).1.find? d.name = some (s.add d).2 := by rw [find?_add, if_pos rfl]
      have hn := h.named.add h.sound d d.name _ hkey
      refine ⟨(s.add d).2, hkey, ?_⟩
      rw [if_pos rfl, Option.some_or] at hlast
      obtain rfl : next = v := Option.some.inj hlast
      rw [face_setParent, Token.face, hn, hk, hs, hv, hkind, hscope, hvalue]
    · rw [if_neg (Ne.symm hname), Option.none_or] at hlast
      obtain ⟨t, ht, hold⟩ := h.last hlast
      refine ⟨t, (find?_add_setParent s d parent x).trans ((if_neg hname).trans ht), ?_⟩
      rw [face_setParent, h.named.token_add_of_ne h.sound ht hname]
      exact hold
  · -- The trails of the entries stay, and their expressions lead to the tokens that they led to.
    intro slot hslot
    have hinside := (h.stands slot hslot).inside
    obtain ⟨hold, own, hown, htrail, hlead⟩ := h.derived slot hslot
    have hid := identity_add hinside d
    simp only [Token.identity, Prod.mk.injEq] at hid
    refine ⟨(hraw _).trans (hid.2.2.1.trans hold), own, ?_, ?_, hlead⟩
    · exact fun p hp => List.mem_append_left _ (hown hp)
    · have htrailOf : ((s.add d).1.setParent (s.add d).2 parent).trailOf slot.token =
          s.trailOf slot.token := by
        refine (trailOf_update _ _ _ ?_).trans (h.sound.trailOf_add hinside d)
        exact fun _ => rfl
      have hmap : (own.map Prod.fst).eraseDups.map (s.add d).1.find? =
          (own.map Prod.fst).eraseDups.map s.find? := by
        refine h.map_find?_add_step hkind hscope hstep.steppable fun x hx => ?_
        obtain ⟨p, hp, rfl⟩ := List.mem_map.mp (List.mem_eraseDups.mp hx)
        exact List.mem_map_of_mem (hown hp)
      rw [htrailOf, htrail]
      exact hmap.symm

/-- The token of a slot learns what a visit came to, and its trail the steps of the visit. -/
theorem learn (h : Recorded r scope steps s (before ++ slot :: after)) {more : Steps}
    {value v : Text} (hvalue : slot.value = .text value) (hmore : more ⊆ steps)
    (hlead : Leads value more v) {trail : List TokenId}
    (htrail : trail.map some = (more.map Prod.fst).map s.find?) :
    Recorded r scope steps ((s.setValue slot.token (.text v)).addTrail slot.token trail)
      (before ++ { slot with value := .text v } :: after) := by
  have hslot : slot ∈ before ++ slot :: after := by simp
  have hst := h.stands slot hslot
  have hsound : (s.setValue slot.token (.text v)).Sound := h.sound.update _ fun _ => rfl
  have hsize : (s.setValue slot.token (.text v)).tokens.size = s.tokens.size := size_update _ _ _
  have hraw : ∀ t, (((s.setValue slot.token (.text v)).addTrail slot.token trail).token t).raw =
      (s.token t).raw :=
    token_update_congr (fun x : Token => x.raw) (f := fun x => { x with value := .text v })
      (fun _ => rfl) s slot.token
  have hset : ∀ t, (s.setValue slot.token (.text v)).trailOf t = s.trailOf t := fun t =>
    trailOf_update s slot.token t fun _ => rfl
  have hout : slot.token ∉ trail := by
    refine h.token_not_mem hslot (fun x hx => ?_) htrail
    obtain ⟨p, hp, rfl⟩ := List.mem_map.mp hx
    exact List.mem_map_of_mem (hmore hp)
  refine ⟨h.toStanding.learn (.text v) trail, ?_, ?_, ?_, ?_⟩
  · intro other hmem
    rcases mem_middle_cases hmem with rfl | hother
    · exact h.literal slot (by simp)
    · exact h.literal other (mem_middle hother)
  · intro key t hkey
    simpa using h.keys hkey
  · -- The token of a step is of another kind than that of the entry, so it keeps its value.
    intro x w hlast
    obtain ⟨t, ht, hface⟩ := h.last hlast
    refine ⟨t, ht, ?_⟩
    have hne : t ≠ slot.token := by
      rintro rfl
      rw [hst.face] at hface
      exact stepKind_ne_input x (congrArg (fun f => f.2.1) hface).symm
    have hsame : ((s.setValue slot.token (.text v)).addTrail slot.token trail).token t =
        s.token t := token_update_of_ne hne _
    rw [hsame]
    exact hface
  · intro other hmem
    rcases mem_middle_cases hmem with rfl | hother
    · -- The steps of the visit go behind those that the trail had.
      obtain ⟨hold, own, hown, hlisted, hled⟩ := h.derived slot (by simp)
      refine ⟨(hraw _).trans hold, own ++ more, ?_, ?_, ?_⟩
      · exact List.append_subset.mpr ⟨hown, hmore⟩
      · rw [hsound.trailOf_addTrail_self (Nat.lt_of_lt_of_eq hst.inside hsize.symm), hset,
          List.map_append]
        exact extended_eq_eraseDups (fun hx hy => h.named.key_unique hx hy) (more.map Prod.fst)
          hlisted htrail hout
      · intro start hstart
        obtain ⟨w, hw, hfirst⟩ := hled start hstart
        rw [hvalue] at hw
        obtain rfl : value = w := by simpa [Document.text] using hw
        exact ⟨v, rfl, hfirst.append hlead⟩
    · obtain ⟨hold, own, hown, hlisted, hled⟩ := h.derived other (mem_middle hother)
      refine ⟨(hraw _).trans hold, own, hown, ?_, hled⟩
      have hinside := (h.stands other (mem_middle hother)).inside
      rw [hsound.trailOf_addTrail_of_ne (Nat.lt_of_lt_of_eq hst.inside hsize.symm)
        (Nat.lt_of_lt_of_eq hinside hsize.symm) (h.token_ne hother), hset]
      exact hlisted

/-- **A visit adds to the trail of its entry the steps that it takes**, and leaves the trails of the
others as they are. -/
theorem visit {s' : Store} {slot' : Slot} {changed : Bool}
    (h : Recorded r scope steps s (before ++ slot :: after))
    (hvisit : r.visit scope s slot = .ok (s', slot', changed)) :
    Recorded r scope (steps ++ r.visitTaken scope s slot) s' (before ++ slot' :: after) := by
  rcases visit_cases hvisit with
    ⟨-, rfl, rfl, htaken⟩ | ⟨value, v, hvalue, hfollow, rfl, rfl, htaken⟩
  · rw [htaken, List.append_nil]
    exact h
  · rw [htaken]
    have hstart : Recorded r scope (steps ++ []) s (before ++ slot :: after) ∧
        Leads value [] value ∧
        List.map some [] = (List.map Prod.fst ([] : Steps)).map s.find? :=
      ⟨by rwa [List.append_nil], .rest value, rfl⟩
    have hrun := follow_carried (P := fun own here =>
      Recorded r scope (steps ++ own) here.store (before ++ slot :: after) ∧
      Leads value own here.value ∧
      here.trail.map some = (own.map Prod.fst).map here.store.find?) ?_ r.limit hstart hfollow
    · obtain ⟨hrecorded, hlead, htrail⟩ := hrun
      exact hrecorded.learn hvalue (List.subset_append_right _ _) hlead htrail
    · rintro own here d next ⟨hrecorded, hlead, htrail⟩ hstep hd hne
      obtain ⟨hname, -, hscope, -⟩ := step_draft hstep
      have hkind : d.kind = stepKind d.name := hname ▸ step_kind hstep
      have hone : IsStep (d.name, next) := hname ▸ isStep_of_step hstep hd hne
      have hmap : (own.map Prod.fst).map (here.store.add d).1.find? =
          (own.map Prod.fst).map here.store.find? := by
        refine hrecorded.map_find?_add_step hkind hscope hone.steppable fun x hx => ?_
        rw [List.map_append]
        exact List.mem_append_right _ hx
      refine ⟨?_, hlead.concat next, ?_⟩
      · have hadded := hrecorded.step hkind hscope hd hone (some slot.entry.flat)
        rw [List.append_assoc, hname] at hadded
        exact hadded
      · have hself : (here.store.add d).1.find? here.value = some (here.store.add d).2 := by
          rw [find?_add, if_pos hname.symm]
        have hlisted : (here.advance slot.entry.flat d next).trail.map some =
            here.trail.map some ++ [some (here.store.add d).2] := by
          rw [Visited.advance, List.map_append, List.map_singleton]
        rw [hlisted, htrail, ← hmap, ← hself, List.map_append, List.map_append]
        rfl

end Recorded

theorem recorded_carried (r : Resolver) (scope : Scope) {entries : List Entry}
    (literal : ∀ e ∈ entries, classify e.flat = .literal) :
    Carried r scope entries (Recorded r scope) :=
  ⟨fun h he hnew => h.enter (literal _ he) hnew, fun h hvisit => h.visit hvisit⟩

end Changes

end Resolver

/-! ## What a trail says about a derivation -/

/-- The tokens are the links of a chain from one text to another: the name of each is what the one
before has for a value. -/
def Store.Chains (s : Store) : Text → List TokenId → Text → Prop
  | x, [], y => x = y
  | x, t :: rest, y => (s.token t).name = x ∧ ∃ v, (s.token t).value = .text v ∧ s.Chains v rest y

/-- How the token `t` came from one text to another by the steps `own`, which are among all steps
that were taken: its trail lists what they started from, and each expression on the trail holds what
the last of all steps from it came to. -/
structure Store.Derives (s : Store) (taken : Steps) (t : TokenId) (start : Text) (own : Steps)
    (result : Text) : Prop where
  /-- The steps were taken. -/
  among : own ⊆ taken
  /-- They lead from the one text to the other. -/
  leads : Leads start own result
  /-- The trail lists what they started from. -/
  listed : (s.trailOf t).map (fun u => (s.token u).name) = (own.map Prod.fst).eraseDups
  /-- Expressions hold what the last steps from them came to. -/
  last : ∀ u ∈ s.trailOf t, ∃ v, (s.token u).value = .text v ∧
    Assoc.last? (s.token u).name taken = some v

/-- No expression on the trail of a token came to two different values. -/
def Store.Unequivocal (s : Store) (taken : Steps) (t : TokenId) : Prop :=
  ∀ u ∈ s.trailOf t, ∀ v w, ((s.token u).name, v) ∈ taken → ((s.token u).name, w) ∈ taken → v = w

/-- Steps are a chain of the tokens that hold what they started from and came to. -/
theorem Leads.chains {s : Store} {x y : Text} {own : Steps} (h : Leads x own y) :
    ∀ {trail : List TokenId}, trail.map (fun u => (s.token u).name) = own.map Prod.fst →
      (∀ u ∈ trail, ∀ v, ((s.token u).name, v) ∈ own → (s.token u).value = .text v) →
      s.Chains x trail y := by
  induction h with
  | rest x =>
    intro trail hnames _
    obtain rfl : trail = [] := by simpa using hnames
    rfl
  | @step x v y own _ ih =>
    intro trail hnames hvalues
    cases trail with
    | nil => cases hnames
    | cons t trail =>
      rw [List.map_cons, List.map_cons, List.cons.injEq] at hnames
      obtain ⟨hname, hnames⟩ := hnames
      refine ⟨hname, v, hvalues t List.mem_cons_self v ?_, ?_⟩
      · rw [hname]
        exact List.mem_cons_self
      · exact ih hnames fun u hu w hw =>
          hvalues u (List.mem_cons_of_mem _ hu) w (List.mem_cons_of_mem _ hw)

/-- **A trail whose expressions had one value each is the derivation, link by link.** -/
theorem Store.Derives.chains {s : Store} {taken own : Steps} {t : TokenId} {start result : Text}
    (h : s.Derives taken t start own result) (steps : ∀ p ∈ taken, Resolver.IsStep p)
    (resolved : hasUnresolved result = false) (single : s.Unequivocal taken t) :
    s.Chains start (s.trailOf t) result := by
  have hlisted : ∀ p ∈ own, ∃ u ∈ s.trailOf t, (s.token u).name = p.1 := by
    intro p hp
    have hmem : p.1 ∈ (s.trailOf t).map fun u => (s.token u).name := by
      rw [h.listed, List.mem_eraseDups]
      exact List.mem_map_of_mem hp
    exact List.mem_map.mp hmem
  have hsingle : SingleValued own := by
    intro x v w hv hw
    obtain ⟨u, hu, hname⟩ := hlisted _ hv
    exact single u hu v w (by rw [hname]; exact h.among hv) (by rw [hname]; exact h.among hw)
  have hnodup := h.leads.nodup hsingle
    (h.leads.resolved_not_mem (fun p hp => steps p (h.among hp)) resolved)
  refine h.leads.chains (by rw [h.listed, eraseDups_of_nodup hnodup]) ?_
  intro u hu v hv
  obtain ⟨w, hvalue, hlast⟩ := h.last u hu
  rw [hvalue, single u hu w v (Assoc.mem_of_last? hlast) (h.among hv)]

namespace Resolver

variable {r : Resolver} {scope : Scope}

/-- The token of a slot derives the slot's value from the one that the entry was given with. -/
theorem Recorded.derives {steps : Steps} {s : Store} {slots : List Slot} {slot : Slot}
    (h : Recorded r scope steps s slots) (hslot : slot ∈ slots) {raw : Text}
    (hraw : slot.entry.value = .text raw) : ∃ resolved own, slot.value = .text resolved ∧
      s.Derives steps slot.token (expandAliases r.palette raw) own resolved := by
  obtain ⟨-, own, hown, hlisted, hlead⟩ := h.derived slot hslot
  obtain ⟨resolved, hvalue, hlead⟩ := hlead (expandAliases r.palette raw) (by rw [hraw]; rfl)
  -- Each expression on the trail is found under its name.
  have hfound : ∀ u ∈ s.trailOf slot.token, ∃ x ∈ own.map Prod.fst, s.find? x = some u := by
    intro u hu
    have hmem : some u ∈ (own.map Prod.fst).eraseDups.map s.find? := by
      rw [← hlisted]
      exact List.mem_map_of_mem hu
    obtain ⟨x, hx, hxu⟩ := List.mem_map.mp hmem
    exact ⟨x, List.mem_eraseDups.mp hx, hxu⟩
  have hname : ∀ {x u}, s.find? x = some u → (s.token u).name = x := fun hu => h.named _ _ hu
  refine ⟨resolved, own, hvalue, hown, hlead, ?_, ?_⟩
  · have hmap := congrArg (List.map fun o => o.map fun u => (s.token u).name) hlisted
    simp only [List.map_map] at hmap
    have hnames : (own.map Prod.fst).eraseDups.map
        ((fun o : Option TokenId => o.map fun u => (s.token u).name) ∘ s.find?) =
          (own.map Prod.fst).eraseDups.map some := by
      refine List.map_congr_left fun x hx => ?_
      obtain ⟨p, hp, rfl⟩ := List.mem_map.mp (List.mem_eraseDups.mp hx)
      obtain ⟨u, v, hu, -⟩ := h.exists_token (List.mem_map_of_mem (hown hp))
      simp [hu, hname hu]
    rw [hnames] at hmap
    rw [← List.map_inj_right fun _ _ => Option.some.inj, ← hmap, List.map_map]
    rfl
  · intro u hu
    obtain ⟨x, hx, hxu⟩ := hfound u hu
    obtain ⟨p, hp, rfl⟩ := List.mem_map.mp hx
    obtain ⟨v, hv⟩ := exists_last? (List.mem_map_of_mem (hown hp))
    obtain ⟨w, hw, hface⟩ := h.last hv
    obtain rfl : u = w := Option.some.inj (hxu.symm.trans hw)
    simp only [Token.face, Prod.mk.injEq] at hface
    exact ⟨v, hface.2.2.2, by rw [hname hxu, hv]⟩

/-! ## Main statements -/

/-- Nothing has been entered yet. -/
theorem recorded_start (r : Resolver) (scope : Scope) :
    Recorded r scope [] ({} : Store).checkpoint.1 [] :=
  ⟨⟨sound_empty, named_empty, by simp, by simp, by simp⟩, by simp, fun hf => (by cases hf),
    fun hv => (by cases hv), by simp⟩

/-- What an evaluation from an empty store leaves. -/
theorem evaluate_recorded (r : Resolver) (scope : Scope) {entries done : List Entry}
    (distinct : (entries.map Entry.flat).Nodup)
    (literal : ∀ e ∈ entries, classify e.flat = .literal)
    (h : (r.evaluate {} scope entries).outcome = .ok done) :
    ∃ slots, Recorded r scope (r.taken {} scope entries) (r.evaluate {} scope entries).store slots ∧
      (∀ slot ∈ slots, slot.value.Resolved) ∧
      entries.zip done = slots.map fun slot => (slot.entry, slot.entry.withValue slot.value) := by
  obtain ⟨slots, hrecorded, hentries, hresolved, rfl⟩ :=
    evaluate_carried (recorded_carried r scope literal) distinct (recorded_start r scope) h
  refine ⟨slots, hrecorded, hresolved, ?_⟩
  rw [← hentries, List.zip_map']

/-- **Trails tell how values were derived.**  From an empty store, and with literal paths, an entry
comes from its raw text with the aliases written out to its resolved text by steps that were taken
in the run.  Its trail lists the expressions that they started from, in order and without
repetitions, and each of these holds what the last step from it came to.  If none of them came to
two different values, the trail is a chain from the one text to the other. -/
theorem evaluate_derived (r : Resolver) (scope : Scope) {entries done : List Entry}
    (distinct : (entries.map Entry.flat).Nodup)
    (literal : ∀ e ∈ entries, classify e.flat = .literal)
    (h : (r.evaluate {} scope entries).outcome = .ok done) :
    ∀ p ∈ entries.zip done, ∀ raw, p.1.value = .text raw →
      ∃ t resolved own, (r.evaluate {} scope entries).store.find? p.1.flat = some t ∧
        p.2.value = .text resolved ∧
        (r.evaluate {} scope entries).store.Derives (r.taken {} scope entries) t
          (expandAliases r.palette raw) own resolved ∧
        ((r.evaluate {} scope entries).store.Unequivocal (r.taken {} scope entries) t →
          (r.evaluate {} scope entries).store.Chains (expandAliases r.palette raw)
            ((r.evaluate {} scope entries).store.trailOf t) resolved) := by
  obtain ⟨slots, hrecorded, hresolved, hzip⟩ := evaluate_recorded r scope distinct literal h
  intro p hp raw hraw
  rw [hzip] at hp
  obtain ⟨slot, hslot, rfl⟩ := List.mem_map.mp hp
  obtain ⟨resolved, own, hvalue, hderives⟩ := hrecorded.derives hslot hraw
  have hfound := (hrecorded.stands slot hslot).found (hrecorded.not_mem hslot)
  exact ⟨slot.token, resolved, own, hfound, hvalue, hderives,
    hderives.chains hrecorded.isStep (hresolved slot hslot resolved hvalue)⟩

/-- A reference and what it refers to. -/
def forwardReference : List Entry :=
  [⟨[.key "b"], .text "$(a)", none⟩, ⟨[.key "a"], .text "x", none⟩]

theorem evaluate_forwardReference :
    ((⟨refusing, 10, "palette"⟩ : Resolver).evaluate {} .theme forwardReference).outcome =
      .ok [⟨[.key "b"], .text "x", none⟩, ⟨[.key "a"], .text "x", none⟩] := by
  with_unfolding_all rfl

/-- The trail of a reference is a chain of one link. -/
theorem reference_chains : ∃ t resolved,
    ((⟨refusing, 10, "palette"⟩ : Resolver).evaluate {} .theme forwardReference).store.find? "b" =
      some t ∧
    ((⟨refusing, 10, "palette"⟩ : Resolver).evaluate {} .theme forwardReference).store.Chains
      (expandAliases "palette" "$(a)")
      (((⟨refusing, 10, "palette"⟩ : Resolver).evaluate {} .theme forwardReference).store.trailOf t)
      resolved := by
  obtain ⟨t, resolved, own, hfound, -, -, hchain⟩ :=
    evaluate_derived ⟨refusing, 10, "palette"⟩ .theme (by decide +kernel)
      (by decide +kernel) evaluate_forwardReference (⟨[.key "b"], .text "$(a)", none⟩, _)
      List.mem_cons_self "$(a)" rfl
  refine ⟨t, resolved, hfound, hchain ?_⟩
  have htaken : (⟨refusing, 10, "palette"⟩ : Resolver).taken {} .theme forwardReference =
      [(.ofString "$(a)", .ofString "x")] := by decide +kernel
  rw [htaken]
  intro u _ v w hv hw
  simp only [List.mem_singleton, Prod.mk.injEq] at hv hw
  rw [hv.2, hw.2]

/-- Two references to an entry that changes between them. -/
def changedBetween : List Entry :=
  [⟨[.key "b"], .text "$(a)", none⟩, ⟨[.key "a"], .text "$(c)", none⟩,
    ⟨[.key "c"], .text "#abc", none⟩, ⟨[.key "d"], .text "$(a)", none⟩]

set_option maxRecDepth 10000 in
theorem evaluate_changedBetween :
    ((⟨refusing, 10, "palette"⟩ : Resolver).evaluate {} .theme changedBetween).outcome =
      .ok (changedBetween.map fun e => e.withValue (.text "#aabbcc")) := by
  with_unfolding_all rfl

/-- **Not every trail is a chain.**  What `$(a)` came to for `d` is written over what it came to for
`b`, and does not lead to the next expression on the trail of `b`. -/
theorem rewritten_link :
    ¬ ∀ (r : Resolver) (scope : Scope) (entries done : List Entry),
      (entries.map Entry.flat).Nodup → (∀ e ∈ entries, classify e.flat = .literal) →
      (r.evaluate {} scope entries).outcome = .ok done →
      ∀ p ∈ entries.zip done, ∀ raw resolved, p.1.value = .text raw → p.2.value = .text resolved →
        ∃ t, (r.evaluate {} scope entries).store.find? p.1.flat = some t ∧
          (r.evaluate {} scope entries).store.Chains (expandAliases r.palette raw)
            ((r.evaluate {} scope entries).store.trailOf t) resolved := by
  intro h
  obtain ⟨t, hfound, hchain⟩ := h ⟨refusing, 10, "palette"⟩ .theme changedBetween _
    (by decide +kernel) (by decide +kernel) evaluate_changedBetween
    (⟨[.key "b"], .text "$(a)", none⟩, _) List.mem_cons_self "$(a)" "#aabbcc" rfl rfl
  have hflat : (⟨[.key "b"], .text "$(a)", none⟩ : Entry).flat = "b" := by decide +kernel
  have hfirst : ((⟨refusing, 10, "palette"⟩ : Resolver).evaluate {} .theme
      changedBetween).store.find? "b" = some 0 := by decide +kernel
  rw [hflat, hfirst] at hfound
  obtain rfl : 0 = t := Option.some.inj hfound
  have htrail : ((⟨refusing, 10, "palette"⟩ : Resolver).evaluate {} .theme
      changedBetween).store.trailOf 0 = [4, 5, 6] := by decide +kernel
  rw [htrail] at hchain
  obtain ⟨-, v, hv, hname, -⟩ := hchain
  have hvalue : (((⟨refusing, 10, "palette"⟩ : Resolver).evaluate {} .theme
      changedBetween).store.token 4).value.text? = some "#aabbcc" := by decide +kernel
  have hnext : (((⟨refusing, 10, "palette"⟩ : Resolver).evaluate {} .theme
      changedBetween).store.token 5).name = "$(c)" := by decide +kernel
  rw [hv] at hvalue
  rw [hnext] at hname
  exact absurd (hname.trans (Option.some.inj hvalue)) (by decide +kernel)

end Resolver

end Colourway
