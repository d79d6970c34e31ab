import Colourway.Proofs.Resolve.Derivation
import Colourway.Proofs.Resolve.Untold
import Colourway.Proofs.Syntax.Spelling
import Colourway.Proofs.Token.Reached

/-!
# What explanations end with

The explanation of an entry starts with its raw value and goes on through everything that its
resolved value was derived from.  There is one, since a run that succeeds went through references
to values that can be told only (`Answered`).  The walk behind it ends with what the last expression
on the entry's trail holds, which is the resolved value if the last step from that expression came
to it.  The explanation leaves out what it told before, so it ends with the resolved value exactly
if nothing new comes after that value (**`evaluate_explained`**).
-/

namespace Colourway

open Store Syntax

/-- The last of all steps from the last expression on the trail of a token came to `result`. -/
def Store.EndsAt (s : Store) (taken : Steps) (t : TokenId) (result : Text) : Prop :=
  ∀ u, (s.trailOf t).getLast? = some u → Assoc.last? (s.token u).name taken = some result

/-- A chain ends with the value of its last token. -/
theorem Store.Chains.last {s : Store} {x y : Text} {trail : List TokenId} {u : TokenId}
    (h : s.Chains x trail y) (hu : trail.getLast? = some u) : (s.token u).value = .text y := by
  induction trail generalizing x with
  | nil => cases hu
  | cons t trail ih =>
    obtain ⟨-, v, hv, hrest⟩ := h
    cases trail with
    | nil =>
      obtain rfl : t = u := Option.some.inj hu
      obtain rfl : v = y := hrest
      exact hv
    | cons t' trail => exact ih hrest (by simpa using hu)

namespace Resolver

variable {r : Resolver} {scope : Scope}

/-- A trail whose expressions came to one value each ends at the value of the entry. -/
theorem Recorded.endsAt {steps : Steps} {s : Store} {slots : List Slot} {t : TokenId}
    {start result : Text} {own : Steps} (h : Recorded r scope steps s slots)
    (hderives : s.Derives steps t start own result) (resolved : hasUnresolved result = false)
    (single : s.Unequivocal steps t) : s.EndsAt steps t result := by
  intro u hu
  have hlast := (hderives.chains h.isStep resolved single).last hu
  obtain ⟨v, hvalue, hv⟩ := hderives.last u (List.mem_of_getLast? hu)
  rw [hvalue] at hlast
  obtain rfl : v = result := by simpa [Document.text] using hlast
  exact hv

/-- The walk from an entry that was derived ends with its value. -/
theorem Recorded.walked_last {steps : Steps} {s : Store} {slots : List Slot} {slot : Slot}
    (h : Recorded r scope steps s slots) (hslot : slot ∈ slots) {raw result : Text} {own : Steps}
    (hraw : slot.entry.value = .text raw)
    (hderives : s.Derives steps slot.token (expandAliases r.palette raw) own result)
    (resolved : hasUnresolved result = false) (hpalette : ∀ c ∈ r.palette, isParen c = false)
    (hends : s.EndsAt steps slot.token result) :
    (s.walked slot.token).getLast? = some result := by
  rw [getLast?_walked (h.stands slot hslot).inside]
  cases hlast : (s.trailOf slot.token).getLast? with
  | none =>
    -- Nothing was done to the raw value, not even writing out its aliases.
    have hown : own = [] := by
      have hlisted := hderives.listed
      rw [List.getLast?_eq_none_iff.mp hlast, List.map_nil] at hlisted
      cases own with
      | nil => rfl
      | cons p own => rw [List.map_cons, List.eraseDups_cons] at hlisted; cases hlisted
    subst hown
    have hself : expandAliases r.palette raw = result := by
      cases hderives.leads
      rfl
    have hsame := expandAliases_eq_self hpalette (hself ▸ resolved)
    have hstart : startValue (s.token slot.token) = .text raw := by
      rw [startValue, (h.derived slot hslot).raw, hraw]
      rfl
    rw [hstart, ← hself, hsame]
    rfl
  | some u =>
    obtain ⟨v, hvalue, hv⟩ := hderives.last u (List.mem_of_getLast? hlast)
    obtain rfl : v = result := Option.some.inj (hv.symm.trans (hends u hlast))
    dsimp only
    rw [hvalue]
    rfl

/-! ## Everything can be told -/

/-- A run in which tokens depend only on entries that were given a value which can be told. -/
structure Answered (r : Resolver) (scope : Scope) (steps : Steps) (s : Store)
    (slots : List Slot) : Prop extends Recorded r scope steps s slots where
  /-- An entry holds a value that cannot be told just if it was given one. -/
  untold : ∀ slot ∈ slots, slot.value.spliced? = none ↔ slot.entry.value.spliced? = none
  /-- What a token depends on is an entry that was given a value which can be told. -/
  refers : ∀ {u v}, (s.token u).dependency = some v →
    ∃ slot ∈ slots, slot.token = v ∧ slot.entry.value.spliced? ≠ none

namespace Answered

variable {steps : Steps} {s : Store} {slots before after : List Slot} {slot : Slot}

theorem enter (h : Answered r scope [] s slots) {e : Entry} (hliteral : classify e.flat = .literal)
    (hnew : e.flat ∉ slots.map (·.entry.flat)) :
    Answered r scope [] (s.add (r.entryDraft scope e)).1
      (slots ++ [⟨e, (s.add (r.entryDraft scope e)).2, r.expand e.value⟩]) := by
  refine ⟨h.toRecorded.enter hliteral hnew, ?_, ?_⟩
  · intro slot hslot
    rw [List.mem_append, List.mem_singleton] at hslot
    rcases hslot with hslot | rfl
    · exact h.untold slot hslot
    · exact spliced?_expand r e.value
  · intro u v hdep
    rcases dependency_add s (r.entryDraft scope e) u with hnone | hold
    · rw [hnone] at hdep
      cases hdep
    · rw [hold] at hdep
      obtain ⟨slot, hslot, hv⟩ := h.refers hdep
      exact ⟨slot, List.mem_append_left _ hslot, hv⟩

/-- The entries that can be seen are those of the slots. -/
theorem exists_slot (h : Answered r scope steps s slots) {path : Text} {visible : List Scope}
    {t : TokenId} (hfound : s.findEntry? path visible = some t) :
    ∃ slot ∈ slots, slot.token = t := by
  unfold Store.findEntry? at hfound
  rw [Option.filter_eq_some_iff, Bool.and_eq_true] at hfound
  obtain ⟨hfind, hentry, -⟩ := hfound
  rcases h.keys hfind with hstep | hpath
  · -- A key that a step started from leads to the token of the step.
    obtain ⟨u, v, hu, hface⟩ := h.exists_token hstep
    obtain rfl : t = u := Option.some.inj (hfind.symm.trans hu)
    have hkind : (s.token t).kind = .input := by simpa [Token.isEntry] using hentry
    exact absurd ((congrArg (fun f => f.2.1) hface).symm.trans hkind) (stepKind_ne_input path)
  · obtain ⟨slot, hslot, rfl⟩ := List.mem_map.mp hpath
    have hself := (h.stands slot hslot).found (h.not_mem hslot)
    exact ⟨slot, hslot, Option.some.inj (hself.symm.trans hfind)⟩

theorem step (h : Answered r scope steps s slots) {key x next : Text} {d : Draft}
    (hstep : r.step s scope key x = .ok (some d)) (hd : d.value = .text next) (hne : next ≠ x) :
    Answered r scope (steps ++ [(x, next)]) ((s.add d).1.setParent (s.add d).2 (some key))
      slots := by
  obtain ⟨hname, -, hscope, -⟩ := step_draft hstep
  have hkind : d.kind = stepKind d.name := hname ▸ step_kind hstep
  have hone : IsStep (d.name, next) := hname ▸ isStep_of_step hstep hd hne
  have hrecorded := h.toRecorded.step hkind hscope hd hone (some key)
  rw [hname] at hrecorded
  refine ⟨hrecorded, h.untold, ?_⟩
  intro u v hdep
  have hkeep : (((s.add d).1.setParent (s.add d).2 (some key)).token u).dependency =
      ((s.add d).1.token u).dependency :=
    token_update_congr (fun x : Token => x.dependency) (f := fun x => { x with parent := some key })
      (fun _ => rfl) _ _ _
  rw [hkeep] at hdep
  rcases dependency_add s d u with hnew | hold
  · -- The step replaced a reference, so it told the value of what it depends on.
    rw [hnew] at hdep
    obtain ⟨path, hfound, htold⟩ := step_dependency hstep hdep
    obtain ⟨slot, hslot, rfl⟩ := h.exists_slot hfound
    refine ⟨slot, hslot, rfl, fun hnone => htold ?_⟩
    have hvalue : (s.token slot.token).value = slot.value :=
      congrArg (fun f => f.2.2.2) (h.stands slot hslot).face
    rw [hvalue]
    exact (h.untold slot hslot).mpr hnone
  · rw [hold] at hdep
    exact h.refers hdep

theorem visit {s' : Store} {slot' : Slot} {changed : Bool}
    (h : Answered r scope steps s (before ++ slot :: after))
    (hvisit : r.visit scope s slot = .ok (s', slot', changed)) :
    Answered r scope (steps ++ r.visitTaken scope s slot) s' (before ++ slot' :: after) := by
  have hrecorded := h.toRecorded.visit hvisit
  rcases visit_cases hvisit with
    ⟨-, rfl, rfl, htaken⟩ | ⟨value, v, hvalue, hfollow, rfl, rfl, htaken⟩
  · exact ⟨hrecorded, h.untold, h.refers⟩
  · have hrun : Answered r scope _ v.store (before ++ slot :: after) :=
      follow_carried (P := fun more here => Answered r scope more here.store _)
        (fun h hstep hd hne => h.step hstep hd hne) r.limit h hfollow
    have htext : slot.entry.value.spliced? ≠ none := by
      rw [Ne, ← h.untold slot (by simp), hvalue]
      simp [Document.text, Document.spliced?, Scalar.spliced?]
    refine ⟨hrecorded, ?_, ?_⟩
    · intro other hother
      rcases mem_middle_cases hother with rfl | hother
      · exact iff_of_false (fun hnone => by cases hnone) htext
      · exact h.untold other (mem_middle hother)
    · intro u w hdep
      have hkeep : (((v.store.setValue slot.token (.text v.value)).addTrail slot.token
          v.trail).token u).dependency = (v.store.token u).dependency :=
        token_update_congr (fun x : Token => x.dependency)
          (f := fun x => { x with value := .text v.value }) (fun _ => rfl) _ _ _
      rw [hkeep] at hdep
      obtain ⟨other, hother, hw, htold⟩ := hrun.refers hdep
      rcases mem_middle_cases hother with rfl | hother
      · exact ⟨{ other with value := .text v.value }, by simp, hw, htold⟩
      · exact ⟨other, mem_middle hother, hw, htold⟩

/-- What is said of itself by an entry that was given a value which can be told can all be told. -/
theorem says_told (h : Answered r scope steps s slots) (hslot : slot ∈ slots)
    (htold : slot.entry.value.spliced? ≠ none) {value : Document}
    (hsaid : s.Says slot.token value) : value.spliced? ≠ none := by
  obtain ⟨hraw, own, hown, hlisted, -⟩ := h.derived slot hslot
  rcases hsaid with rfl | ⟨u, hu, rfl⟩
  · have hvalue : (s.token slot.token).value = slot.value :=
      congrArg (fun f => f.2.2.2) (h.stands slot hslot).face
    rw [startValue, hraw, hvalue]
    split
    · rwa [Ne, h.untold slot hslot]
    · exact htold
  · -- An expression on the trail holds a text, what the last step from it came to.
    have hmem : some u ∈ (own.map Prod.fst).eraseDups.map s.find? := by
      rw [← hlisted]
      exact List.mem_map_of_mem hu
    obtain ⟨x, hx, hfound⟩ := List.mem_map.mp hmem
    obtain ⟨p, hp, rfl⟩ := List.mem_map.mp (List.mem_eraseDups.mp hx)
    obtain ⟨w, text, hw, hface⟩ := h.exists_token (List.mem_map_of_mem (hown hp))
    obtain rfl : u = w := Option.some.inj (hfound.symm.trans hw)
    have hvalue : (s.token u).value = .text text := congrArg (fun f => f.2.2.2) hface
    rw [hvalue]
    simp [Document.text, Document.spliced?, Scalar.spliced?]

/-- **There is an explanation** of every entry that was given a value which can be told. -/
theorem exists_explanation (h : Answered r scope steps s slots) (hslot : slot ∈ slots)
    (htold : slot.entry.value.spliced? ≠ none) :
    ∃ lines, s.explain slot.entry.flat = .ok lines := by
  have hst := h.stands slot hslot
  cases hlines : s.explain slot.entry.flat with
  | ok lines => exact ⟨lines, rfl⟩
  | error f =>
    obtain ⟨-, item, hitem, hnone⟩ := (explain_error_iff (hst.found (h.not_mem hslot))).mp hlines
    obtain ⟨u, value, hreach, hsaid, huntold⟩ :=
      (mem_walk_iff hst.inside (·.spliced? = none)).mp ⟨item, hitem, hnone⟩
    -- Only entries that were given such values are reached.
    have hlast : ∃ slot ∈ slots, slot.token = u ∧ slot.entry.value.spliced? ≠ none := by
      cases hreach with
      | refl => exact ⟨slot, hslot, rfl, htold⟩
      | tail _ hrefers =>
        obtain ⟨-, w, -, -, hdep⟩ := hrefers
        exact h.refers hdep
    obtain ⟨last, hlast, rfl, htold⟩ := hlast
    exact absurd huntold (h.says_told hlast htold hsaid)

end Answered

theorem answered_carried (r : Resolver) (scope : Scope) {entries : List Entry}
    (literal : ∀ e ∈ entries, classify e.flat = .literal) :
    Carried r scope entries (Answered r scope) :=
  ⟨fun h he hnew => h.enter (literal _ he) hnew, fun h hvisit => h.visit hvisit⟩

/-! ## Main statements -/

/-- **Explanations go from the raw value to the resolved one.**  From an empty store, and with
literal paths, the explanation of an entry starts with its raw value, at depth 0, and tells the
texts that the walk from its token comes to, each at its first occurrence.  The walk ends with the
resolved value if the last step from the last expression on the trail came to it, as it does if no
expression on the trail came to two values.  The last line tells the resolved value exactly if
nothing new comes after it in the walk. -/
theorem evaluate_explained (r : Resolver) (scope : Scope) {entries done : List Entry}
    (distinct : (entries.map Entry.flat).Nodup)
    (literal : ∀ e ∈ entries, classify e.flat = .literal)
    (h : (r.evaluate {} scope entries).outcome = .ok done) :
    ∀ p ∈ entries.zip done, ∀ raw resolved, p.1.value = .text raw → p.2.value = .text resolved →
      ∃ t lines, (r.evaluate {} scope entries).store.find? p.1.flat = some t ∧
        (r.evaluate {} scope entries).store.explain p.1.flat = .ok lines ∧
        lines.head? = some ⟨raw, classify raw, 0⟩ ∧
        lines.map Explained.expression =
          ((r.evaluate {} scope entries).store.walked t).eraseDups ∧
        ((r.evaluate {} scope entries).store.Unequivocal (r.taken {} scope entries) t →
          (r.evaluate {} scope entries).store.EndsAt (r.taken {} scope entries) t resolved) ∧
        ((∀ c ∈ r.palette, isParen c = false) →
          (r.evaluate {} scope entries).store.EndsAt (r.taken {} scope entries) t resolved →
          ((r.evaluate {} scope entries).store.walked t).getLast? = some resolved) ∧
        (lines.getLast?.map Explained.expression = some resolved ↔
          ∃ before after, (r.evaluate {} scope entries).store.walked t =
            before ++ resolved :: after ∧ resolved ∉ before ∧
            ∀ x ∈ after, x ∈ before ++ [resolved]) := by
  have hstart : Answered r scope [] ({} : Store).checkpoint.1 [] :=
    ⟨recorded_start r scope, by simp, fun hdep => (by cases hdep)⟩
  obtain ⟨slots, hanswered, hentries, hresolved, rfl⟩ :=
    evaluate_carried (answered_carried r scope literal) distinct hstart h
  have hrecorded := hanswered.toRecorded
  intro p hp raw resolved hraw hvalue
  rw [← hentries, List.zip_map'] at hp
  obtain ⟨slot, hslot, rfl⟩ := List.mem_map.mp hp
  obtain ⟨result, own, hresult, hderives⟩ := hrecorded.derives hslot hraw
  have hsame : Document.text result = .text resolved := hresult.symm.trans hvalue
  obtain rfl : result = resolved := by simpa [Document.text] using hsame
  have hfound := (hrecorded.stands slot hslot).found (hrecorded.not_mem hslot)
  have htext : slot.entry.value.spliced? = some raw := by
    rw [hraw]
    rfl
  -- A run that succeeded replaced references by texts only, so everything in the walk can be told.
  obtain ⟨lines, hlines⟩ := hanswered.exists_explanation hslot (by simp [htext])
  obtain ⟨⟨text, hshown, hhead⟩, htold⟩ :=
    explain_of_inside hfound (hrecorded.stands slot hslot).inside hlines
  have hraw' : startValue ((r.evaluate {} scope entries).store.token slot.token) = .text raw := by
    rw [startValue, (hrecorded.derived slot hslot).raw, hraw]
    rfl
  rw [hraw'] at hshown
  obtain rfl : raw = text := Option.some.inj hshown
  have hdone := hresolved slot hslot result hresult
  refine ⟨slot.token, lines, hfound, hlines, hhead, htold, ?_, ?_, ?_⟩
  · exact hrecorded.endsAt hderives hdone
  · exact hrecorded.walked_last hslot hraw hderives hdone
  · rw [← List.getLast?_map, htold, getLast?_eraseDups_iff]

/-- The explanation of a reference ends with the value that it refers to. -/
theorem explained_reference : ∃ lines,
    ((⟨refusing, 10, "palette"⟩ : Resolver).evaluate {} .theme forwardReference).store.explain "b" =
      .ok lines ∧
    lines.getLast?.map Explained.expression = some "x" := by
  obtain ⟨t, lines, hfound, hlines, -, -, -, -, hlast⟩ :=
    evaluate_explained ⟨refusing, 10, "palette"⟩ .theme (by decide +kernel)
      (by decide +kernel) evaluate_forwardReference
      (⟨[.key "b"], .text "$(a)", none⟩, _) List.mem_cons_self "$(a)" "x" rfl rfl
  refine ⟨lines, hlines, hlast.mpr ⟨[.ofString "$(a)"], [.ofString "x"], ?_, by decide, by decide⟩⟩
  have hflat : (⟨[.key "b"], .text "$(a)", none⟩ : Entry).flat = "b" := by decide +kernel
  have hfirst : ((⟨refusing, 10, "palette"⟩ : Resolver).evaluate {} .theme
      forwardReference).store.find? "b" = some 0 := by decide +kernel
  rw [hflat, hfirst] at hfound
  obtain rfl : 0 = t := Option.some.inj hfound
  decide +kernel

/-- Two references, the second to a value that spells nothing. -/
def emptyBehind : List Entry :=
  [⟨[.key "a"], .text "$(b)$(c)", none⟩, ⟨[.key "b"], .text "x", none⟩,
    ⟨[.key "c"], .text "", none⟩]

theorem evaluate_emptyBehind :
    ((⟨refusing, 10, "palette"⟩ : Resolver).evaluate {} .theme emptyBehind).outcome =
      .ok [⟨[.key "a"], .text "x", none⟩, ⟨[.key "b"], .text "x", none⟩,
        ⟨[.key "c"], .text "", none⟩] := by
  with_unfolding_all rfl

/-- **Not every explanation ends with the value.**  The value of `a` was told before, as what `$(b)`
refers to, and the empty text comes after that. -/
theorem told_before :
    ¬ ∀ (r : Resolver) (scope : Scope) (entries done : List Entry),
      (entries.map Entry.flat).Nodup → (∀ e ∈ entries, classify e.flat = .literal) →
      (r.evaluate {} scope entries).outcome = .ok done →
      ∀ p ∈ entries.zip done, ∀ raw resolved, p.1.value = .text raw → p.2.value = .text resolved →
        ∃ lines, (r.evaluate {} scope entries).store.explain p.1.flat = .ok lines ∧
          lines.head? = some ⟨raw, classify raw, 0⟩ ∧
          lines.getLast?.map Explained.expression = some resolved := by
  intro h
  obtain ⟨lines, hlines, -, hlast⟩ := h ⟨refusing, 10, "palette"⟩ .theme emptyBehind _
    (by decide +kernel) (by decide +kernel) evaluate_emptyBehind
    (⟨[.key "a"], .text "$(b)$(c)", none⟩, _) List.mem_cons_self "$(b)$(c)" "x" rfl rfl
  have hend : (((⟨refusing, 10, "palette"⟩ : Resolver).evaluate {} .theme
      emptyBehind).store.explain "a").map (fun lines => lines.getLast?.map Explained.expression) =
        .ok (some "") := by decide +kernel
  have hflat : (⟨[.key "a"], .text "$(b)$(c)", none⟩ : Entry).flat = "a" := by decide +kernel
  rw [hflat] at hlines
  rw [hlines, Except.map, hlast] at hend
  exact absurd hend (by decide)

end Resolver

end Colourway
