import Colourway.Proofs.Token.Change
import Mathlib.Data.List.Basic
import Mathlib.Data.List.Induction

/-!
# Reading trails

What becomes of the trail of a token as the store changes, and what a trail lists: steps are put on
a trail at their first occurrence only, so the trail of steps with names lists the names without
repetitions (`extended_eq_eraseDups`).
-/

namespace Colourway.Store

variable {s : Store} {t u : TokenId}

/-! ## Trails under a change -/

theorem trailOf_update (s : Store) (t u : TokenId) {f : Token → Token}
    (keeps : ∀ x : Token, (f x).trail = x.trail) : (s.update t f).trailOf u = s.trailOf u := by
  have htrail : ((s.update t f).token u).trail = (s.token u).trail :=
    token_update_congr (fun x : Token => x.trail) keeps s t u
  rw [trailOf, trailOf, htrail]
  rfl

/-- A new token has no trail, and leaves those of the others alone. -/
theorem Sound.trailOf_add (hs : s.Sound) (ht : t < s.tokens.size) (d : Draft) :
    (s.add d).1.trailOf t = s.trailOf t := by
  have hcreate : (s.create d).1.trailOf t = s.trailOf t := by
    rw [trailOf, token_create_of_ne (Nat.ne_of_lt ht), trails_create (hs.trail_inside ht)]
    rfl
  rcases add_cases s d with ⟨old, -, -, -, h⟩ | ⟨-, h⟩
  · rw [h, merged, trailOf_update _ _ _ (f := Token.refreshed d) fun _ => rfl, hcreate]
  · rw [h]
    exact hcreate

/-- A draft under a new key becomes a token of its own. -/
theorem add_of_new {d : Draft} (h : s.find? d.name = none) :
    (s.add d).2 = s.tokens.size ∧
    (s.add d).1.token s.tokens.size = { d with trail := s.trails.size } ∧
    (s.add d).1.trailOf s.tokens.size = [] := by
  have htoken := token_create_self s d
  rcases add_cases s d with ⟨old, hold, -⟩ | ⟨-, hadd⟩
  · rw [h] at hold
    cases hold
  · rw [hadd]
    refine ⟨rfl, htoken, ?_⟩
    have htrail : (s.installed d).trailOf s.tokens.size =
        (s.create d).1.trailOf s.tokens.size := rfl
    rw [htrail, trailOf, htoken]
    simp [create, Array.getD_eq_getD_getElem?]

theorem Sound.trailOf_addTrail_self (hs : s.Sound) (ht : t < s.tokens.size)
    (steps : List TokenId) :
    (s.addTrail t steps).trailOf t = extended t (s.trailOf t) steps := by
  have hinside := hs.trail_inside ht
  have htoken : (s.addTrail t steps).token t = s.token t := rfl
  rw [trailOf, trailOf, htoken, Store.addTrail, Array.getD_eq_getD_getElem?,
    Array.getD_eq_getD_getElem?, Array.getElem?_modify, if_pos rfl, Array.getElem?_eq_getElem hinside]
  rfl

theorem Sound.trailOf_addTrail_of_ne (hs : s.Sound) (ht : t < s.tokens.size)
    (hu : u < s.tokens.size) (hne : u ≠ t) (steps : List TokenId) :
    (s.addTrail t steps).trailOf u = s.trailOf u := by
  have htrail : (s.token t).trail ≠ (s.token u).trail := fun h => hne (hs.unshared hu ht h.symm)
  exact trails_addTrail_of_ne htrail steps

/-! ## What a trail lists -/

section Names

variable {α : Type} [BEq α] [LawfulBEq α]

theorem eraseDups_concat (names : List α) (x : α) :
    (names ++ [x]).eraseDups = if x ∈ names then names.eraseDups else names.eraseDups ++ [x] := by
  rw [List.eraseDups_append]
  by_cases hx : x ∈ names <;> simp [List.removeAll, List.eraseDups_cons, hx]

theorem nodup_eraseDups (names : List α) : names.eraseDups.Nodup := by
  induction names using List.reverseRecOn with
  | nil => simp
  | append_singleton names x ih =>
    rw [eraseDups_concat]
    by_cases hx : x ∈ names
    · rwa [if_pos hx]
    · rw [if_neg hx, List.nodup_append]
      refine ⟨ih, by simp, ?_⟩
      rintro y hy z hz rfl
      rw [List.mem_singleton.mp hz, List.mem_eraseDups] at hy
      exact hx hy

theorem eraseDups_of_nodup {names : List α} (h : names.Nodup) : names.eraseDups = names := by
  induction names with
  | nil => rfl
  | cons x rest ih =>
    obtain ⟨hx, hrest⟩ := List.nodup_cons.mp h
    have hkeep : rest.filter (fun y => !y == x) = rest := by
      rw [List.filter_eq_self]
      intro y hy
      have hne : y ≠ x := fun heq => hx (heq ▸ hy)
      simpa using hne
    rw [List.eraseDups_cons, hkeep, ih hrest]

/-- **A trail lists the names of its steps without repetitions**, if each step has one name. -/
theorem extended_eq_eraseDups {at? : α → Option TokenId}
    (named : ∀ {x y u}, at? x = some u → at? y = some u → x = y) (more : List α) :
    ∀ {trail steps : List TokenId} {names : List α},
      trail.map some = names.eraseDups.map at? → steps.map some = more.map at? → t ∉ steps →
      (extended t trail steps).map some = (names ++ more).eraseDups.map at? := by
  induction more with
  | nil =>
    intro trail steps names htrail hsteps _
    obtain rfl : steps = [] := by simpa using hsteps
    simpa [extended] using htrail
  | cons x more ih =>
    intro trail steps names htrail hsteps ht
    cases steps with
    | nil => cases hsteps
    | cons u steps =>
      rw [List.map_cons, List.map_cons, List.cons.injEq] at hsteps
      obtain ⟨hu, hsteps⟩ := hsteps
      obtain ⟨hne, ht⟩ : t ≠ u ∧ t ∉ steps := by simpa using ht
      have hmem : u ∈ trail ↔ x ∈ names := by
        have hlisted : some u ∈ trail.map some ↔ some u ∈ names.eraseDups.map at? := by rw [htrail]
        simp only [List.mem_map, Option.some.injEq, exists_eq_right, List.mem_eraseDups] at hlisted
        rw [hlisted]
        constructor
        · rintro ⟨y, hy, hyu⟩
          rwa [named hu.symm hyu]
        · exact fun hx => ⟨x, hx, hu.symm⟩
      have hone : (if u = t ∨ u ∈ trail then trail else trail ++ [u]).map some =
          (names ++ [x]).eraseDups.map at? := by
        rw [eraseDups_concat]
        by_cases hx : x ∈ names
        · simp [hx, hmem.mpr hx, htrail]
        · simp [hx, mt hmem.mp hx, hne.symm, htrail, hu]
      have hrest := ih hone hsteps ht
      rw [List.append_assoc, List.singleton_append] at hrest
      exact hrest

end Names

end Colourway.Store
