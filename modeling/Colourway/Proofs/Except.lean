import Mathlib.Data.List.Forall2

/-!
# Computations that may fail

How a composed computation ends, in terms of how its parts end.  A row of computations succeeds if
all of them do, and fails as the first of them that fails (`mapM_eq_ok_iff`, `mapM_eq_error_iff`);
so does a fold (`foldlM_eq_error_iff`).
-/

namespace Colourway

variable {ε ε' α β : Type} {x : Except ε α}

/-- A computation that succeeds went through both of its parts. -/
theorem bind_eq_ok_iff {f : α → Except ε β} {b : β} :
    x >>= f = .ok b ↔ ∃ a, x = .ok a ∧ f a = .ok b := by
  cases x <;> simp [bind, Except.bind]

/-- A computation that fails does so in its first part, or in the second after the first. -/
theorem bind_eq_error_iff {f : α → Except ε β} {e : ε} :
    x >>= f = .error e ↔ x = .error e ∨ ∃ a, x = .ok a ∧ f a = .error e := by
  cases x <;> simp [bind, Except.bind]

theorem map_eq_ok_iff {f : α → β} {b : β} : x.map f = .ok b ↔ ∃ a, x = .ok a ∧ f a = b := by
  cases x <;> simp [Except.map]

theorem map_eq_error_iff {f : α → β} {e : ε} : x.map f = .error e ↔ x = .error e := by
  cases x <;> simp [Except.map]

theorem mapError_eq_ok_iff {f : ε → ε'} {a : α} : x.mapError f = .ok a ↔ x = .ok a := by
  cases x with
  | error d => constructor <;> rintro ⟨⟩
  | ok b =>
    constructor
    all_goals
      rintro ⟨⟩
      rfl

theorem mapError_eq_error_iff {f : ε → ε'} {e : ε'} :
    x.mapError f = .error e ↔ ∃ d, x = .error d ∧ f d = e := by
  cases x with
  | error d =>
    constructor
    · rintro ⟨⟩
      exact ⟨d, rfl, rfl⟩
    · rintro ⟨_, ⟨⟩, rfl⟩
      rfl
  | ok a =>
    constructor
    · rintro ⟨⟩
    · rintro ⟨_, ⟨⟩, _⟩

/-! ## Rows of computations -/

section Rows

variable {f : α → Except ε β}

theorem mapM_eq_ok_iff (row : List α) : ∀ {results : List β},
    row.mapM f = .ok results ↔ List.Forall₂ (fun a b => f a = .ok b) row results := by
  induction row with
  | nil =>
    intro results
    cases results <;> simp [pure, Except.pure]
  | cons a row ih =>
    intro results
    rw [List.mapM_cons, bind_eq_ok_iff]
    simp only [bind_eq_ok_iff, pure, Except.pure, Except.ok.injEq]
    constructor
    · rintro ⟨b, hb, bs, hbs, rfl⟩
      exact .cons hb (ih.mp hbs)
    · rintro (_ | ⟨hb, hbs⟩)
      exact ⟨_, hb, _, ih.mpr hbs, rfl⟩

/-- A row of which no computation fails has results. -/
theorem exists_results {row : List α} (h : ∀ a ∈ row, ∃ b, f a = .ok b) :
    ∃ results, List.Forall₂ (fun a b => f a = .ok b) row results := by
  induction row with
  | nil => exact ⟨[], .nil⟩
  | cons a row ih =>
    obtain ⟨⟨b, hb⟩, hrow⟩ := List.forall_mem_cons.mp h
    obtain ⟨results, hresults⟩ := ih hrow
    exact ⟨b :: results, .cons hb hresults⟩

/-- A row fails as the first that fails of its computations. -/
theorem mapM_eq_error_iff (row : List α) {e : ε} :
    row.mapM f = .error e ↔ ∃ before a after, row = before ++ a :: after ∧
      (∀ b ∈ before, ∃ result, f b = .ok result) ∧ f a = .error e := by
  induction row with
  | nil => simp [pure, Except.pure]
  | cons a row ih =>
    rw [List.mapM_cons, bind_eq_error_iff]
    simp only [bind_eq_error_iff, pure, Except.pure, reduceCtorEq, and_false, exists_false,
      or_false, ih]
    constructor
    · rintro (ha | ⟨b, hb, before, c, after, rfl, hbefore, hc⟩)
      · exact ⟨[], a, row, rfl, by simp, ha⟩
      · exact ⟨a :: before, c, after, rfl, List.forall_mem_cons.mpr ⟨⟨b, hb⟩, hbefore⟩, hc⟩
    · rintro ⟨before, c, after, hrow, hbefore, hc⟩
      cases before with
      | nil =>
        cases hrow
        exact .inl hc
      | cons d before =>
        cases hrow
        obtain ⟨⟨b, hb⟩, hrest⟩ := List.forall_mem_cons.mp hbefore
        exact .inr ⟨b, hb, before, c, after, rfl, hrest, hc⟩

end Rows

/-! ## Folds that may fail -/

section Folds

variable {σ τ : Type} {step : σ → α → Except ε σ}

/-- A fold succeeds if each of its steps does. -/
theorem foldlM_append_eq_ok_iff {row row' : List α} {s s' : σ} :
    (row ++ row').foldlM step s = .ok s' ↔
      ∃ middle, row.foldlM step s = .ok middle ∧ row'.foldlM step middle = .ok s' := by
  rw [List.foldlM_append, bind_eq_ok_iff]

theorem foldlM_singleton (a : α) (s : σ) : [a].foldlM step s = step s a := by
  rw [List.foldlM_cons]
  cases step s a <;> rfl

/-- A fold fails as the first that fails of its steps. -/
theorem foldlM_eq_error_iff (row : List α) {s : σ} {e : ε} :
    row.foldlM step s = .error e ↔ ∃ before a after middle, row = before ++ a :: after ∧
      before.foldlM step s = .ok middle ∧ step middle a = .error e := by
  induction row generalizing s with
  | nil => simp [pure, Except.pure]
  | cons a row ih =>
    rw [List.foldlM_cons, bind_eq_error_iff]
    simp only [ih]
    constructor
    · rintro (ha | ⟨s', hs, before, b, after, middle, rfl, hbefore, hb⟩)
      · exact ⟨[], a, row, s, rfl, rfl, ha⟩
      · exact ⟨a :: before, b, after, middle, rfl, bind_eq_ok_iff.mpr ⟨s', hs, hbefore⟩, hb⟩
    · rintro ⟨before, b, after, middle, hrow, hbefore, hb⟩
      cases before with
      | nil =>
        cases hrow
        cases hbefore
        exact .inl hb
      | cons c before =>
        cases hrow
        obtain ⟨s', hs, hrest⟩ := bind_eq_ok_iff.mp hbefore
        exact .inr ⟨s', hs, before, b, after, middle, rfl, hrest, hb⟩

/-- Folds from states that show the same, by steps that keep it so, end alike. -/
theorem foldlM_congr {view : σ → τ}
    (alike : ∀ s t a, view s = view t → view <$> step s a = view <$> step t a) (row : List α)
    {s t : σ} (h : view s = view t) :
    view <$> row.foldlM step s = view <$> row.foldlM step t := by
  induction row generalizing s t with
  | nil => exact congrArg Except.ok h
  | cons a row ih =>
    have hstep := alike s t a h
    rw [List.foldlM_cons, List.foldlM_cons]
    cases hs : step s a with
    | error e =>
      cases ht : step t a with
      | error e' =>
        rw [hs, ht] at hstep
        cases hstep
        rfl
      | ok t' =>
        rw [hs, ht] at hstep
        cases hstep
    | ok s' =>
      cases ht : step t a with
      | error e' =>
        rw [hs, ht] at hstep
        cases hstep
      | ok t' =>
        rw [hs, ht] at hstep
        exact ih (Except.ok.inj hstep)

end Folds

end Colourway
