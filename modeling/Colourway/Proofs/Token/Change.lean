import Colourway.Proofs.Token.Operations

/-!
# Changing some tokens only

`ChangesOnly allowed old new` says what a later store may differ in from an earlier one when only
the tokens satisfying `allowed` were changed: no token ever changes its name, kind, raw value,
scope or the number of its trail, the other tokens and their trails stand as they did, and a key
leads where it led before or to a token made since.  Every store operation on allowed tokens keeps
to it (`ChangesOnly.add`, `ChangesOnly.update`, `ChangesOnly.addTrail`), and it composes
(`ChangesOnly.trans`).
-/

namespace Colourway

namespace Store

/-- The later store comes from the earlier one by changes to allowed tokens and by new tokens. -/
structure ChangesOnly (allowed : TokenId → Prop) (old new : Store) : Prop where
  /-- Tokens are only ever added. -/
  tokens_le : old.tokens.size ≤ new.tokens.size
  /-- Trails are only ever added. -/
  trails_le : old.trails.size ≤ new.trails.size
  /-- A token keeps what it keeps for good. -/
  identity : ∀ {t}, t < old.tokens.size → (new.token t).identity = (old.token t).identity
  /-- A token that may not be changed is the same. -/
  kept : ∀ {t}, t < old.tokens.size → ¬ allowed t → new.token t = old.token t
  /-- A trail of no token that may be changed has the same steps. -/
  trail : ∀ {i}, i < old.trails.size →
    (∀ t, t < old.tokens.size → allowed t → (old.token t).trail ≠ i) →
    new.trails.getD i [] = old.trails.getD i []
  /-- A new token has a new trail. -/
  fresh : ∀ {t}, old.tokens.size ≤ t → t < new.tokens.size →
    old.trails.size ≤ (new.token t).trail
  /-- A key leads where it led before, or to a new token. -/
  found : ∀ {key t}, new.find? key = some t → old.find? key = some t ∨ old.tokens.size ≤ t

variable {allowed : TokenId → Prop}

namespace ChangesOnly

theorem refl (s : Store) : ChangesOnly allowed s s where
  tokens_le := Nat.le_refl _
  trails_le := Nat.le_refl _
  identity _ := rfl
  kept _ _ := rfl
  trail _ _ := rfl
  fresh h₁ h₂ := absurd h₁ (Nat.not_le_of_lt h₂)
  found h := Or.inl h

theorem trail_eq {a b : Store} (h : ChangesOnly allowed a b) {t : TokenId}
    (ht : t < a.tokens.size) : (b.token t).trail = (a.token t).trail :=
  Token.trail_of_identity (h.identity ht)

theorem trans {a b c : Store} (h₁ : ChangesOnly allowed a b) (h₂ : ChangesOnly allowed b c) :
    ChangesOnly allowed a c := by
  have inB : ∀ {t}, t < a.tokens.size → t < b.tokens.size :=
    fun ht => Nat.lt_of_lt_of_le ht h₁.tokens_le
  refine ⟨Nat.le_trans h₁.tokens_le h₂.tokens_le, Nat.le_trans h₁.trails_le h₂.trails_le,
    ?_, ?_, ?_, ?_, ?_⟩
  · intro t ht
    rw [h₂.identity (inB ht), h₁.identity ht]
  · intro t ht hna
    rw [h₂.kept (inB ht) hna, h₁.kept ht hna]
  · intro i hi hno
    have hnoB : ∀ t, t < b.tokens.size → allowed t → (b.token t).trail ≠ i := by
      intro t ht ha
      rcases Nat.lt_or_ge t a.tokens.size with hta | hta
      · rw [h₁.trail_eq hta]
        exact hno t hta ha
      · exact Nat.ne_of_gt (Nat.lt_of_lt_of_le hi (h₁.fresh hta ht))
    rw [h₂.trail (Nat.lt_of_lt_of_le hi h₁.trails_le) hnoB, h₁.trail hi hno]
  · intro t ht htc
    rcases Nat.lt_or_ge t b.tokens.size with htb | htb
    · rw [h₂.trail_eq htb]
      exact h₁.fresh ht htb
    · exact Nat.le_trans h₁.trails_le (h₂.fresh htb htc)
  · intro key t h
    rcases h₂.found h with hb | hb
    · exact h₁.found hb
    · exact Or.inr (Nat.le_trans h₁.tokens_le hb)

/-- What changes only some tokens changes only more tokens. -/
theorem mono {wider : TokenId → Prop} {a b : Store} (h : ChangesOnly allowed a b)
    (hw : ∀ t, allowed t → wider t) : ChangesOnly wider a b where
  tokens_le := h.tokens_le
  trails_le := h.trails_le
  identity := h.identity
  kept ht hna := h.kept ht fun ha => hna (hw _ ha)
  trail hi hno := h.trail hi fun t ht ha => hno t ht (hw t ha)
  fresh := h.fresh
  found := h.found

/-- Changing an allowed token in what tokens may change. -/
theorem update (s : Store) {t : TokenId} (ht : allowed t) {f : Token → Token}
    (keeps : ∀ x : Token, (f x).identity = x.identity) : ChangesOnly allowed s (s.update t f) where
  tokens_le := Nat.le_of_eq (size_update s t f).symm
  trails_le := Nat.le_refl _
  identity _ := token_update_congr Token.identity keeps s t _
  kept {u} _ hu := token_update_of_ne (fun h => hu (by rw [h]; exact ht)) f
  trail _ _ := rfl
  fresh h₁ h₂ := absurd h₁ (Nat.not_le_of_lt (by simpa using h₂))
  found h := Or.inl h

/-- Appending to the trail of an allowed token. -/
theorem addTrail (s : Store) {t : TokenId} (ht : allowed t) (inside : t < s.tokens.size)
    (steps : List TokenId) : ChangesOnly allowed s (s.addTrail t steps) where
  tokens_le := Nat.le_refl _
  trails_le := Nat.le_of_eq (trails_size_addTrail s t steps).symm
  identity _ := rfl
  kept _ _ := rfl
  trail _ hno := trails_addTrail_of_ne (hno t inside ht) steps
  fresh h₁ h₂ := absurd h₁ (Nat.not_le_of_lt h₂)
  found h := Or.inl h

theorem create (s : Store) (d : Draft) : ChangesOnly allowed s (s.create d).1 := by
  have hold : ∀ {t}, t < s.tokens.size → (s.create d).1.token t = s.token t :=
    fun h => token_create_of_ne (Nat.ne_of_lt h)
  refine ⟨by simp, by simp, ?_, ?_, ?_, ?_, fun h => Or.inl h⟩
  · intro t ht
    rw [hold ht]
  · intro t ht _
    exact hold ht
  · intro i hi _
    exact trails_create hi
  · intro t ht htn
    rw [size_create] at htn
    have hnew : t = s.tokens.size := by omega
    subst hnew
    exact Nat.le_of_eq (congrArg (fun x : Token => x.trail) (token_create_self s d)).symm

theorem installed (s : Store) (d : Draft) : ChangesOnly allowed s (s.installed d) := by
  have h : ChangesOnly allowed s (s.create d).1 := create s d
  refine ⟨h.tokens_le, h.trails_le, h.identity, h.kept, h.trail, h.fresh, ?_⟩
  intro key t hk
  rw [find?_installed] at hk
  split at hk
  · cases hk
    exact Or.inr (Nat.le_refl _)
  · exact Or.inl hk

/-- Adding a draft, when the token that it may be written into is allowed. -/
theorem add (s : Store) (d : Draft)
    (merge : ∀ old, s.find? d.name = some old → ((s.create d).1.token old).kind = d.kind →
      ((s.create d).1.token old).scope = d.scope → allowed old) :
    ChangesOnly allowed s (s.add d).1 := by
  rcases add_cases s d with ⟨old, hf, hk, hsc, h⟩ | ⟨-, h⟩
  · rw [h]
    exact (create s d).trans (update _ (merge old hf hk hsc) fun _ => rfl)
  · rw [h]
    exact installed s d

end ChangesOnly

/-- Adding a draft never changes what a token keeps for good. -/
theorem identity_add {s : Store} {t : TokenId} (ht : t < s.tokens.size) (d : Draft) :
    ((s.add d).1.token t).identity = (s.token t).identity := by
  have h : ChangesOnly (fun _ => True) s (s.add d).1 :=
    ChangesOnly.add s d fun _ _ _ _ => trivial
  exact h.identity ht

end Store

end Colourway
