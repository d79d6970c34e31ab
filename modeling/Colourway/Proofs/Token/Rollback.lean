import Colourway.Proofs.Token.Change

/-!
# Checkpoints undo what happened since

A checkpoint copies the trails of the tokens under the keys; a rollback gives the tokens their
values, dependencies, ascriptions and these copies back.  Main statement: if only tokens under a
key, and tokens made since, were changed, then rolling back restores the keys and every token that
there was, its trail included (`rollback_restores`).  The store stays sound (`Sound.rollback`).
-/

namespace Colourway

/-- A token with what was saved given back. -/
def SavedToken.giveBack (saved : SavedToken) (t : Token) : Token :=
  { t with
    value := saved.value
    dependency := saved.dependency
    parent := saved.parent
    trail := saved.trail }

namespace Store

/-! ## What a checkpoint saves -/

/-- `saved` holds what the store says of a token, with a copy of its trail that `after` holds. -/
structure Saves (s after : Store) (saved : SavedToken) : Prop where
  /-- The value is saved. -/
  value : saved.value = (s.token saved.token).value
  /-- The dependency is saved. -/
  dependency : saved.dependency = (s.token saved.token).dependency
  /-- The ascription is saved. -/
  parent : saved.parent = (s.token saved.token).parent
  /-- The copy is a trail made since. -/
  trail_ge : s.trails.size ≤ saved.trail
  /-- The copy has been made. -/
  trail_lt : saved.trail < after.trails.size
  /-- The copy lists what the trail lists. -/
  copied : saved.token < s.tokens.size → after.trails.getD saved.trail [] = s.trailOf saved.token

theorem trails_size_save (s : Store) (t : TokenId) :
    (s.save t).1.trails.size = s.trails.size + 1 := by
  simp [save]

theorem Sound.save {s : Store} (hs : s.Sound) (t : TokenId) : (s.save t).1.Sound where
  key_inside h := hs.key_inside h
  trail_inside h := by
    rw [trails_size_save]
    exact Nat.lt_succ_of_lt (hs.trail_inside h)
  unshared h₁ h₂ h := hs.unshared h₁ h₂ h

/-- Saving tokens changes no token and no key, and keeps the trails that there are. -/
theorem saveAll_keeps (ts : List TokenId) : ∀ s : Store,
    (s.saveAll ts).1.tokens = s.tokens ∧ (s.saveAll ts).1.index = s.index ∧
    s.trails.size ≤ (s.saveAll ts).1.trails.size ∧
    ∀ i, i < s.trails.size → (s.saveAll ts).1.trails.getD i [] = s.trails.getD i [] := by
  induction ts with
  | nil => exact fun s => ⟨rfl, rfl, Nat.le_refl _, fun _ _ => rfl⟩
  | cons t rest ih =>
    intro s
    obtain ⟨htok, hidx, hle, htr⟩ := ih (s.save t).1
    have hsize := trails_size_save s t
    refine ⟨htok, hidx, ?_, ?_⟩
    · exact Nat.le_trans (Nat.le_of_lt (by omega)) hle
    · intro i hi
      have hold : (s.save t).1.trails.getD i [] = s.trails.getD i [] := by
        simp [save, Array.getD_eq_getD_getElem?, Array.getElem?_push, Nat.ne_of_lt hi]
      exact (htr i (by omega)).trans hold

theorem saveAll_tokens (ts : List TokenId) : ∀ s : Store,
    (s.saveAll ts).2.map SavedToken.token = ts := by
  induction ts with
  | nil => exact fun _ => rfl
  | cons t rest ih => exact fun s => congrArg (t :: ·) (ih (s.save t).1)

/-- Everything that is saved is what the store says of the token. -/
theorem saves_of_mem_saveAll (ts : List TokenId) : ∀ {s : Store}, s.Sound →
    ∀ saved ∈ (s.saveAll ts).2, Saves s (s.saveAll ts).1 saved := by
  induction ts with
  | nil => exact fun _ saved h => absurd h List.not_mem_nil
  | cons t rest ih =>
    intro s hs saved hmem
    obtain ⟨htok, -, hle, htr⟩ := saveAll_keeps rest (s.save t).1
    have hsize := trails_size_save s t
    rcases List.mem_cons.1 hmem with rfl | hmem
    · have hlt : s.trails.size < (s.save t).1.trails.size := by omega
      refine ⟨rfl, rfl, rfl, Nat.le_refl _, Nat.lt_of_lt_of_le hlt hle, ?_⟩
      intro _
      refine (htr s.trails.size hlt).trans ?_
      simp [save, Array.getD_eq_getD_getElem?]
    · have h := ih (hs.save t) saved hmem
      refine ⟨h.value, h.dependency, h.parent, Nat.le_trans (by omega) h.trail_ge, h.trail_lt, ?_⟩
      intro hin
      refine (h.copied hin).trans ?_
      have hlt : (s.token saved.token).trail < s.trails.size := hs.trail_inside hin
      show (s.save t).1.trails.getD (s.token saved.token).trail [] = _
      simp [save, trailOf, Array.getD_eq_getD_getElem?, Array.getElem?_push, Nat.ne_of_lt hlt]

/-! ## Rolling back -/

theorem restore_eq (s : Store) (saved : SavedToken) :
    s.restore saved = s.update saved.token saved.giveBack := rfl

/-- Restoring changes tokens only. -/
theorem restoreAll_keeps (all : List SavedToken) : ∀ s : Store,
    (all.foldl restore s).tokens.size = s.tokens.size ∧
    (all.foldl restore s).trails = s.trails ∧ (all.foldl restore s).index = s.index := by
  induction all with
  | nil => exact fun _ => ⟨rfl, rfl, rfl⟩
  | cons saved rest ih =>
    intro s
    obtain ⟨hsize, htrails, hindex⟩ := ih (s.restore saved)
    exact ⟨hsize.trans (size_update _ _ _), htrails, hindex⟩

/-- A token that was not saved stays as it is. -/
theorem token_restoreAll_of_not_mem {t : TokenId} (all : List SavedToken) : ∀ s : Store,
    t ∉ all.map SavedToken.token → (all.foldl restore s).token t = s.token t := by
  induction all with
  | nil => exact fun _ _ => rfl
  | cons saved rest ih =>
    intro s hnot
    rw [List.map_cons, List.mem_cons, not_or] at hnot
    rw [List.foldl_cons, ih _ hnot.2, restore_eq, token_update_of_ne hnot.1]

/-- A token that was saved is given back what one of its records says. -/
theorem token_restoreAll_of_mem {t : TokenId} (all : List SavedToken) : ∀ s : Store,
    t < s.tokens.size → t ∈ all.map SavedToken.token →
    ∃ saved ∈ all, saved.token = t ∧
      (all.foldl restore s).token t = saved.giveBack (s.token t) := by
  induction all with
  | nil => exact fun _ _ h => absurd h List.not_mem_nil
  | cons saved rest ih =>
    intro s ht hmem
    have hagain : ∀ later : SavedToken,
        later.giveBack ((s.restore saved).token t) = later.giveBack (s.token t) := by
      intro later
      by_cases h : t = saved.token
      · rw [restore_eq, h, token_update_self (by rw [← h]; exact ht)]
        rfl
      · rw [restore_eq, token_update_of_ne h]
    by_cases hrest : t ∈ rest.map SavedToken.token
    · obtain ⟨later, hl, htok, heq⟩ := ih (s.restore saved) (by simpa [restore_eq] using ht) hrest
      exact ⟨later, List.mem_cons_of_mem _ hl, htok, by rw [List.foldl_cons, heq, hagain]⟩
    · have hself : t = saved.token := by
        rcases List.mem_cons.1 hmem with h | h
        · exact h
        · exact absurd h hrest
      refine ⟨saved, List.mem_cons_self, hself.symm, ?_⟩
      rw [List.foldl_cons, token_restoreAll_of_not_mem rest _ hrest, restore_eq, hself,
        token_update_self (by rw [← hself]; exact ht)]

@[simp] theorem size_rollback (s : Store) (c : Checkpoint) :
    (s.rollback c).tokens.size = s.tokens.size :=
  (restoreAll_keeps c.saved { s with index := c.index }).1

@[simp] theorem trails_rollback (s : Store) (c : Checkpoint) : (s.rollback c).trails = s.trails :=
  (restoreAll_keeps c.saved { s with index := c.index }).2.1

@[simp] theorem index_rollback (s : Store) (c : Checkpoint) : (s.rollback c).index = c.index :=
  (restoreAll_keeps c.saved { s with index := c.index }).2.2

/-- A token is given back its record, or stays as it is if it has none. -/
theorem token_rollback {s : Store} (c : Checkpoint) {t : TokenId} (ht : t < s.tokens.size) :
    (∃ saved ∈ c.saved, saved.token = t ∧ (s.rollback c).token t = saved.giveBack (s.token t)) ∨
    (t ∉ c.saved.map SavedToken.token ∧ (s.rollback c).token t = s.token t) := by
  by_cases hmem : t ∈ c.saved.map SavedToken.token
  · exact Or.inl (token_restoreAll_of_mem c.saved { s with index := c.index } ht hmem)
  · exact Or.inr ⟨hmem, token_restoreAll_of_not_mem c.saved { s with index := c.index } hmem⟩

theorem name_rollback {s : Store} (c : Checkpoint) {t : TokenId} (ht : t < s.tokens.size) :
    ((s.rollback c).token t).name = (s.token t).name := by
  rcases token_rollback c ht with ⟨saved, -, -, h⟩ | ⟨-, h⟩ <;> rw [h]
  rfl

/-- Copies made for different tokens are different trails. -/
theorem saveAll_copies_unshared (ts : List TokenId) : ∀ {s : Store}, s.Sound →
    ∀ a ∈ (s.saveAll ts).2, ∀ b ∈ (s.saveAll ts).2, a.trail = b.trail → a.token = b.token := by
  induction ts with
  | nil => exact fun _ a h => absurd h List.not_mem_nil
  | cons t rest ih =>
    intro s hs a ha b hb h
    have hsize := trails_size_save s t
    have hge : ∀ c ∈ ((s.save t).1.saveAll rest).2, s.trails.size < c.trail := by
      intro c hc
      have := (saves_of_mem_saveAll rest (hs.save t) c hc).trail_ge
      omega
    rcases List.mem_cons.1 ha with rfl | ha <;> rcases List.mem_cons.1 hb with rfl | hb
    · rfl
    · exact absurd h (Nat.ne_of_lt (hge b hb))
    · exact absurd h.symm (Nat.ne_of_lt (hge a ha))
    · exact ih (hs.save t) a ha b hb h

/-- What a checkpoint holds of the tokens under the keys, one record each. -/
theorem checkpoint_saved (s : Store) : s.checkpoint.2.saved.map SavedToken.token = s.ids :=
  saveAll_tokens s.ids s

/-- Taking a checkpoint changes no token. -/
theorem token_checkpoint (s : Store) (t : TokenId) : s.checkpoint.1.token t = s.token t :=
  congrArg (fun ts : Array Token => ts.getD t default) (saveAll_keeps s.ids s).1

theorem size_checkpoint (s : Store) : s.checkpoint.1.tokens.size = s.tokens.size :=
  congrArg Array.size (saveAll_keeps s.ids s).1

theorem find?_checkpoint (s : Store) (key : Text) : s.checkpoint.1.find? key = s.find? key :=
  congrArg (Assoc.get? key) (saveAll_keeps s.ids s).2.1

theorem Named.checkpoint {s : Store} (hn : s.Named) : s.checkpoint.1.Named := by
  intro key t h
  rw [find?_checkpoint] at h
  rw [token_checkpoint]
  exact hn _ _ h

theorem Sound.checkpoint {s : Store} (hs : s.Sound) : s.checkpoint.1.Sound where
  key_inside h := by
    rw [find?_checkpoint] at h
    rw [size_checkpoint]
    exact hs.key_inside h
  trail_inside h := by
    rw [size_checkpoint] at h
    rw [token_checkpoint]
    exact Nat.lt_of_lt_of_le (hs.trail_inside h) (saveAll_keeps s.ids s).2.2.1
  unshared h₁ h₂ h := by
    rw [size_checkpoint] at h₁ h₂
    rw [token_checkpoint, token_checkpoint] at h
    exact hs.unshared h₁ h₂ h

/-- The trail of a token after rolling back: the copy, for a token that was saved, else the one
that it had. -/
theorem trail_rollback (s : Store) {after : Store} {t : TokenId} (ht : t < after.tokens.size) :
    (∃ saved ∈ s.checkpoint.2.saved, saved.token = t ∧
      ((after.rollback s.checkpoint.2).token t).trail = saved.trail) ∨
    (t ∉ s.ids ∧ ((after.rollback s.checkpoint.2).token t).trail = (after.token t).trail) := by
  rcases token_rollback s.checkpoint.2 ht with ⟨saved, hmem, htok, hback⟩ | ⟨hnone, hback⟩
  · exact Or.inl ⟨saved, hmem, htok, congrArg Token.trail hback⟩
  · rw [checkpoint_saved] at hnone
    exact Or.inr ⟨hnone, congrArg Token.trail hback⟩

/-! ## The tokens that rolling back may meet -/

/-- The tokens that a rollback to a checkpoint of `s` brings back, or that it may leave as they
are: those under a key of `s`, and those made since. -/
def Undoable (s : Store) (t : TokenId) : Prop := t ∈ s.ids ∨ s.tokens.size ≤ t

theorem undoable_checkpoint (s : Store) (t : TokenId) :
    s.checkpoint.1.Undoable t ↔ s.Undoable t := by
  have hids : s.checkpoint.1.ids = s.ids :=
    congrArg (List.map Prod.snd) (saveAll_keeps s.ids s).2.1
  rw [Undoable, Undoable, size_checkpoint, hids]

section Rollback

variable {s after : Store} (hs : s.Sound) (h : ChangesOnly s.Undoable s.checkpoint.1 after)
include hs h

/-- A token under a key is given back its value, dependency, ascription and trail. -/
theorem token_rollback_of_mem {t : TokenId} (ht : t < s.tokens.size) (hid : t ∈ s.ids) :
    ((after.rollback s.checkpoint.2).token t).toDraft = (s.token t).toDraft ∧
    (after.rollback s.checkpoint.2).trailOf t = s.trailOf t := by
  have hstart : t < s.checkpoint.1.tokens.size := by rw [size_checkpoint]; exact ht
  obtain ⟨saved, hmem, rfl, hback⟩ := token_restoreAll_of_mem s.checkpoint.2.saved
    { after with index := s.index } (Nat.lt_of_lt_of_le hstart h.tokens_le)
    (by rw [checkpoint_saved]; exact hid)
  have hsaves := saves_of_mem_saveAll s.ids hs saved hmem
  have hid := h.identity hstart
  rw [token_checkpoint] at hid
  simp only [Token.identity, Prod.mk.injEq] at hid
  obtain ⟨hname, hkind, hraw, hscope, -⟩ := hid
  constructor
  · refine (congrArg Token.toDraft hback).trans ?_
    show Draft.mk (after.token saved.token).name (after.token saved.token).kind
      (after.token saved.token).raw saved.value (after.token saved.token).scope
      saved.dependency saved.parent = _
    rw [hname, hkind, hraw, hscope, hsaves.value, hsaves.dependency, hsaves.parent]
  · have htrail : ((after.rollback s.checkpoint.2).token saved.token).trail = saved.trail :=
      congrArg (fun x : Token => x.trail) hback
    rw [trailOf, htrail]
    show (s.checkpoint.2.saved.foldl restore { after with index := s.index }).trails.getD _ _ = _
    rw [(restoreAll_keeps _ _).2.1, ← hsaves.copied ht]
    -- The copy is the trail of no token, so nothing was appended to it.
    refine h.trail hsaves.trail_lt ?_
    intro u hu _ heq
    rw [token_checkpoint] at heq
    rw [size_checkpoint] at hu
    exact absurd heq (Nat.ne_of_lt (Nat.lt_of_lt_of_le (hs.trail_inside hu) hsaves.trail_ge))

/-- A token that had lost its key before was not changed at all. -/
theorem token_rollback_of_not_mem {t : TokenId} (ht : t < s.tokens.size) (hid : t ∉ s.ids) :
    (after.rollback s.checkpoint.2).token t = s.token t ∧
    (after.rollback s.checkpoint.2).trailOf t = s.trailOf t := by
  have hstart : t < s.checkpoint.1.tokens.size := by rw [size_checkpoint]; exact ht
  have hnot : ¬ s.Undoable t := by
    rintro (hmem | hge)
    · exact hid hmem
    · exact Nat.not_le_of_lt ht hge
  have htok : (after.rollback s.checkpoint.2).token t = s.token t := by
    refine (token_restoreAll_of_not_mem _ _ (by rw [checkpoint_saved]; exact hid)).trans ?_
    exact (h.kept hstart hnot).trans (token_checkpoint s t)
  refine ⟨htok, ?_⟩
  rw [trailOf, htok]
  show (s.checkpoint.2.saved.foldl restore { after with index := s.index }).trails.getD _ _ = _
  rw [(restoreAll_keeps _ _).2.1]
  obtain ⟨-, -, hle, hcopy⟩ := saveAll_keeps s.ids s
  have hold := hcopy _ (hs.trail_inside ht)
  refine (h.trail (Nat.lt_of_lt_of_le (hs.trail_inside ht) hle) ?_).trans hold
  -- Another token's trail is another one.
  intro u hu hallowed heq
  rw [token_checkpoint] at heq
  rw [size_checkpoint] at hu
  exact hnot (hs.unshared hu ht heq ▸ hallowed)

/-- **Rolling back restores the store.**  The keys lead to the same tokens in the same order, and
every token that there was says what it said, its trail included. -/
theorem rollback_restores :
    (after.rollback s.checkpoint.2).index = s.index ∧
    ∀ t, t < s.tokens.size →
      ((after.rollback s.checkpoint.2).token t).toDraft = (s.token t).toDraft ∧
      (after.rollback s.checkpoint.2).trailOf t = s.trailOf t := by
  refine ⟨(restoreAll_keeps _ _).2.2, ?_⟩
  intro t ht
  by_cases hid : t ∈ s.ids
  · exact token_rollback_of_mem hs h ht hid
  · obtain ⟨htok, htrail⟩ := token_rollback_of_not_mem hs h ht hid
    exact ⟨congrArg Token.toDraft htok, htrail⟩

/-- Keys that were names are names again. -/
theorem Named.rollback (hn : s.Named) : (after.rollback s.checkpoint.2).Named := by
  intro key t hk
  obtain ⟨hindex, htokens⟩ := rollback_restores hs h
  have hold : s.find? key = some t := by
    rw [find?, ← hindex]
    exact hk
  exact (congrArg Draft.name (htokens t (hs.key_inside hold)).1).trans (hn _ _ hold)

/-- The copies are the trails of no other token. -/
theorem trail_ne_copy {t : TokenId} (ht : t < after.tokens.size) {saved : SavedToken}
    (hmem : saved ∈ s.checkpoint.2.saved) : (after.token t).trail ≠ saved.trail := by
  have hsaves := saves_of_mem_saveAll s.ids hs saved hmem
  rcases Nat.lt_or_ge t s.checkpoint.1.tokens.size with hold | hnew
  · rw [h.trail_eq hold, token_checkpoint]
    rw [size_checkpoint] at hold
    exact Nat.ne_of_lt (Nat.lt_of_lt_of_le (hs.trail_inside hold) hsaves.trail_ge)
  · exact Nat.ne_of_gt (Nat.lt_of_lt_of_le hsaves.trail_lt (h.fresh hnew ht))

/-- A store that is rolled back is sound. -/
theorem Sound.rollback (ha : after.Sound) : (after.rollback s.checkpoint.2).Sound := by
  obtain ⟨hsize, htrails, hindex⟩ :=
    restoreAll_keeps s.checkpoint.2.saved { after with index := s.index }
  have hinside : ∀ {t}, t < (after.rollback s.checkpoint.2).tokens.size → t < after.tokens.size :=
    fun ht => Nat.lt_of_lt_of_le ht (Nat.le_of_eq hsize)
  refine ⟨?_, ?_, ?_⟩
  · intro key t hk
    have hold : s.find? key = some t := by
      rw [find?, ← hindex]
      exact hk
    refine Nat.lt_of_lt_of_le ?_ (Nat.le_of_eq hsize.symm)
    refine Nat.lt_of_lt_of_le ?_ h.tokens_le
    rw [size_checkpoint]
    exact hs.key_inside hold
  · intro t ht
    refine Nat.lt_of_lt_of_le ?_ (Nat.le_of_eq (congrArg Array.size htrails.symm))
    rcases trail_rollback s (hinside ht) with ⟨saved, hmem, -, htrail⟩ | ⟨-, htrail⟩
    · rw [htrail]
      exact Nat.lt_of_lt_of_le (saves_of_mem_saveAll s.ids hs saved hmem).trail_lt h.trails_le
    · rw [htrail]
      exact ha.trail_inside (hinside ht)
  · intro t u ht hu heq
    have ht' := hinside ht
    have hu' := hinside hu
    rcases trail_rollback s ht' with ⟨a, hma, rfl, hta⟩ | ⟨-, hta⟩ <;>
      rcases trail_rollback s hu' with ⟨b, hmb, rfl, htb⟩ | ⟨-, htb⟩ <;>
      rw [hta, htb] at heq
    · exact saveAll_copies_unshared s.ids hs a hma b hmb heq
    · exact absurd heq.symm (trail_ne_copy hs h hu' hma)
    · exact absurd heq (trail_ne_copy hs h ht' hmb)
    · exact ha.unshared ht' hu' heq

end Rollback

end Store

end Colourway
