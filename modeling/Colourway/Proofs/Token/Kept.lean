import Colourway.Proofs.Token.Rollback
import Mathlib.Data.List.Nodup

/-!
# Checkpoints that were taken of a store

`Store.Keeps` says of a checkpoint that it was taken of the store at an earlier time, whatever has
been done to the store since: its keys are names of tokens, and the copies of trails that it holds
are written to by no token but the one that each was made for.  A checkpoint that is taken is kept
(`keeps_checkpoint`), changes of the store keep it (`Keeps.later`), and the store is sound after
rolling back to it (`Keeps.sound_rollback`).
-/

namespace Colourway

namespace Store

/-- The checkpoint was taken of the store at an earlier time: its keys are names of tokens, and the
copies that it holds are trails that no other token writes to. -/
structure Keeps (s : Store) (c : Checkpoint) : Prop where
  /-- There is a record for each token under a key. -/
  tokens : c.saved.map SavedToken.token = c.index.map Prod.snd
  /-- The keys are different. -/
  once : (Assoc.keys c.index).Nodup
  /-- They lead to tokens that have been made. -/
  inside : ∀ p ∈ c.index, p.2 < s.tokens.size
  /-- They are the names of these. -/
  named : ∀ p ∈ c.index, (s.token p.2).name = p.1
  /-- The copies have been made. -/
  copy_inside : ∀ saved ∈ c.saved, saved.trail < s.trails.size
  /-- Only the token that a copy was made for may write to it. -/
  owned : ∀ saved ∈ c.saved, ∀ t, t < s.tokens.size →
    (s.token t).trail = saved.trail → t = saved.token

namespace Keeps

variable {s : Store} {c : Checkpoint}

/-- Each token is saved once. -/
theorem nodup (h : s.Keeps c) : (c.saved.map SavedToken.token).Nodup := by
  rw [h.tokens]
  refine List.Nodup.map_on (fun p hp q hq heq => ?_) (List.Nodup.of_map _ h.once)
  have hname : p.1 = q.1 := by rw [← h.named p hp, ← h.named q hq, heq]
  exact Prod.ext hname heq

theorem saved_inside (h : s.Keeps c) {saved : SavedToken} (hsaved : saved ∈ c.saved) :
    saved.token < s.tokens.size := by
  have hmem : saved.token ∈ c.index.map Prod.snd := h.tokens ▸ List.mem_map_of_mem hsaved
  obtain ⟨p, hp, heq⟩ := List.mem_map.mp hmem
  exact heq ▸ h.inside p hp

/-- A later store keeps the checkpoint if names stay and no other token gets a copy. -/
theorem later (h : s.Keeps c) {s' : Store} (tokens_le : s.tokens.size ≤ s'.tokens.size)
    (trails_le : s.trails.size ≤ s'.trails.size)
    (names : ∀ t, t < s.tokens.size → (s'.token t).name = (s.token t).name)
    (owned : ∀ saved ∈ c.saved, ∀ t, t < s'.tokens.size →
      (s'.token t).trail = saved.trail → t = saved.token) : s'.Keeps c where
  tokens := h.tokens
  once := h.once
  inside p hp := Nat.lt_of_lt_of_le (h.inside p hp) tokens_le
  named p hp := (names _ (h.inside p hp)).trans (h.named p hp)
  copy_inside saved hsaved := Nat.lt_of_lt_of_le (h.copy_inside saved hsaved) trails_le
  owned := owned

/-- Changes of tokens and new tokens leave the checkpoint alone. -/
theorem changes (h : s.Keeps c) {allowed : TokenId → Prop} {s' : Store}
    (hs : ChangesOnly allowed s s') : s'.Keeps c := by
  refine h.later hs.tokens_le hs.trails_le (fun t ht => Token.name_of_identity (hs.identity ht)) ?_
  intro saved hsaved t ht heq
  rcases Nat.lt_or_ge t s.tokens.size with hold | hnew
  · exact h.owned saved hsaved t hold ((hs.trail_eq hold).symm.trans heq)
  · have hnew := Nat.lt_of_lt_of_le (h.copy_inside saved hsaved) (hs.fresh hnew ht)
    exact absurd heq (Nat.ne_of_gt hnew)

/-- So do other keys and other trails. -/
theorem congr (h : s.Keeps c) {s' : Store} (tokens : s'.tokens = s.tokens)
    (trails_le : s.trails.size ≤ s'.trails.size) : s'.Keeps c := by
  have htoken : ∀ t, s'.token t = s.token t := fun t => by rw [token, token, tokens]
  refine h.later (Nat.le_of_eq (congrArg Array.size tokens).symm) trails_le ?_ ?_
  · exact fun t _ => by rw [htoken]
  · intro saved hsaved t ht heq
    rw [htoken] at heq
    exact h.owned saved hsaved t (tokens ▸ ht) heq

/-- The keys after rolling back are those of the checkpoint. -/
theorem mem_of_find?_rollback {key : Text} {t : TokenId}
    (hk : (s.rollback c).find? key = some t) : (key, t) ∈ c.index := by
  rw [find?, index_rollback] at hk
  exact Assoc.pair_mem_of_get? hk

/-- Rolling back to a checkpoint whose copies are different trails leaves the store sound. -/
theorem sound_rollback (h : s.Keeps c) (hs : s.Sound)
    (unshared : ∀ a ∈ c.saved, ∀ b ∈ c.saved, a.trail = b.trail → a.token = b.token) :
    (s.rollback c).Sound := by
  refine ⟨?_, ?_, ?_⟩
  · intro key t hk
    rw [size_rollback]
    exact h.inside _ (mem_of_find?_rollback hk)
  · intro t ht
    rw [size_rollback] at ht
    rw [trails_rollback]
    rcases token_rollback c ht with ⟨saved, hsaved, -, htoken⟩ | ⟨-, htoken⟩ <;> rw [htoken]
    · exact h.copy_inside saved hsaved
    · exact hs.trail_inside ht
  · intro t u ht hu heq
    rw [size_rollback] at ht hu
    rcases token_rollback c ht with ⟨a, ha, rfl, hta⟩ | ⟨-, hta⟩ <;>
      rcases token_rollback c hu with ⟨b, hb, rfl, htb⟩ | ⟨-, htb⟩ <;>
      rw [hta, htb] at heq
    · exact unshared a ha b hb heq
    · exact (h.owned a ha u hu heq.symm).symm
    · exact h.owned b hb t ht heq
    · exact hs.unshared ht hu heq

/-- Rolling back to a checkpoint leaves the keys names. -/
theorem named_rollback (h : s.Keeps c) : (s.rollback c).Named := by
  intro key t hk
  have hmem := mem_of_find?_rollback hk
  rw [name_rollback c (h.inside _ hmem)]
  exact h.named _ hmem

end Keeps

/-- A store keeps the checkpoint that has just been taken of it. -/
theorem keeps_checkpoint {s : Store} (hs : s.Sound) (hn : s.Named)
    (once : (Assoc.keys s.index).Nodup) : s.checkpoint.1.Keeps s.checkpoint.2 where
  tokens := checkpoint_saved s
  once := once
  inside p hp := by
    rw [size_checkpoint]
    exact hs.key_inside (Assoc.get?_of_pair_mem once hp)
  named p hp := by
    rw [token_checkpoint]
    exact hn _ _ (Assoc.get?_of_pair_mem once hp)
  copy_inside saved hsaved := (saves_of_mem_saveAll s.ids hs saved hsaved).trail_lt
  owned saved hsaved t ht heq := by
    rw [size_checkpoint] at ht
    rw [token_checkpoint] at heq
    have hge := (saves_of_mem_saveAll s.ids hs saved hsaved).trail_ge
    exact absurd heq (Nat.ne_of_lt (Nat.lt_of_lt_of_le (hs.trail_inside ht) hge))

end Store

end Colourway
