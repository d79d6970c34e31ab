import Colourway.Proofs.Token.Kept
import Colourway.Proofs.Token.Trail

/-!
# Sessions with several checkpoints

A session is a store with all checkpoints that were taken of it.  Operations on the store, further
checkpoints and rollbacks to any of them follow one another in any order.

Rolling back hands the copies of a checkpoint to the tokens, so a step that is put on the trail of a
token afterwards is put on the copy too (`Session.lends`).  Apart from these steps a checkpoint stays
as it was taken.

Main statement: rolling back to a checkpoint gives the store its keys and each token under them its
value, dependency and ascription back, and its trail with the steps that were put on the copy
meanwhile, so the very trail if the store was not rolled back to this checkpoint before
(**`Session.rollback_run`**).
-/

namespace Colourway

/-- What can be done to a store. -/
inductive StoreOp where
  /-- Makes a token, under no key yet. -/
  | make (d : Draft)
  /-- Puts a token under its name, with a dependency if one is given. -/
  | register (t : TokenId) (dependency : Option TokenId)
  /-- Appends steps to the trail of a token. -/
  | addTrail (t : TokenId) (steps : List TokenId)
  /-- Sets the value of a token. -/
  | setValue (t : TokenId) (value : Document)
  /-- Sets the dependency of a token. -/
  | setDependency (t : TokenId) (dependency : Option TokenId)
  /-- Sets the entry that a token is ascribed to. -/
  | setParent (t : TokenId) (parent : Option Text)
  /-- Takes a checkpoint. -/
  | checkpoint
  /-- Rolls back to the checkpoint with a number, the first one being number 0. -/
  | rollback (n : Nat)

/-- A store with the checkpoints that were taken of it, in order. -/
structure Session where
  /-- The store. -/
  store : Store := {}
  /-- The checkpoints. -/
  checkpoints : List Checkpoint := []

namespace Session

/-- The session after one operation.  One on a token or checkpoint that is not there does
nothing. -/
def step (s : Session) : StoreOp → Session
  | .make d => { s with store := (s.store.create d).1 }
  | .register t dependency =>
    if t < s.store.tokens.size then { s with store := (s.store.register t dependency).1 } else s
  | .addTrail t steps =>
    if t < s.store.tokens.size then { s with store := s.store.addTrail t steps } else s
  | .setValue t value => { s with store := s.store.setValue t value }
  | .setDependency t dependency => { s with store := s.store.setDependency t dependency }
  | .setParent t parent => { s with store := s.store.setParent t parent }
  | .checkpoint => ⟨s.store.checkpoint.1, s.checkpoints ++ [s.store.checkpoint.2]⟩
  | .rollback n =>
    match s.checkpoints[n]? with
    | some c => { s with store := s.store.rollback c }
    | none => s

theorem step_rollback {s : Session} {n : Nat} {c : Checkpoint} (hc : s.checkpoints[n]? = some c) :
    s.step (.rollback n) = { s with store := s.store.rollback c } := by
  simp only [step, hc]

/-- The session after operations. -/
def run (s : Session) (ops : List StoreOp) : Session := ops.foldl step s

theorem getElem?_concat {α : Type} {items : List α} {last x : α} {i : Nat}
    (h : (items ++ [last])[i]? = some x) :
    items[i]? = some x ∨ (i = items.length ∧ x = last) := by
  rw [List.getElem?_append] at h
  split at h
  · exact Or.inl h
  · next hi =>
    obtain ⟨hlt, hx⟩ := List.getElem?_eq_some_iff.mp h
    have hzero : i - items.length = 0 := by simpa using hlt
    exact Or.inr ⟨by omega, by simpa [hzero] using hx.symm⟩

/-! ## Sound sessions -/

/-- The store is sound, its keys are names, and each of the checkpoints was taken of it, with copies
of its own. -/
structure Sound (s : Session) : Prop where
  /-- The numbers in the store mean something. -/
  store : s.store.Sound
  /-- The keys are names. -/
  named : s.store.Named
  /-- The keys are different. -/
  once : (Assoc.keys s.store.index).Nodup
  /-- The checkpoints were taken of this store. -/
  kept : ∀ c ∈ s.checkpoints, s.store.Keeps c
  /-- A copy belongs to one token and one checkpoint. -/
  apart : ∀ {i j : Nat} {c d : Checkpoint}, s.checkpoints[i]? = some c →
    s.checkpoints[j]? = some d → ∀ a ∈ c.saved, ∀ b ∈ d.saved, a.trail = b.trail →
      i = j ∧ a.token = b.token

theorem sound_empty : Sound {} where
  store := Store.sound_empty
  named := Store.named_empty
  once := by simp [Assoc.keys]
  kept c hc := by cases hc
  apart hc := by cases hc

section Sound

variable {s : Session} (h : s.Sound)
include h

/-- Another store with the same checkpoints. -/
theorem Sound.with_store {store : Store} (sound : store.Sound) (named : store.Named)
    (once : (Assoc.keys store.index).Nodup)
    (kept : ∀ c ∈ s.checkpoints, s.store.Keeps c → store.Keeps c) :
    Sound { s with store := store } where
  store := sound
  named := named
  once := once
  kept c hc := kept c hc (h.kept c hc)
  apart := h.apart

theorem Sound.update (t : TokenId) {f : Token → Token}
    (keeps : ∀ x : Token, (f x).identity = x.identity) :
    Sound { s with store := s.store.update t f } := by
  refine h.with_store (h.store.update t fun x => Token.trail_of_identity (keeps x))
    (h.named.update t fun x => Token.name_of_identity (keeps x)) h.once fun c _ hc => ?_
  have hchanges : Store.ChangesOnly (fun _ => True) s.store (s.store.update t f) :=
    .update s.store trivial keeps
  exact hc.changes hchanges

theorem Sound.make (d : Draft) : Sound { s with store := (s.store.create d).1 } := by
  refine h.with_store (h.store.create d) (h.named.create h.store d) h.once fun c _ hc => ?_
  have hchanges : Store.ChangesOnly (fun _ => True) s.store (s.store.create d).1 :=
    .create s.store d
  exact hc.changes hchanges

theorem Sound.put {t : TokenId} (ht : t < s.store.tokens.size) :
    Sound { s with store :=
      { s.store with index := Assoc.put (s.store.token t).name t s.store.index } } := by
  refine h.with_store (h.store.put ht _) (h.named.put rfl) (Assoc.nodup_keys_put h.once) ?_
  exact fun c _ hc => hc.congr rfl (Nat.le_refl _)

theorem Sound.register {t : TokenId} (ht : t < s.store.tokens.size)
    (dependency : Option TokenId) :
    Sound { s with store := (s.store.register t dependency).1 } := by
  refine (Store.register_kept
    (P := fun store => Sound { s with store := store } ∧ t < store.tokens.size) t ?_ ?_
    ⟨h, ht⟩ dependency).1
  · rintro store u f ⟨hstore, ht⟩ keeps
    exact ⟨hstore.update u keeps, by rwa [Store.size_update]⟩
  · rintro store ⟨hstore, ht⟩
    exact ⟨hstore.put ht, ht⟩

theorem Sound.addTrail (t : TokenId) (steps : List TokenId) :
    Sound { s with store := s.store.addTrail t steps } := by
  refine h.with_store (h.store.addTrail t steps) h.named h.once fun c _ hc => ?_
  exact hc.congr rfl (Nat.le_of_eq (Store.trails_size_addTrail s.store t steps).symm)

/-- A new checkpoint has copies of its own. -/
theorem Sound.checkpoint : Sound (s.step .checkpoint) := by
  have hsaves : ∀ saved ∈ s.store.checkpoint.2.saved,
      Store.Saves s.store s.store.checkpoint.1 saved :=
    Store.saves_of_mem_saveAll s.store.ids h.store
  obtain ⟨htokens, hindex, htrails, -⟩ := Store.saveAll_keeps s.store.ids s.store
  have hindex : s.store.checkpoint.1.index = s.store.index := hindex
  refine ⟨h.store.checkpoint, h.named.checkpoint, hindex ▸ h.once, ?_, ?_⟩
  · intro c hc
    rcases List.mem_append.mp hc with hc | hc
    · exact (h.kept c hc).congr htokens htrails
    · obtain rfl := List.mem_singleton.mp hc
      exact Store.keeps_checkpoint h.store h.named h.once
  · intro i j c d hc hd a ha b hb heq
    have hold : ∀ {c : Checkpoint}, c ∈ s.checkpoints → ∀ a ∈ c.saved,
        ∀ b ∈ s.store.checkpoint.2.saved, a.trail ≠ b.trail := fun hc a ha b hb =>
      Nat.ne_of_lt (Nat.lt_of_lt_of_le ((h.kept _ hc).copy_inside a ha) (hsaves b hb).trail_ge)
    rcases getElem?_concat hc with hc | ⟨rfl, rfl⟩ <;>
      rcases getElem?_concat hd with hd | ⟨rfl, rfl⟩
    · exact h.apart hc hd a ha b hb heq
    · exact absurd heq (hold (List.mem_of_getElem? hc) a ha b hb)
    · exact absurd heq.symm (hold (List.mem_of_getElem? hd) b hb a ha)
    · exact ⟨rfl, Store.saveAll_copies_unshared s.store.ids h.store a ha b hb heq⟩

/-- Rolling back hands copies to the tokens that they were made for. -/
theorem Sound.rollback {c : Checkpoint} (hc : c ∈ s.checkpoints) :
    Sound { s with store := s.store.rollback c } := by
  have hkeeps := h.kept c hc
  obtain ⟨i, hi⟩ := List.mem_iff_getElem?.mp hc
  refine h.with_store (hkeeps.sound_rollback h.store fun a ha b hb heq =>
    (h.apart hi hi a ha b hb heq).2) hkeeps.named_rollback ?_ ?_
  · rw [Store.index_rollback]
    exact hkeeps.once
  · intro d hd hd'
    obtain ⟨j, hj⟩ := List.mem_iff_getElem?.mp hd
    refine hd'.later (Nat.le_of_eq (Store.size_rollback s.store c).symm)
      (Nat.le_of_eq (congrArg Array.size (Store.trails_rollback s.store c)).symm)
      (fun t ht => Store.name_rollback c ht) fun saved hsaved t ht heq => ?_
    rw [Store.size_rollback] at ht
    rcases Store.token_rollback c ht with ⟨a, ha, rfl, htoken⟩ | ⟨-, htoken⟩ <;>
      rw [htoken] at heq
    · exact (h.apart hi hj a ha saved hsaved heq).2
    · exact hd'.owned saved hsaved t ht heq

/-- **Every operation keeps a session sound.** -/
theorem Sound.step (op : StoreOp) : (s.step op).Sound := by
  cases op with
  | make d => exact h.make d
  | register t dependency =>
    rw [Session.step]
    split
    · next ht => exact h.register ht dependency
    · exact h
  | addTrail t steps =>
    rw [Session.step]
    split
    · exact h.addTrail t steps
    · exact h
  | setValue t value => exact h.update t fun _ => rfl
  | setDependency t dependency => exact h.update t fun _ => rfl
  | setParent t parent => exact h.update t fun _ => rfl
  | checkpoint => exact h.checkpoint
  | rollback n =>
    rw [Session.step]
    split
    · next c hc => exact h.rollback (List.mem_of_getElem? hc)
    · exact h

end Sound

theorem Sound.run {s : Session} (h : s.Sound) (ops : List StoreOp) : (s.run ops).Sound := by
  induction ops generalizing s with
  | nil => exact h
  | cons op ops ih => exact ih (h.step op)

/-! ## Copies on loan -/

/-- Whether a token holds the copy of its trail that the checkpoint with a number made. -/
def lends (s : Session) (n : Nat) (t : TokenId) : Bool :=
  s.checkpoints[n]?.any fun c =>
    c.saved.any fun saved => saved.token = t && saved.trail = (s.store.token t).trail

/-- The steps that an operation puts on the copy which the checkpoint with a number has of the trail
of a token. -/
def stepsOn (n : Nat) (t : TokenId) (s : Session) : StoreOp → List TokenId
  | .addTrail u steps => if u = t ∧ s.lends n t then steps else []
  | _ => []

/-- The steps that operations put on this copy, in order. -/
def stepsOnLoan (n : Nat) (t : TokenId) (s : Session) : List StoreOp → List TokenId
  | [] => []
  | op :: ops => s.stepsOn n t op ++ stepsOnLoan n t (s.step op) ops

theorem lends_iff {s : Session} {n : Nat} {c : Checkpoint} (hc : s.checkpoints[n]? = some c)
    {t : TokenId} : s.lends n t = true ↔
      ∃ saved ∈ c.saved, saved.token = t ∧ saved.trail = (s.store.token t).trail := by
  simp [lends, hc]

/-- Checkpoints stay where they are. -/
theorem getElem?_checkpoints_step {s : Session} {n : Nat} {c : Checkpoint}
    (hc : s.checkpoints[n]? = some c) (op : StoreOp) : (s.step op).checkpoints[n]? = some c := by
  cases op with
  | checkpoint =>
    show (s.checkpoints ++ [s.store.checkpoint.2])[n]? = some c
    rw [List.getElem?_append_left (List.getElem?_eq_some_iff.mp hc).1, hc]
  | register t dependency =>
    rw [step]
    split <;> exact hc
  | addTrail t steps =>
    rw [step]
    split <;> exact hc
  | rollback m =>
    rw [step]
    split <;> exact hc
  | make d => exact hc
  | setValue t value => exact hc
  | setDependency t dependency => exact hc
  | setParent t parent => exact hc

theorem getElem?_checkpoints_run {s : Session} {n : Nat} {c : Checkpoint}
    (hc : s.checkpoints[n]? = some c) (ops : List StoreOp) :
    (s.run ops).checkpoints[n]? = some c := by
  induction ops generalizing s with
  | nil => exact hc
  | cons op ops ih => exact ih (getElem?_checkpoints_step hc op)

theorem trails_register (s : Store) (t : TokenId) (dependency : Option TokenId) :
    (s.register t dependency).1.trails = s.trails :=
  Store.register_kept (P := fun store => store.trails = s.trails) t (fun _ _ h _ => h)
    (fun h => h) rfl dependency

section Loan

variable {s : Session} {n : Nat} {c : Checkpoint} {saved : SavedToken}

/-- What one operation does to a copy: it puts steps on it if a token holds it. -/
theorem copy_step (h : s.Sound) (hc : s.checkpoints[n]? = some c) (hsaved : saved ∈ c.saved)
    (op : StoreOp) :
    (s.step op).store.trails.getD saved.trail [] =
      Store.extended saved.token (s.store.trails.getD saved.trail [])
        (s.stepsOn n saved.token op) := by
  have hkeeps := h.kept c (List.mem_of_getElem? hc)
  have hinside := hkeeps.copy_inside saved hsaved
  cases op with
  | make d => exact Store.trails_create hinside
  | register t dependency =>
    by_cases ht : t < s.store.tokens.size
    · rw [step, if_pos ht]
      exact congrArg (·.getD saved.trail []) (trails_register s.store t dependency)
    · rw [step, if_neg ht]
      rfl
  | addTrail t steps =>
    by_cases hheld : t < s.store.tokens.size ∧ (s.store.token t).trail = saved.trail
    · obtain ⟨ht, hheld⟩ := hheld
      obtain rfl := hkeeps.owned saved hsaved t ht hheld
      have hlends := (lends_iff hc).mpr ⟨saved, hsaved, rfl, hheld.symm⟩
      rw [step, if_pos ht, stepsOn, if_pos ⟨rfl, hlends⟩, ← hheld]
      exact h.store.trailOf_addTrail_self ht steps
    · -- Then the steps go to another trail, or nowhere.
      have hnot : ¬ (t = saved.token ∧ s.lends n saved.token = true) := by
        rintro ⟨rfl, hlends⟩
        obtain ⟨other, hother, htoken, htrail⟩ := (lends_iff hc).mp hlends
        obtain rfl := List.inj_on_of_nodup_map hkeeps.nodup hother hsaved htoken
        exact hheld ⟨hkeeps.saved_inside hsaved, htrail.symm⟩
      rw [stepsOn, if_neg hnot]
      by_cases ht : t < s.store.tokens.size
      · rw [step, if_pos ht]
        exact Store.trails_addTrail_of_ne (fun heq => hheld ⟨ht, heq⟩) steps
      · rw [step, if_neg ht]
        rfl
  | setValue t value => rfl
  | setDependency t dependency => rfl
  | setParent t parent => rfl
  | checkpoint => exact (Store.saveAll_keeps s.store.ids s.store).2.2.2 _ hinside
  | rollback m =>
    cases hm : s.checkpoints[m]? with
    | some d =>
      simp only [step, hm]
      exact congrArg (·.getD saved.trail []) (Store.trails_rollback s.store d)
    | none =>
      simp only [step, hm]
      rfl

/-- What operations do to a copy. -/
theorem copy_run (h : s.Sound) (hc : s.checkpoints[n]? = some c) (hsaved : saved ∈ c.saved)
    (ops : List StoreOp) :
    (s.run ops).store.trails.getD saved.trail [] =
      Store.extended saved.token (s.store.trails.getD saved.trail [])
        (stepsOnLoan n saved.token s ops) := by
  induction ops generalizing s with
  | nil => rfl
  | cons op ops ih =>
    have hlater := ih (h.step op) (getElem?_checkpoints_step hc op)
    rw [copy_step h hc hsaved op] at hlater
    rw [stepsOnLoan, Store.extended, List.foldl_append]
    exact hlater

/-- A token gets another trail by a rollback only, a copy that was made for it. -/
theorem trail_step (s : Session) {t : TokenId} (ht : t < s.store.tokens.size) (op : StoreOp) :
    ((s.step op).store.token t).trail = (s.store.token t).trail ∨
    ∃ m d, op = .rollback m ∧ s.checkpoints[m]? = some d ∧
      ∃ saved ∈ d.saved, ((s.step op).store.token t).trail = saved.trail := by
  have hupdate : ∀ (store : Store) (u : TokenId) {f : Token → Token},
      (∀ x : Token, (f x).identity = x.identity) →
        ((store.update u f).token t).trail = (store.token t).trail := fun store u f keeps =>
    Store.token_update_congr (fun x : Token => x.trail)
      (fun x => Token.trail_of_identity (keeps x)) store u t
  cases op with
  | make d => exact Or.inl (congrArg Token.trail (Store.token_create_of_ne (Nat.ne_of_lt ht)))
  | register u dependency =>
    refine Or.inl ?_
    by_cases hu : u < s.store.tokens.size
    · rw [step, if_pos hu]
      exact Store.register_kept
        (P := fun store => (store.token t).trail = (s.store.token t).trail) u
        (fun u f h keeps => (hupdate _ u keeps).trans h) (fun h => h) rfl dependency
    · rw [step, if_neg hu]
  | addTrail u steps =>
    refine Or.inl ?_
    by_cases hu : u < s.store.tokens.size
    · rw [step, if_pos hu]
      rfl
    · rw [step, if_neg hu]
  | setValue u value => exact Or.inl (hupdate _ u fun _ => rfl)
  | setDependency u dependency => exact Or.inl (hupdate _ u fun _ => rfl)
  | setParent u parent => exact Or.inl (hupdate _ u fun _ => rfl)
  | checkpoint => exact Or.inl (congrArg Token.trail (Store.token_checkpoint s.store t))
  | rollback m =>
    cases hm : s.checkpoints[m]? with
    | none =>
      simp only [step, hm]
      exact Or.inl trivial
    | some d =>
      simp only [step, hm]
      rcases Store.token_rollback d ht with ⟨saved, hsaved, -, htoken⟩ | ⟨-, htoken⟩
      · exact Or.inr ⟨m, d, rfl, hm, saved, hsaved, congrArg Token.trail htoken⟩
      · exact Or.inl (congrArg Token.trail htoken)

/-- A copy comes to its token by a rollback to its checkpoint only. -/
theorem lends_step (h : s.Sound) (hc : s.checkpoints[n]? = some c) {t : TokenId}
    (hfree : s.lends n t = false) {op : StoreOp} (hop : op ≠ .rollback n) :
    (s.step op).lends n t = false := by
  refine Bool.eq_false_iff.mpr fun hlends => ?_
  obtain ⟨saved, hsaved, rfl, htrail⟩ := (lends_iff (getElem?_checkpoints_step hc op)).mp hlends
  have ht := (h.kept c (List.mem_of_getElem? hc)).saved_inside hsaved
  rcases trail_step s ht op with hsame | ⟨m, d, rfl, hd, other, hother, hcopy⟩
  · have hbefore := (lends_iff hc).mpr ⟨saved, hsaved, rfl, htrail.trans hsame⟩
    rw [hfree] at hbefore
    cases hbefore
  · obtain ⟨rfl, -⟩ := h.apart hc hd saved hsaved other hother (htrail.trans hcopy)
    exact hop rfl

theorem getElem?_checkpoints_checkpoint (s : Session) :
    (s.step .checkpoint).checkpoints[s.checkpoints.length]? = some s.store.checkpoint.2 :=
  List.getElem?_concat_length

/-- A checkpoint that has just been taken lends no copy. -/
theorem lends_checkpoint (h : s.Sound) (t : TokenId) :
    (s.step .checkpoint).lends s.checkpoints.length t = false := by
  refine Bool.eq_false_iff.mpr fun hlends => ?_
  obtain ⟨saved, hsaved, rfl, htrail⟩ :=
    (lends_iff (getElem?_checkpoints_checkpoint s)).mp hlends
  have htoken : (s.step .checkpoint).store.token saved.token = s.store.token saved.token :=
    Store.token_checkpoint s.store saved.token
  have hsaves := Store.saves_of_mem_saveAll s.store.ids h.store saved hsaved
  have hkeeps := Store.keeps_checkpoint h.store h.named h.once
  have ht := hkeeps.saved_inside hsaved
  rw [Store.size_checkpoint] at ht
  rw [htoken] at htrail
  exact absurd htrail
    (Nat.ne_of_gt (Nat.lt_of_lt_of_le (h.store.trail_inside ht) hsaves.trail_ge))

theorem stepsOnLoan_of_free (h : s.Sound) (hc : s.checkpoints[n]? = some c) {t : TokenId}
    (hfree : s.lends n t = false) {ops : List StoreOp} (hops : .rollback n ∉ ops) :
    stepsOnLoan n t s ops = [] := by
  induction ops generalizing s with
  | nil => rfl
  | cons op ops ih =>
    obtain ⟨hop, hrest⟩ : .rollback n ≠ op ∧ .rollback n ∉ ops := by simpa using hops
    have hlater := ih (h.step op) (getElem?_checkpoints_step hc op)
      (lends_step h hc hfree (Ne.symm hop)) hrest
    have hnow : s.stepsOn n t op = [] := by
      cases op <;> simp [stepsOn, hfree]
    rw [stepsOnLoan, hnow, hlater]
    rfl

/-- What rolling back to a checkpoint gives back, in any sound session. -/
theorem Sound.rollback_checkpoint (h : s.Sound) (later : List StoreOp) :
    let taken := s.step .checkpoint
    let number := s.checkpoints.length
    let back := (taken.run later).step (.rollback number)
    back.store.index = s.store.index ∧ ∀ t ∈ s.store.ids,
      (back.store.token t).value = (s.store.token t).value ∧
      (back.store.token t).dependency = (s.store.token t).dependency ∧
      (back.store.token t).parent = (s.store.token t).parent ∧
      back.store.trailOf t =
        Store.extended t (s.store.trailOf t) (taken.stepsOnLoan number t later) := by
  intro taken number back
  have hc : taken.checkpoints[number]? = some s.store.checkpoint.2 :=
    getElem?_checkpoints_checkpoint s
  have hafter := getElem?_checkpoints_run hc later
  have hback : back.store = (taken.run later).store.rollback s.store.checkpoint.2 :=
    congrArg Session.store (step_rollback hafter)
  have htaken : taken.Sound := h.step .checkpoint
  have hkeeps := (htaken.run later).kept _ (List.mem_of_getElem? hafter)
  rw [hback]
  refine ⟨Store.index_rollback _ _, fun t ht => ?_⟩
  rw [← Store.checkpoint_saved] at ht
  obtain ⟨record, hrecord, rfl⟩ := List.mem_map.mp ht
  rcases Store.token_rollback s.store.checkpoint.2 (hkeeps.saved_inside hrecord) with
    ⟨saved, hsaved, hsame, htoken⟩ | ⟨hnone, -⟩
  · have hsaves := Store.saves_of_mem_saveAll s.store.ids h.store saved hsaved
    have hinside := (Store.keeps_checkpoint h.store h.named h.once).saved_inside hsaved
    rw [Store.size_checkpoint] at hinside
    rw [← hsame] at htoken ⊢
    refine ⟨?_, ?_, ?_, ?_⟩
    · rw [htoken]
      exact hsaves.value
    · rw [htoken]
      exact hsaves.dependency
    · rw [htoken]
      exact hsaves.parent
    · have hcopy := copy_run htaken hc hsaved later
      rw [show taken.store.trails.getD saved.trail [] = s.store.trailOf saved.token from
        hsaves.copied hinside] at hcopy
      rw [Store.trailOf, htoken, Store.trails_rollback]
      exact hcopy
  · exact absurd (List.mem_map_of_mem hrecord) hnone

end Loan

/-- **Rolling back brings the store back to the checkpoint.**  Whatever was done before a checkpoint
was taken and after it, the keys lead to the same tokens in the same order, and each of these has
the same value, dependency and ascription.  Its trail is the one that it had, with the steps that
were put on the copy while the token held it; there are none if no rollback to this checkpoint came
before. -/
theorem rollback_run (before later : List StoreOp) :
    let s := run {} before
    let taken := s.step .checkpoint
    let number := s.checkpoints.length
    let back := (taken.run later).step (.rollback number)
    back.store.index = s.store.index ∧ ∀ t ∈ s.store.ids,
      (back.store.token t).value = (s.store.token t).value ∧
      (back.store.token t).dependency = (s.store.token t).dependency ∧
      (back.store.token t).parent = (s.store.token t).parent ∧
      back.store.trailOf t =
        Store.extended t (s.store.trailOf t) (taken.stepsOnLoan number t later) ∧
      (.rollback number ∉ later → back.store.trailOf t = s.store.trailOf t) := by
  intro s taken number back
  have h : s.Sound := sound_empty.run before
  obtain ⟨hindex, htokens⟩ := h.rollback_checkpoint later
  refine ⟨hindex, fun t ht => ?_⟩
  obtain ⟨hvalue, hdependency, hparent, htrail⟩ := htokens t ht
  refine ⟨hvalue, hdependency, hparent, htrail, fun hfirst => ?_⟩
  rw [htrail, stepsOnLoan_of_free (h.step .checkpoint) (getElem?_checkpoints_checkpoint s)
    (lends_checkpoint h t) hfirst]
  rfl

/-- Two entries, under the keys `a` and `b`. -/
def twoEntries : List StoreOp :=
  [.make ⟨"a", .input, .null, .null, some .theme, none, none⟩, .register 0 none,
    .make ⟨"b", .input, .null, .null, some .theme, none, none⟩, .register 1 none]

/-- The first rollback takes a step and a value back. -/
theorem first_rollback_restores :
    let s := run {} twoEntries
    let back := ((s.step .checkpoint).run [.addTrail 0 [1], .setValue 0 (.text "x")]).step
      (.rollback s.checkpoints.length)
    back.store.index = s.store.index ∧ (back.store.token 0).value = .null ∧
      back.store.trailOf 0 = [] := by
  obtain ⟨hindex, htokens⟩ := rollback_run twoEntries [.addTrail 0 [1], .setValue 0 (.text "x")]
  obtain ⟨hvalue, -, -, -, htrail⟩ := htokens 0 (by decide)
  exact ⟨hindex, hvalue, htrail (by simp)⟩

/-- A rollback to the checkpoint, and a step on the trail of a token afterwards. -/
def stepAfterRollback : List StoreOp := [.rollback 0, .addTrail 0 [1]]

/-- The step is put on the copy too, so the next rollback to the checkpoint does not bring the empty
trail back that the token had when the checkpoint was taken. -/
theorem lent_copy_extended :
    let s := run {} twoEntries
    let back := ((s.step .checkpoint).run stepAfterRollback).step (.rollback s.checkpoints.length)
    0 ∈ s.store.ids ∧ s.store.trailOf 0 = [] ∧ back.store.trailOf 0 = [1] := by
  decide

end Session

end Colourway
