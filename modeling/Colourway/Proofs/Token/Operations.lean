import Colourway.Token.Checkpoint

/-!
# What each store operation does

The operations of the store are read here through four views: the token under a number, the steps
of a trail, the token under a key, and how many tokens and trails there are.  Adding a token has
just two outcomes, and `add_cases` says everything about them: the draft is written into the token
that holds its key, or the draft becomes a new token and takes the key over.

* `Store.Sound` — keys lead to tokens, tokens have trails, and no two tokens write to one trail.
* `Store.Named` — a key is the name of the token that it leads to.

Both hold of the empty store and are kept by every operation.
-/

namespace Colourway

/-! ## Tokens under a change -/

/-- What a token keeps for good: its name, kind, raw value, scope and the number of its trail. -/
def Token.identity (t : Token) : Text × TokenKind × Document × Option Scope × TrailId :=
  (t.name, t.kind, t.raw, t.scope, t.trail)

theorem Token.name_of_identity {t u : Token} (h : t.identity = u.identity) : t.name = u.name :=
  congrArg Prod.fst h

theorem Token.trail_of_identity {t u : Token} (h : t.identity = u.identity) : t.trail = u.trail :=
  congrArg (fun i => i.2.2.2.2) h

/-- A token that takes over the value of a draft, and its dependency if it has any. -/
def Token.refreshed (d : Draft) (t : Token) : Token :=
  { t with value := d.value, dependency := d.dependency.or t.dependency }

namespace Store

@[simp] theorem size_update (s : Store) (t : TokenId) (f : Token → Token) :
    (s.update t f).tokens.size = s.tokens.size := by
  simp [update]

theorem token_update_self {s : Store} {t : TokenId} (h : t < s.tokens.size) (f : Token → Token) :
    (s.update t f).token t = f (s.token t) := by
  rw [token, token, update, Array.getD_eq_getD_getElem?, Array.getD_eq_getD_getElem?,
    Array.getElem?_modify, if_pos rfl, Array.getElem?_eq_getElem h]
  rfl

theorem token_update_of_ne {s : Store} {t u : TokenId} (h : u ≠ t) (f : Token → Token) :
    (s.update t f).token u = s.token u := by
  simp [token, update, Array.getD_eq_getD_getElem?, Array.getElem?_modify, Ne.symm h]

theorem token_of_size_le {s : Store} {t : TokenId} (h : s.tokens.size ≤ t) :
    s.token t = default := by
  simp [token, Array.getD_eq_getD_getElem?, h]

/-- A change that keeps a property of tokens keeps it for the token under every number. -/
theorem token_update_congr {β : Type} (g : Token → β) {f : Token → Token}
    (keeps : ∀ x, g (f x) = g x) (s : Store) (t u : TokenId) :
    g ((s.update t f).token u) = g (s.token u) := by
  by_cases hu : u = t
  · subst hu
    by_cases hlt : u < s.tokens.size
    · rw [token_update_self hlt, keeps]
    · rw [token_of_size_le (by simpa using hlt), token_of_size_le (by simpa using hlt)]
  · rw [token_update_of_ne hu]

@[simp] theorem trails_size_addTrail (s : Store) (t : TokenId) (steps : List TokenId) :
    (s.addTrail t steps).trails.size = s.trails.size := by
  simp [addTrail]

theorem trails_addTrail_of_ne {s : Store} {t : TokenId} {i : TrailId}
    (h : (s.token t).trail ≠ i) (steps : List TokenId) :
    (s.addTrail t steps).trails.getD i [] = s.trails.getD i [] := by
  simp [addTrail, Array.getD_eq_getD_getElem?, Array.getElem?_modify, h]

/-! ## New tokens -/

@[simp] theorem size_create (s : Store) (d : Draft) :
    (s.create d).1.tokens.size = s.tokens.size + 1 := by
  simp [create]

@[simp] theorem trails_size_create (s : Store) (d : Draft) :
    (s.create d).1.trails.size = s.trails.size + 1 := by
  simp [create]

@[simp] theorem find?_create (s : Store) (d : Draft) (key : Text) :
    (s.create d).1.find? key = s.find? key := rfl

theorem token_create_self (s : Store) (d : Draft) :
    (s.create d).1.token s.tokens.size = { d with trail := s.trails.size } := by
  simp [token, create, Array.getD_eq_getD_getElem?]

theorem token_create_of_ne {s : Store} {d : Draft} {t : TokenId} (h : t ≠ s.tokens.size) :
    (s.create d).1.token t = s.token t := by
  simp [token, create, Array.getD_eq_getD_getElem?, Array.getElem?_push, h]

theorem trails_create {s : Store} {d : Draft} {i : TrailId} (h : i < s.trails.size) :
    (s.create d).1.trails.getD i [] = s.trails.getD i [] := by
  have hne : i ≠ s.trails.size := Nat.ne_of_lt h
  simp [create, Array.getD_eq_getD_getElem?, Array.getElem?_push, hne]

/-! ## Adding a draft -/

/-- The store in which a draft has become a token of its own and taken its key over. -/
def installed (s : Store) (d : Draft) : Store :=
  { (s.create d).1 with index := Assoc.put d.name s.tokens.size s.index }

/-- The store in which a draft has been made a token and then written into the token `t`. -/
def merged (s : Store) (d : Draft) (t : TokenId) : Store :=
  (s.create d).1.update t (Token.refreshed d)

theorem update_update (s : Store) (t : TokenId) (f g : Token → Token) :
    (s.update t f).update t g = s.update t (g ∘ f) := by
  have hmod : (s.tokens.modify t f).modify t g = s.tokens.modify t (g ∘ f) := by
    refine Array.ext (by simp) ?_
    intro i h₁ h₂
    rw [Array.getElem_modify, Array.getElem_modify, Array.getElem_modify]
    split <;> rfl
  rw [update, update, update, hmod]

/-- All that adding a draft can do: it is written into the token under its key, which has its kind
and scope, or it becomes a token of its own under that key. -/
theorem add_cases (s : Store) (d : Draft) :
    (∃ old, s.find? d.name = some old ∧
      ((s.create d).1.token old).kind = d.kind ∧ ((s.create d).1.token old).scope = d.scope ∧
      s.add d = (s.merged d old, old)) ∨
    ((∀ old, s.find? d.name = some old →
      ¬(((s.create d).1.token old).kind = d.kind ∧ ((s.create d).1.token old).scope = d.scope)) ∧
      s.add d = (s.installed d, s.tokens.size)) := by
  have hnew := token_create_self s d
  have hadd : s.add d = (s.create d).1.register s.tokens.size none := rfl
  rw [hadd, register]
  simp only [Option.isSome_none, Bool.false_eq_true, if_false, hnew, find?_create]
  cases hf : s.find? d.name with
  | none => exact Or.inr ⟨by simp, rfl⟩
  | some old =>
    by_cases hsame : ((s.create d).1.token old).kind = d.kind ∧
        ((s.create d).1.token old).scope = d.scope
    · refine Or.inl ⟨old, rfl, hsame.1, hsame.2, ?_⟩
      simp only [if_pos hsame, setValue, setDependency, merged, Prod.mk.injEq, and_true]
      cases hdep : d.dependency with
      | none =>
        simp only [Option.isSome_none, Bool.false_eq_true, if_false]
        refine congrArg (update _ old) ?_
        funext x
        simp [Token.refreshed, hdep]
      | some u =>
        simp only [Option.isSome_some, if_true, update_update]
        refine congrArg (update _ old) ?_
        funext x
        simp [Token.refreshed, hdep]
    · refine Or.inr ⟨?_, ?_⟩
      · rintro u ⟨⟩
        exact hsame
      · simp only [if_neg hsame]
        rfl

@[simp] theorem size_merged (s : Store) (d : Draft) (t : TokenId) :
    (s.merged d t).tokens.size = s.tokens.size + 1 := by
  rw [merged, size_update, size_create]

@[simp] theorem size_installed (s : Store) (d : Draft) :
    (s.installed d).tokens.size = s.tokens.size + 1 :=
  size_create s d

@[simp] theorem find?_merged (s : Store) (d : Draft) (t : TokenId) (key : Text) :
    (s.merged d t).find? key = s.find? key := rfl

theorem find?_put (s : Store) (t : TokenId) (name key : Text) :
    ({ s with index := Assoc.put name t s.index } : Store).find? key =
      if key = name then some t else s.find? key := by
  by_cases h : key = name
  · rw [if_pos h, h]
    exact Assoc.get?_put_self _ _ _
  · rw [if_neg h]
    exact Assoc.get?_put_of_ne h _ _

theorem find?_installed (s : Store) (d : Draft) (key : Text) :
    (s.installed d).find? key = if key = d.name then some s.tokens.size else s.find? key :=
  find?_put (s.create d).1 s.tokens.size d.name key

/-! ## Sound stores -/

/-- The numbers in the store mean something: a key leads to a token, a token has a trail, and no
two tokens write to one trail.  Only a checkpoint may share a trail with a token. -/
structure Sound (s : Store) : Prop where
  /-- A key leads to a token that has been made. -/
  key_inside : ∀ {key : Text} {t : TokenId}, s.find? key = some t → t < s.tokens.size
  /-- The trail of a token has been made. -/
  trail_inside : ∀ {t : TokenId}, t < s.tokens.size → (s.token t).trail < s.trails.size
  /-- Different tokens have different trails. -/
  unshared : ∀ {t u : TokenId}, t < s.tokens.size → u < s.tokens.size →
    (s.token t).trail = (s.token u).trail → t = u

theorem sound_empty : Sound {} where
  key_inside h := by cases h
  trail_inside h := absurd h (Nat.not_lt_zero _)
  unshared h := absurd h (Nat.not_lt_zero _)

theorem Sound.update {s : Store} (hs : s.Sound) (t : TokenId) {f : Token → Token}
    (keeps : ∀ x : Token, (f x).trail = x.trail) : (s.update t f).Sound := by
  have htrail : ∀ u, ((s.update t f).token u).trail = (s.token u).trail :=
    token_update_congr (fun x : Token => x.trail) keeps s t
  refine ⟨?_, ?_, ?_⟩
  · intro key u h
    rw [size_update]
    exact hs.key_inside h
  · intro u hu
    rw [htrail]
    exact hs.trail_inside (by simpa using hu)
  · intro u v hu hv h
    rw [htrail, htrail] at h
    exact hs.unshared (by simpa using hu) (by simpa using hv) h

theorem Sound.addTrail {s : Store} (hs : s.Sound) (t : TokenId) (steps : List TokenId) :
    (s.addTrail t steps).Sound where
  key_inside h := hs.key_inside h
  trail_inside h := by
    rw [trails_size_addTrail]
    exact hs.trail_inside h
  unshared h₁ h₂ h := hs.unshared h₁ h₂ h

theorem Sound.create {s : Store} (hs : s.Sound) (d : Draft) : (s.create d).1.Sound := by
  have hnew : ((s.create d).1.token s.tokens.size).trail = s.trails.size :=
    congrArg (fun x : Token => x.trail) (token_create_self s d)
  have hold : ∀ {t}, t < s.tokens.size → (s.create d).1.token t = s.token t :=
    fun h => token_create_of_ne (Nat.ne_of_lt h)
  have hsplit : ∀ {t}, t < (s.create d).1.tokens.size → t < s.tokens.size ∨ t = s.tokens.size := by
    intro t ht
    rw [size_create] at ht
    omega
  refine ⟨?_, ?_, ?_⟩
  · intro key t h
    rw [size_create]
    exact Nat.lt_succ_of_lt (hs.key_inside h)
  · intro t ht
    rw [trails_size_create]
    rcases hsplit ht with h | rfl
    · rw [hold h]
      exact Nat.lt_succ_of_lt (hs.trail_inside h)
    · rw [hnew]
      exact Nat.lt_succ_self _
  · intro t u ht hu h
    rcases hsplit ht with h₁ | rfl <;> rcases hsplit hu with h₂ | rfl
    · rw [hold h₁, hold h₂] at h
      exact hs.unshared h₁ h₂ h
    · rw [hold h₁, hnew] at h
      exact absurd h (Nat.ne_of_lt (hs.trail_inside h₁))
    · rw [hnew, hold h₂] at h
      exact absurd h.symm (Nat.ne_of_lt (hs.trail_inside h₂))
    · rfl

/-- A token that has been made may take any key over. -/
theorem Sound.put {s : Store} (hs : s.Sound) {t : TokenId} (ht : t < s.tokens.size) (key : Text) :
    ({ s with index := Assoc.put key t s.index } : Store).Sound := by
  refine ⟨?_, hs.trail_inside, hs.unshared⟩
  intro other u h
  rw [find?_put] at h
  split at h
  · cases h
    exact ht
  · exact hs.key_inside h

theorem Sound.installed {s : Store} (hs : s.Sound) (d : Draft) : (s.installed d).Sound := by
  refine (hs.create d).put ?_ d.name
  rw [size_create]
  exact Nat.lt_succ_self _

theorem Sound.add {s : Store} (hs : s.Sound) (d : Draft) : (s.add d).1.Sound := by
  rcases add_cases s d with ⟨old, -, -, -, h⟩ | ⟨-, h⟩
  · rw [h]
    exact (hs.create d).update old fun _ => rfl
  · rw [h]
    exact hs.installed d

/-- The token that a draft ends up in has been made. -/
theorem Sound.add_inside {s : Store} (hs : s.Sound) (d : Draft) :
    (s.add d).2 < (s.add d).1.tokens.size := by
  rcases add_cases s d with ⟨old, hf, -, -, h⟩ | ⟨-, h⟩
  · rw [h, size_merged]
    exact Nat.lt_succ_of_lt (hs.key_inside hf)
  · rw [h, size_installed]
    exact Nat.lt_succ_self _

theorem size_le_add (s : Store) (d : Draft) : s.tokens.size ≤ (s.add d).1.tokens.size := by
  rcases add_cases s d with ⟨old, -, -, -, h⟩ | ⟨-, h⟩
  · rw [h, size_merged]
    exact Nat.le_succ _
  · rw [h, size_installed]
    exact Nat.le_succ _

/-- In a sound store, making a token leaves the tokens under the keys alone. -/
theorem Sound.token_create {s : Store} (hs : s.Sound) {key : Text} {t : TokenId}
    (h : s.find? key = some t) (d : Draft) : (s.create d).1.token t = s.token t :=
  token_create_of_ne (Nat.ne_of_lt (hs.key_inside h))

/-! ## Keys and names -/

/-- Every key of the store is the name of the token that it leads to. -/
def Named (s : Store) : Prop :=
  ∀ (key : Text) (t : TokenId), s.find? key = some t → (s.token t).name = key

theorem named_empty : Named {} := by
  intro key t h
  cases h

/-- Two keys never lead to one token. -/
theorem Named.key_unique {s : Store} (hn : s.Named) {key other : Text} {t : TokenId}
    (h₁ : s.find? key = some t) (h₂ : s.find? other = some t) : key = other := by
  rw [← hn _ _ h₁, hn _ _ h₂]

theorem Named.update {s : Store} (hn : s.Named) (t : TokenId) {f : Token → Token}
    (keeps : ∀ x : Token, (f x).name = x.name) : (s.update t f).Named := by
  intro key u h
  rw [token_update_congr (fun x : Token => x.name) keeps]
  exact hn _ _ h

theorem Named.create {s : Store} (hn : s.Named) (hs : s.Sound) (d : Draft) :
    (s.create d).1.Named := by
  intro key t h
  rw [hs.token_create h]
  exact hn _ _ h

/-- A token may take the key over that is its name. -/
theorem Named.put {s : Store} (hn : s.Named) {t : TokenId} {name : Text}
    (ht : (s.token t).name = name) :
    ({ s with index := Assoc.put name t s.index } : Store).Named := by
  intro key u h
  rw [find?_put] at h
  split at h
  · next hk =>
    cases h
    exact ht.trans hk.symm
  · exact hn _ _ h

theorem Named.installed {s : Store} (hn : s.Named) (hs : s.Sound) (d : Draft) :
    (s.installed d).Named :=
  (hn.create hs d).put (congrArg (fun x : Token => x.name) (token_create_self s d))

theorem Named.add {s : Store} (hn : s.Named) (hs : s.Sound) (d : Draft) :
    (s.add d).1.Named := by
  rcases add_cases s d with ⟨old, -, -, -, h⟩ | ⟨-, h⟩
  · rw [h]
    exact (hn.create hs d).update old fun _ => rfl
  · rw [h]
    exact hn.installed hs d

/-! ## Putting a token under its name -/

/-- Putting a token under its name is a change of tokens that leaves their names and trails alone,
and may give the key to the token. -/
theorem register_kept {P : Store → Prop} (t : TokenId)
    (update : ∀ {s} (u : TokenId) (f : Token → Token), P s →
      (∀ x, (f x).identity = x.identity) → P (s.update u f))
    (put : ∀ {s : Store}, P s → P { s with index := Assoc.put (s.token t).name t s.index })
    {s : Store} (h : P s) (dependency : Option TokenId) : P (s.register t dependency).1 := by
  have hdep : P (if dependency.isSome then s.setDependency t dependency else s) := by
    split
    · exact update t _ h fun _ => rfl
    · exact h
  unfold register
  generalize (if dependency.isSome then s.setDependency t dependency else s) = given at hdep
  dsimp only
  split
  · exact put hdep
  · next old _ =>
    split
    · have hvalue : P (given.setValue old (given.token t).value) := update old _ hdep fun _ => rfl
      split
      · exact update old _ hvalue fun _ => rfl
      · exact hvalue
    · exact put hdep

theorem Sound.register {s : Store} (hs : s.Sound) {t : TokenId} (ht : t < s.tokens.size)
    (dependency : Option TokenId) : (s.register t dependency).1.Sound := by
  refine (register_kept (P := fun s => s.Sound ∧ t < s.tokens.size) t ?_ ?_ ⟨hs, ht⟩ dependency).1
  · intro s u f h keeps
    refine ⟨h.1.update u fun x => Token.trail_of_identity (keeps x), ?_⟩
    rw [size_update]
    exact h.2
  · exact fun h => ⟨h.1.put h.2 _, h.2⟩

theorem Named.register {s : Store} (hn : s.Named) (t : TokenId) (dependency : Option TokenId) :
    (s.register t dependency).1.Named :=
  register_kept t (fun u _ h keeps => h.update u fun x => Token.name_of_identity (keeps x))
    (fun h => h.put rfl) hn dependency

/-! ## Adding under a key -/

/-- The key of a draft leads to the token that it ends up in, and no other key is concerned. -/
theorem find?_add (s : Store) (d : Draft) (key : Text) :
    (s.add d).1.find? key = if key = d.name then some (s.add d).2 else s.find? key := by
  rcases add_cases s d with ⟨old, hf, -, -, h⟩ | ⟨-, h⟩
  · rw [h, find?_merged]
    by_cases hk : key = d.name
    · rw [if_pos hk, hk, hf]
    · rw [if_neg hk]
  · rw [h, find?_installed]

/-- The token that a draft ends up in has its kind, scope and value. -/
theorem Sound.token_add_self {s : Store} (hs : s.Sound) (d : Draft) :
    ((s.add d).1.token (s.add d).2).kind = d.kind ∧
    ((s.add d).1.token (s.add d).2).scope = d.scope ∧
    ((s.add d).1.token (s.add d).2).value = d.value := by
  rcases add_cases s d with ⟨old, hf, hkind, hscope, h⟩ | ⟨-, h⟩
  · have hlt : old < (s.create d).1.tokens.size := by
      rw [size_create]
      exact Nat.lt_succ_of_lt (hs.key_inside hf)
    rw [h, merged, token_update_self hlt]
    exact ⟨hkind, hscope, rfl⟩
  · rw [h]
    have hnew : (s.installed d).token s.tokens.size = { d with trail := s.trails.size } :=
      token_create_self s d
    rw [hnew]
    exact ⟨rfl, rfl, rfl⟩

/-- Adding a draft makes a token of it, or writes it into a token, and leaves the others as they
are. -/
theorem token_add_cases (s : Store) (d : Draft) (t : TokenId) :
    (s.add d).1.token t = { d with trail := s.trails.size } ∨
    (s.add d).1.token t = (s.token t).refreshed d ∨
    (s.add d).1.token t = s.token t := by
  rcases add_cases s d with ⟨old, -, -, -, h⟩ | ⟨-, h⟩
  · rw [h]
    by_cases ht : t = old
    · subst ht
      by_cases hlt : t < (s.create d).1.tokens.size
      · rw [merged, token_update_self hlt]
        by_cases hnew : t = s.tokens.size
        · rw [hnew, token_create_self]
          exact .inl (by simp [Token.refreshed])
        · rw [token_create_of_ne hnew]
          exact .inr (.inl rfl)
      · rw [size_create] at hlt
        have hmerged : (s.merged d t).tokens.size ≤ t := by
          rw [size_merged]
          exact Nat.not_lt.mp hlt
        rw [token_of_size_le hmerged, token_of_size_le (Nat.le_of_succ_le (Nat.not_lt.mp hlt))]
        exact .inr (.inr rfl)
    · rw [merged, token_update_of_ne ht]
      by_cases hnew : t = s.tokens.size
      · rw [hnew, token_create_self]
        exact .inl rfl
      · exact .inr (.inr (token_create_of_ne hnew))
  · rw [h]
    by_cases hnew : t = s.tokens.size
    · rw [hnew]
      exact .inl (token_create_self s d)
    · exact .inr (.inr (token_create_of_ne hnew))

theorem value_add (s : Store) (d : Draft) (t : TokenId) :
    ((s.add d).1.token t).value = d.value ∨
      ((s.add d).1.token t).value = (s.token t).value := by
  rcases token_add_cases s d t with h | h | h
  · exact .inl (by rw [h])
  · exact .inl (by rw [h, Token.refreshed])
  · exact .inr (by rw [h])

theorem dependency_add (s : Store) (d : Draft) (t : TokenId) :
    ((s.add d).1.token t).dependency = d.dependency ∨
      ((s.add d).1.token t).dependency = (s.token t).dependency := by
  rcases token_add_cases s d t with h | h | h
  · exact .inl (by rw [h])
  · cases hd : d.dependency with
    | none => exact .inr (by rw [h, Token.refreshed, hd, Option.none_or])
    | some v => exact .inl (by rw [h, Token.refreshed, hd, Option.some_or])
  · exact .inr (by rw [h])

/-- Adding a draft leaves the tokens under other keys as they are. -/
theorem Named.token_add_of_ne {s : Store} (hn : s.Named) (hs : s.Sound) {d : Draft} {key : Text}
    {t : TokenId} (hf : s.find? key = some t) (hne : key ≠ d.name) :
    (s.add d).1.token t = s.token t := by
  rcases add_cases s d with ⟨old, hold, -, -, h⟩ | ⟨-, h⟩
  · have hto : t ≠ old := by
      rintro rfl
      exact hne (hn.key_unique hf hold)
    rw [h, merged, token_update_of_ne hto, hs.token_create hf]
  · rw [h]
    exact hs.token_create hf d

/-- A draft is written into the token under its key that has its kind and scope. -/
theorem Sound.add_of_same {s : Store} (hs : s.Sound) {d : Draft} {t : TokenId}
    (hf : s.find? d.name = some t) (hkind : (s.token t).kind = d.kind)
    (hscope : (s.token t).scope = d.scope) : (s.add d).2 = t := by
  rcases add_cases s d with ⟨old, hold, -, -, h⟩ | ⟨hno, -⟩
  · rw [hf] at hold
    rw [h]
    exact (Option.some.inj hold).symm
  · refine absurd ?_ (hno t hf)
    rw [hs.token_create hf]
    exact ⟨hkind, hscope⟩

/-- Adding a draft leaves the tokens of other kinds as they are. -/
theorem token_add_of_kind_ne {s : Store} {d : Draft} {t : TokenId} (ht : t < s.tokens.size)
    (hne : (s.token t).kind ≠ d.kind) : (s.add d).1.token t = s.token t := by
  have hcreate : (s.create d).1.token t = s.token t := token_create_of_ne (Nat.ne_of_lt ht)
  rcases add_cases s d with ⟨old, -, hkind, -, h⟩ | ⟨-, h⟩
  · have hto : t ≠ old := by
      rintro rfl
      exact hne (hcreate ▸ hkind)
    rw [h, merged, token_update_of_ne hto, hcreate]
  · rw [h]
    exact hcreate

end Store

end Colourway
