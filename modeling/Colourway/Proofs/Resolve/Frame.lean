import Colourway.Proofs.Resolve.Atomic

/-!
# What resolving a scope leaves alone

All scopes share one store and one set of keys, so resolving a scope comes upon the tokens of
others.  It writes to none of them: of the tokens that there were, only the entries of the scope
under the paths that are resolved and the steps of the scope are written to, and a token whose key
is taken over stands as it did (**`evaluate_frame`**).  And at no moment does any token change what
it was made for, that is its name, its kind, its raw value and its scope.

* `Resolver.moments` — the stores that an evaluation goes through, one after each change.
* `Through` — such a row of stores in which all tokens stay what they were made for, from each
  store to every later one; rows are joined by `Through.append`.
* `moments_steady` — an evaluation goes through such a row, whatever it comes to.
-/

namespace Colourway

open Store

/-! ## Tokens that stay what they were made for -/

/-- What a token was made for. -/
def Token.label (t : Token) : Text × TokenKind × Document × Option Scope :=
  (t.name, t.kind, t.raw, t.scope)

theorem Token.label_of_identity {t u : Token} (h : t.identity = u.identity) :
    t.label = u.label := by
  simp only [identity, Prod.mk.injEq] at h
  obtain ⟨hname, hkind, hraw, hscope, -⟩ := h
  rw [label, label, hname, hkind, hraw, hscope]

namespace Store

/-- The tokens of the earlier store are in the later one, made for what they were made for. -/
structure Steady (earlier later : Store) : Prop where
  /-- No token is lost. -/
  tokens_le : earlier.tokens.size ≤ later.tokens.size
  /-- Every token stays what it was made for. -/
  label : ∀ t < earlier.tokens.size, (later.token t).label = (earlier.token t).label

namespace Steady

variable {a b c s : Store}

theorem refl (s : Store) : Steady s s := ⟨Nat.le_refl _, fun _ _ => rfl⟩

theorem trans (h₁ : Steady a b) (h₂ : Steady b c) : Steady a c where
  tokens_le := Nat.le_trans h₁.tokens_le h₂.tokens_le
  label t ht := (h₂.label t (Nat.lt_of_lt_of_le ht h₁.tokens_le)).trans (h₁.label t ht)

theorem of_changes {allowed : TokenId → Prop} (h : ChangesOnly allowed a b) : Steady a b where
  tokens_le := h.tokens_le
  label _ ht := Token.label_of_identity (h.identity ht)

theorem add (s : Store) (d : Draft) : Steady s (s.add d).1 := by
  have hchanges : ChangesOnly (fun _ => True) s (s.add d).1 :=
    ChangesOnly.add s d fun _ _ _ _ => trivial
  exact of_changes hchanges

theorem update (s : Store) (t : TokenId) {f : Token → Token}
    (keeps : ∀ x : Token, (f x).identity = x.identity) : Steady s (s.update t f) := by
  have hchanges : ChangesOnly (fun _ => True) s (s.update t f) :=
    ChangesOnly.update s trivial keeps
  exact of_changes hchanges

theorem addTrail (s : Store) (t : TokenId) (steps : List TokenId) : Steady s (s.addTrail t steps) :=
  ⟨Nat.le_refl _, fun _ _ => rfl⟩

theorem checkpoint (s : Store) : Steady s s.checkpoint.1 where
  tokens_le := Nat.le_of_eq (size_checkpoint s).symm
  label t _ := congrArg Token.label (token_checkpoint s t)

/-- Rolling back gives values back and does not make tokens anew. -/
theorem rollback (s : Store) (c : Checkpoint) : Steady s (s.rollback c) where
  tokens_le := Nat.le_of_eq (size_rollback s c).symm
  label t ht := by
    rcases token_rollback c ht with ⟨saved, -, -, h⟩ | ⟨-, h⟩ <;> rw [h]
    rfl

end Steady

end Store

/-! ## Rows of stores -/

/-- A row of stores from one store over others to a last one, in which all tokens stay what they
were made for, from each store to every later one. -/
def Through (first : Store) (between : List Store) (last : Store) : Prop :=
  (first :: (between ++ [last])).Pairwise Steady

namespace Through

variable {a b c : Store} {l l' : List Store}

theorem nil (h : Steady a b) : Through a [] b := by
  simpa [Through] using h

theorem refl (a : Store) : Through a [] a := nil (Steady.refl a)

/-- Two rows, the second from where the first ends. -/
theorem append (h : Through a l b) (h' : Through b l' c) : Through a (l ++ l') c := by
  obtain ⟨hb, hl'⟩ := List.pairwise_cons.mp h'
  obtain ⟨hl, -, hlast⟩ := List.pairwise_append.mp (show ((a :: l) ++ [b]).Pairwise Steady from h)
  have hjoin : ((a :: l) ++ (l' ++ [c])).Pairwise Steady := by
    refine List.pairwise_append.mpr ⟨hl, hl', ?_⟩
    intro x hx y hy
    exact (hlast x hx b (List.mem_singleton_self b)).trans (hb y hy)
  simpa [Through] using hjoin

/-- A row behind one change. -/
theorem cons (h : Steady a b) (h' : Through b l c) : Through a (b :: l) c := by
  refine List.pairwise_cons.mpr ⟨?_, h'⟩
  intro x hx
  rcases List.mem_cons.mp hx with rfl | hx
  · exact h
  · exact h.trans ((List.pairwise_cons.mp h').1 x hx)

end Through

namespace Resolver

/-! ## The moments of an evaluation -/

/-- The stores after each step that is taken while a value is followed. -/
def followMoments (r : Resolver) (scope : Scope) (key : Text) :
    (steps : Nat) → (seen : List Text) → Visited → List Store
  | 0, _, _ => []
  | steps + 1, seen, here =>
    match r.step here.store scope key here.value with
    | .ok (some d) =>
      let next := d.value.text?.getD here.value
      if next = here.value then []
      else (here.advance key d next).store ::
        if next ∈ seen then []
        else followMoments r scope key steps (next :: seen) (here.advance key d next)
    | _ => []

/-- The stores of a visit to an entry: after each step, and when the entry learns what came of
them. -/
def visitMoments (r : Resolver) (scope : Scope) (s : Store) (slot : Slot) : List Store :=
  match slot.value.text? with
  | none => []
  | some value =>
    r.followMoments scope slot.entry.flat r.limit [value] ⟨s, value, []⟩ ++
      match r.follow scope slot.entry.flat r.limit [value] ⟨s, value, []⟩ with
      | .ok v =>
        [v.store.setValue slot.token (.text v.value),
          (v.store.setValue slot.token (.text v.value)).addTrail slot.token v.trail]
      | .error _ => []

/-- The stores of a pass. -/
def passMoments (r : Resolver) (scope : Scope) : Store → List Slot → List Store
  | _, [] => []
  | s, slot :: rest =>
    r.visitMoments scope s slot ++
      match r.visit scope s slot with
      | .ok (s, _, _) => passMoments r scope s rest
      | .error _ => []

/-- The stores of at most `left` passes. -/
def passesMoments (r : Resolver) (scope : Scope) : (left : Nat) → Progress → List Store
  | 0, _ => []
  | left + 1, p =>
    r.passMoments scope p.store p.slots ++
      match r.pass scope p.store p.slots with
      | .ok (s, slots, true) => passesMoments r scope left ⟨s, slots, p.changing + 1⟩
      | _ => []

/-- The stores after each entry that is put into the store. -/
def enterMoments (r : Resolver) (scope : Scope) : Store → List Entry → List Store
  | _, [] => []
  | s, e :: rest => (r.enter scope s e).1 :: enterMoments r scope (r.enter scope s e).1 rest

/-- The stores that resolving the entries of a scope goes through, from the store before to the one
afterwards. -/
def moments (r : Resolver) (s : Store) (scope : Scope) (entries : List Entry) : List Store :=
  let start := s.checkpoint.1
  let entered := r.enterAll scope start entries
  s :: (start :: (r.enterMoments scope start entries ++
    r.passesMoments scope r.limit ⟨entered.1, entered.2, 0⟩) ++ [(r.evaluate s scope entries).store])

variable (r : Resolver) (scope : Scope)

/-- The store after one round, and those after it. -/
theorem followMoments_succ (key : Text) (n : Nat) (seen : List Text) (here : Visited) :
    r.followMoments scope key (n + 1) seen here =
      match r.step here.store scope key here.value with
      | .ok (some d) =>
        if d.value.text?.getD here.value = here.value then []
        else (here.advance key d (d.value.text?.getD here.value)).store ::
          if d.value.text?.getD here.value ∈ seen then []
          else r.followMoments scope key n (d.value.text?.getD here.value :: seen)
            (here.advance key d (d.value.text?.getD here.value))
      | _ => [] := rfl

theorem follow_through (key : Text) (n : Nat) : ∀ (seen : List Text) (here : Visited),
    (r.follow scope key n seen here).Ends
      (fun e => Through here.store (r.followMoments scope key n seen here) e.2)
      fun v => Through here.store (r.followMoments scope key n seen here) v.store := by
  induction n with
  | zero => exact fun _ here => Through.refl here.store
  | succ n ih =>
    intro seen here
    rw [follow_succ, followMoments_succ]
    cases hstep : r.step here.store scope key here.value with
    | error e => exact Through.refl here.store
    | ok d? =>
      cases d? with
      | none => exact Through.refl here.store
      | some d =>
        dsimp only
        generalize d.value.text?.getD here.value = next
        have hadv : Steady here.store (here.advance key d next).store :=
          (Steady.add here.store d).trans (Steady.update _ _ fun _ => rfl)
        by_cases hsame : next = here.value
        · rw [if_pos hsame, if_pos hsame]
          exact Through.refl here.store
        · rw [if_neg hsame, if_neg hsame]
          by_cases hseen : next ∈ seen
          · rw [if_pos hseen, if_pos hseen]
            exact Through.cons hadv (Through.refl _)
          · rw [if_neg hseen, if_neg hseen]
            have hrest := ih (next :: seen) (here.advance key d next)
            revert hrest
            cases r.follow scope key n (next :: seen) (here.advance key d next) with
            | error e => exact fun hrest => Through.cons hadv hrest
            | ok v => exact fun hrest => Through.cons hadv hrest

theorem visit_through (s : Store) (slot : Slot) :
    (r.visit scope s slot).Ends (fun e => Through s (r.visitMoments scope s slot) e.2)
      fun out => Through s (r.visitMoments scope s slot) out.1 := by
  unfold visit visitMoments
  cases slot.value.text? with
  | none => exact Through.refl s
  | some value =>
    have hrun := follow_through r scope slot.entry.flat r.limit [value]
      ⟨s, value, []⟩
    revert hrun
    dsimp only
    cases r.follow scope slot.entry.flat r.limit [value] ⟨s, value, []⟩ with
    | error e =>
      intro hrun
      rw [List.append_nil]
      exact hrun
    | ok v =>
      intro hrun
      have hset : Steady v.store (v.store.setValue slot.token (.text v.value)) :=
        Steady.update _ _ fun _ => rfl
      have htrail := Steady.addTrail (v.store.setValue slot.token (.text v.value)) slot.token v.trail
      exact hrun.append (.cons hset (.cons htrail (.refl _)))

theorem pass_through (slots : List Slot) : ∀ s : Store,
    (r.pass scope s slots).Ends (fun e => Through s (r.passMoments scope s slots) e.2)
      fun out => Through s (r.passMoments scope s slots) out.1 := by
  induction slots with
  | nil => exact fun s => Through.refl s
  | cons slot rest ih =>
    intro s
    have hvisit := visit_through r scope s slot
    unfold pass passMoments
    revert hvisit
    cases r.visit scope s slot with
    | error e =>
      intro hvisit
      dsimp only
      rw [List.append_nil]
      exact hvisit
    | ok out =>
      obtain ⟨s', slot', changed⟩ := out
      intro hvisit
      have hrest := ih s'
      dsimp only
      revert hrest
      cases r.pass scope s' rest with
      | error e => exact fun hrest => Through.append hvisit hrest
      | ok out => exact fun hrest => Through.append hvisit hrest

theorem passes_through (n : Nat) : ∀ p : Progress,
    match r.passes scope n p with
    | .ok q => Through p.store (r.passesMoments scope n p) q.store
    | .error e => Through p.store (r.passesMoments scope n p) e.2.1 := by
  induction n with
  | zero => exact fun p => Through.refl p.store
  | succ n ih =>
    intro p
    have hpass := pass_through r scope p.slots p.store
    unfold passes passesMoments
    revert hpass
    cases r.pass scope p.store p.slots with
    | error e =>
      intro hpass
      dsimp only
      rw [List.append_nil]
      exact hpass
    | ok out =>
      obtain ⟨s, slots, changed⟩ := out
      intro hpass
      cases changed with
      | false =>
        dsimp only
        rw [List.append_nil]
        exact hpass
      | true =>
        have hrest := ih ⟨s, slots, p.changing + 1⟩
        dsimp only at hpass hrest ⊢
        rw [if_pos rfl]
        revert hrest
        cases r.passes scope n ⟨s, slots, p.changing + 1⟩ with
        | error e => exact fun hrest => Through.append hpass hrest
        | ok q => exact fun hrest => Through.append hpass hrest

theorem enterAll_through (entries : List Entry) : ∀ s : Store,
    Through s (r.enterMoments scope s entries) (r.enterAll scope s entries).1 := by
  induction entries with
  | nil => exact fun s => Through.refl s
  | cons e rest ih =>
    exact fun s => Through.cons (Steady.add s (r.entryDraft scope e)) (ih (r.enter scope s e).1)

theorem evaluateFrom_through (s : Store) (entries : List Entry) :
    Through s (r.enterMoments scope s entries ++ r.passesMoments scope r.limit
        ⟨(r.enterAll scope s entries).1, (r.enterAll scope s entries).2, 0⟩)
      (r.evaluateFrom s scope entries).store := by
  have hpasses := passes_through r scope r.limit
    ⟨(r.enterAll scope s entries).1, (r.enterAll scope s entries).2, 0⟩
  refine (enterAll_through r scope entries s).append ?_
  unfold evaluateFrom
  revert hpasses
  dsimp only
  cases r.passes scope r.limit
      ⟨(r.enterAll scope s entries).1, (r.enterAll scope s entries).2, 0⟩ with
  | error e => exact id
  | ok p =>
    intro hpasses
    dsimp only
    split <;> exact hpasses

/-- **No token ever changes what it was made for**, from any moment of an evaluation to a later
one, whatever the evaluation comes to. -/
theorem moments_steady (r : Resolver) (s : Store) (scope : Scope) (entries : List Entry) :
    (r.moments s scope entries).Pairwise Steady := by
  have hrun := evaluateFrom_through r scope s.checkpoint.1 entries
  have hend : Steady (r.evaluateFrom s.checkpoint.1 scope entries).store
      (r.evaluate s scope entries).store := by
    rcases evaluate_cases r s scope entries with ⟨cause, -, hstore⟩ | ⟨-, hstore⟩ <;> rw [hstore]
    · exact Steady.rollback _ _
    · exact Steady.refl _
  have hall := Through.cons (Steady.checkpoint s) (hrun.append (Through.nil hend))
  rw [List.append_nil] at hall
  exact hall

/-! ## The tokens of others -/

variable {r scope}

/-- A token that is the entry of a scope under the flat path of one of some entries. -/
def EntryAt (s : Store) (scope : Scope) (entries : List Entry) (t : TokenId) : Prop :=
  ∃ e ∈ entries, s.find? e.flat = some t ∧ (s.token t).kind = .input ∧
    (s.token t).scope = some scope

/-- A token that stands for a step of a scope. -/
def StepOf (s : Store) (scope : Scope) (t : TokenId) : Prop :=
  (s.token t).kind ≠ .input ∧ (s.token t).scope = some scope

/-- What may be written to is an entry of the scope, a step of the scope, or new. -/
theorem MayChange.cases {s : Store} {entries : List Entry} {t : TokenId}
    (h : MayChange s scope (entries.map Entry.flat) t) :
    s.tokens.size ≤ t ∨ EntryAt s scope entries t ∨ StepOf s scope t := by
  rcases h with (hnew | ⟨path, hpath, hfound, hkind, hscope⟩) | ⟨key, -, hkind, hscope⟩
  · exact .inl hnew
  · obtain ⟨e, he, rfl⟩ := List.mem_map.mp hpath
    exact .inr (.inl ⟨e, he, hfound, hkind, hscope⟩)
  · exact .inr (.inr ⟨hkind, hscope⟩)

/-- A token that a run may not write to stands as it did, its trail included. -/
theorem evaluateFrom_kept_token {s : Store} (hs : s.Sound) {entries : List Entry} {t : TokenId}
    (ht : t < s.tokens.size) (hno : ¬ MayChange s scope (entries.map Entry.flat) t) :
    (r.evaluateFrom s scope entries).store.token t = s.token t ∧
      (r.evaluateFrom s scope entries).store.trailOf t = s.trailOf t := by
  have hchanges := (evaluateFrom_running r hs scope entries).changes
  have htoken := hchanges.kept ht hno
  refine ⟨htoken, ?_⟩
  rw [trailOf, htoken]
  -- No other token writes to this trail.
  refine hchanges.trail (hs.trail_inside ht) fun u hu hallowed heq => ?_
  exact hno (hs.unshared hu ht heq ▸ hallowed)

/-- **Resolving a scope leaves all other tokens alone.**  Whatever an evaluation comes to, a token
that there was before says what it said, its trail included, unless it is the entry of the scope
under the path of an entry that is resolved, or stands for a step of the scope; it need not keep its
key.  And from any moment of the evaluation to a later one no token changes its name, its kind, its
raw value or its scope. -/
theorem evaluate_frame (r : Resolver) {s : Store} (hs : s.Sound) (scope : Scope)
    (entries : List Entry) :
    (∀ t < s.tokens.size, ¬ EntryAt s scope entries t → ¬ StepOf s scope t →
      ((r.evaluate s scope entries).store.token t).toDraft = (s.token t).toDraft ∧
      (r.evaluate s scope entries).store.trailOf t = s.trailOf t) ∧
    (r.moments s scope entries).Pairwise fun earlier later =>
      ∀ t < earlier.tokens.size, (later.token t).label = (earlier.token t).label := by
  refine ⟨?others, (moments_steady r s scope entries).imp fun h => h.label⟩
  case others =>
    intro t ht hentry hstep
    rcases evaluate_cases r s scope entries with ⟨cause, -, hstore⟩ | ⟨-, hstore⟩ <;> rw [hstore]
    · exact (rollback_restores hs (evaluateFrom_undoable r hs scope entries)).2 t ht
    · have hstart : t < s.checkpoint.1.tokens.size := by rwa [size_checkpoint]
      have hno : ¬ MayChange s.checkpoint.1 scope (entries.map Entry.flat) t := by
        intro hmay
        rcases hmay.cases with hnew | hown | hown
        · exact absurd hstart (Nat.not_lt_of_le hnew)
        · simp only [EntryAt, find?_checkpoint, token_checkpoint] at hown
          exact hentry hown
        · simp only [StepOf, token_checkpoint] at hown
          exact hstep hown
      obtain ⟨htoken, htrail⟩ := evaluateFrom_kept_token (r := r) hs.checkpoint hstart hno
      refine ⟨by rw [htoken, token_checkpoint], htrail.trans ?_⟩
      rw [trailOf, token_checkpoint]
      exact (saveAll_keeps s.ids s).2.2.2 _ (hs.trail_inside ht)

set_option maxRecDepth 10000 in
/-- An entry of the theme takes the key of an entry of the palette over, which stands as it did. -/
theorem palette_entry_displaced :
    onePalette.Sound ∧ onePalette.find? "a" = some 0 ∧
    ((⟨refusing, 3, "palette"⟩ : Resolver).evaluate onePalette .theme
      [⟨[.key "a"], .text "#abc", none⟩]).store.find? "a" = some 1 ∧
    (((⟨refusing, 3, "palette"⟩ : Resolver).evaluate onePalette .theme
      [⟨[.key "a"], .text "#abc", none⟩]).store.token 0).toDraft = (onePalette.token 0).toDraft := by
  refine ⟨onePalette_sound, rfl, by decide +kernel, ?_⟩
  refine ((evaluate_frame _ onePalette_sound .theme _).1 0 (by decide) ?_ ?_).1
  · rintro ⟨e, -, -, -, hscope⟩
    cases hscope
  · rintro ⟨hkind, -⟩
    exact hkind rfl

end Resolver

end Colourway
