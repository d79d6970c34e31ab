import Colourway.Proofs.Token.Operations
import Mathlib.Logic.Relation

/-!
# Ancestors

A token depends on at most one other, so what it depends on, however indirectly, lies on one chain.
The chain ends, or it comes back to a token that it has passed and goes round from there; that need
not be the token at its front.  The search for an ancestor goes down the chain and gives up at its
end or at the first token that it has seen before.  Nothing that is reached lies behind that token,
so the search finds exactly what is reached (**`isAncestor_exact`**).

* `DependsOn` — one link of the chain.
* `Answers` — the search as a loop, turn by turn; `answers_walkMeets` — it comes to an end.
* `Passed` — what is known of the tokens that the search has seen; `Passed.next` — a turn keeps it.
-/

namespace Colourway.Store

/-- A token depends on a token. -/
def DependsOn (s : Store) (t v : TokenId) : Prop := (s.token t).dependency = some v

/-! ## The search as a loop -/

/-- The search for `candidate` that has the tokens `seen` behind it and has come to `current`, or to
the end of the chain, gives an answer after some turns. -/
inductive Answers (s : Store) (candidate : TokenId) :
    (seen : List TokenId) → (current : Option TokenId) → (turns : Nat) → (answer : Bool) → Prop
  /-- The chain has ended. -/
  | ended {seen : List TokenId} : Answers s candidate seen none 0 false
  /-- The chain has come back to a token that was seen. -/
  | closed {seen : List TokenId} {t : TokenId} (old : t ∈ seen) :
      Answers s candidate seen (some t) 0 false
  /-- The token is the one that is searched for. -/
  | met {seen : List TokenId} (new : candidate ∉ seen) :
      Answers s candidate seen (some candidate) 1 true
  /-- The token is another one, and the search goes on to what it depends on. -/
  | onward {seen : List TokenId} {t : TokenId} {turns : Nat} {answer : Bool} (new : t ∉ seen)
      (other : t ≠ candidate)
      (rest : Answers s candidate (t :: seen) (s.token t).dependency turns answer) :
      Answers s candidate seen (some t) (turns + 1) answer

variable {s : Store} {candidate : TokenId}

/-- A number that is no token depends on nothing. -/
theorem dependency_of_size_le {t : TokenId} (h : s.tokens.size ≤ t) :
    (s.token t).dependency = none := by
  rw [token_of_size_le h]
  rfl

/-- **The search comes to an end**, after at most one turn for each token that it has not seen and
one for a number that is no token. -/
theorem answers_walkMeets (inside : candidate < s.tokens.size) (seen : List TokenId)
    (t : TokenId) : ∃ turns ≤ s.unseen seen + 1,
      Answers s candidate seen (some t) turns (s.walkMeets candidate seen t) := by
  induction seen, t using walkMeets.induct s candidate with
  | case1 seen hfree =>
    rw [walkMeets, dif_pos hfree, if_pos rfl]
    exact ⟨1, by omega, .met hfree.2⟩
  | case2 seen t hfree hother hnone =>
    rw [walkMeets, dif_pos hfree, if_neg hother, hnone]
    exact ⟨1, by omega, .onward hfree.2 hother (by rw [hnone]; exact .ended)⟩
  | case3 seen t hfree hother next hnext ih =>
    obtain ⟨turns, hturns, hrest⟩ := ih
    have hless := unseen_cons_lt hfree.1 hfree.2
    rw [walkMeets, dif_pos hfree, if_neg hother, hnext]
    exact ⟨turns + 1, by omega, .onward hfree.2 hother (by rw [hnext]; exact hrest)⟩
  | case4 seen t hstuck =>
    rw [walkMeets, dif_neg hstuck]
    by_cases hold : t ∈ seen
    · exact ⟨0, Nat.zero_le _, .closed hold⟩
    · have houtside : s.tokens.size ≤ t := Nat.not_lt.mp fun hlt => hstuck ⟨hlt, hold⟩
      have hother : t ≠ candidate := fun h => absurd inside (Nat.not_lt.mpr (h ▸ houtside))
      have hend := dependency_of_size_le houtside
      exact ⟨1, by omega, .onward hold hother (by rw [hend]; exact .ended)⟩

/-! ## What the search finds -/

/-- What the search answers yes to is reached. -/
theorem Answers.reached {seen : List TokenId} {current : Option TokenId} {turns : Nat}
    {answer : Bool} (h : Answers s candidate seen current turns answer) (yes : answer = true) :
    ∃ t, current = some t ∧ Relation.ReflTransGen s.DependsOn t candidate := by
  induction h with
  | ended => cases yes
  | closed => cases yes
  | met => exact ⟨candidate, rfl, .refl⟩
  | @onward seen t turns answer _ _ _ ih =>
    obtain ⟨v, hv, hreached⟩ := ih yes
    exact ⟨t, rfl, .head hv hreached⟩

/-- What is known of the tokens that the search has seen when it has come to `current`. -/
structure Passed (s : Store) (candidate : TokenId) (seen : List TokenId)
    (current : Option TokenId) : Prop where
  /-- None of them is the token that is searched for. -/
  missed : candidate ∉ seen
  /-- What they depend on was seen as well, or is what the search has come to. -/
  linked : ∀ u ∈ seen, ∀ v, s.DependsOn u v → v ∈ seen ∨ current = some v

namespace Passed

variable {seen : List TokenId} {current : Option TokenId}

theorem start (t : TokenId) : Passed s candidate [] (some t) := ⟨List.not_mem_nil, nofun⟩

/-- A turn that does not answer keeps what is known. -/
theorem next {t : TokenId} (h : Passed s candidate seen (some t)) (other : t ≠ candidate) :
    Passed s candidate (t :: seen) (s.token t).dependency where
  missed hmem := by
    rcases List.mem_cons.mp hmem with heq | hseen
    · exact other heq.symm
    · exact h.missed hseen
  linked u hu v hv := by
    rcases List.mem_cons.mp hu with rfl | hseen
    · exact .inr hv
    · rcases h.linked u hseen v hv with hold | hcurrent
      · exact .inl (List.mem_cons_of_mem t hold)
      · exact .inl (Option.some.inj hcurrent ▸ List.mem_cons_self)

/-- Where the search gives up, the tokens that it has seen lead only to one another, and the one
that is searched for is not among them. -/
theorem not_reached (h : Passed s candidate seen current) (stuck : ∀ t, current = some t → t ∈ seen)
    {u : TokenId} (hu : u ∈ seen) : ¬ Relation.ReflTransGen s.DependsOn u candidate := by
  have hstays : ∀ v, Relation.ReflTransGen s.DependsOn u v → v ∈ seen := by
    intro v hv
    induction hv with
    | refl => exact hu
    | @tail a v _ hav ih =>
      rcases h.linked a ih v hav with hold | hcurrent
      · exact hold
      · exact stuck v hcurrent
  exact fun hreached => h.missed (hstays candidate hreached)

end Passed

/-- What the search answers no to is not reached, neither from the token that it has come to nor
from those that it has seen. -/
theorem Answers.not_reached {seen : List TokenId} {current : Option TokenId} {turns : Nat}
    {answer : Bool} (h : Answers s candidate seen current turns answer) (no : answer = false)
    (passed : Passed s candidate seen current) :
    ∀ u, u ∈ seen ∨ current = some u → ¬ Relation.ReflTransGen s.DependsOn u candidate := by
  induction h with
  | ended =>
    rintro u (hu | hu)
    · exact passed.not_reached nofun hu
    · cases hu
  | @closed seen t old =>
    have hstuck : ∀ v, some t = some v → v ∈ seen := by
      rintro v ⟨⟩
      exact old
    rintro u (hu | hu)
    · exact passed.not_reached hstuck hu
    · exact passed.not_reached hstuck (hstuck u hu)
  | met => cases no
  | @onward seen t turns answer _ other _ ih =>
    rintro u (hu | hu)
    · exact ih no (passed.next other) u (.inl (List.mem_cons_of_mem t hu))
    · cases hu
      exact ih no (passed.next other) t (.inl List.mem_cons_self)

/-- The answer of the search says whether the token is reached. -/
theorem Answers.iff {t : TokenId} {turns : Nat} {answer : Bool}
    (h : Answers s candidate [] (some t) turns answer) :
    answer = true ↔ Relation.ReflTransGen s.DependsOn t candidate := by
  constructor
  · intro yes
    obtain ⟨u, hu, hreached⟩ := h.reached yes
    cases hu
    exact hreached
  · intro hreached
    cases hanswer : answer with
    | true => rfl
    | false => exact absurd hreached (h.not_reached hanswer (.start t) t (.inr rfl))

theorem isAncestor_iff (inside : candidate < s.tokens.size) (t : TokenId) :
    s.isAncestor candidate t = true ↔ Relation.ReflTransGen s.DependsOn t candidate := by
  obtain ⟨turns, -, hanswers⟩ := answers_walkMeets inside [] t
  exact hanswers.iff

/-- **The search for an ancestor is exact**, whatever the dependencies are.  It answers after at
most one turn more than there are tokens, and it answers yes exactly if the candidate is reached
from the token along dependencies.  So every token is its own ancestor, and an ancestor of an
ancestor is an ancestor. -/
theorem isAncestor_exact (s : Store) :
    (∀ candidate < s.tokens.size, ∀ t,
      (∃ turns ≤ s.tokens.size + 1,
        Answers s candidate [] (some t) turns (s.isAncestor candidate t)) ∧
      (s.isAncestor candidate t = true ↔ Relation.ReflTransGen s.DependsOn t candidate)) ∧
    (∀ t < s.tokens.size, s.isAncestor t t = true) ∧
    (∀ a < s.tokens.size, ∀ b < s.tokens.size, ∀ t,
      s.isAncestor a b = true → s.isAncestor b t = true → s.isAncestor a t = true) := by
  refine ⟨?search, ?reflexive, ?transitive⟩
  case search =>
    intro candidate inside t
    obtain ⟨turns, hturns, hanswers⟩ := answers_walkMeets inside [] t
    have hall : s.unseen [] ≤ s.tokens.size := by
      have hfilter := List.length_filter_le (· ∉ ([] : List TokenId)) (List.range s.tokens.size)
      rwa [List.length_range] at hfilter
    exact ⟨⟨turns, by omega, hanswers⟩, isAncestor_iff inside t⟩
  case reflexive =>
    intro t inside
    exact (isAncestor_iff inside t).mpr .refl
  case transitive =>
    intro a ha b hb t hab hbt
    have hb' := (isAncestor_iff hb t).mp hbt
    have ha' := (isAncestor_iff ha b).mp hab
    exact (isAncestor_iff ha t).mpr (hb'.trans ha')

/-- A chain that comes back to its second token, and a token that depends on itself. -/
def lasso : Store where
  tokens := #[
    { name := "a", kind := .input, dependency := some 1, trail := 0 },
    { name := "$b", kind := .reference, dependency := some 2, trail := 1 },
    { name := "$c", kind := .reference, dependency := some 1, trail := 2 },
    { name := "d", kind := .input, dependency := some 3, trail := 3 }]
  trails := #[[], [], [], []]

/-- What lies on the ring is found from in front of it, and what lies in front is not found from the
ring. -/
theorem lasso_searched : 2 < lasso.tokens.size ∧ 0 < lasso.tokens.size ∧
    lasso.isAncestor 2 0 = true ∧ lasso.isAncestor 0 2 = false := by
  have htwo : 2 < lasso.tokens.size := by decide
  have hzero : 0 < lasso.tokens.size := by decide
  have hring : Relation.ReflTransGen lasso.DependsOn 0 2 := .head (b := 1) rfl (.single rfl)
  have hfront : ¬ Relation.ReflTransGen lasso.DependsOn 2 0 := by
    intro h
    have hnothing : ∀ t < 4, (lasso.token t).dependency ≠ some 0 := by decide
    rcases h.cases_tail with heq | ⟨t, -, ht⟩
    · cases heq
    · by_cases hlt : t < 4
      · exact hnothing t hlt ht
      · have hend := dependency_of_size_le (s := lasso) (Nat.not_lt.mp hlt)
        cases hend.symm.trans ht
  exact ⟨htwo, hzero, ((isAncestor_exact lasso).1 2 htwo 0).2.mpr hring,
    Bool.eq_false_iff.mpr (mt ((isAncestor_exact lasso).1 0 hzero 2).2.mp hfront)⟩

end Colourway.Store
