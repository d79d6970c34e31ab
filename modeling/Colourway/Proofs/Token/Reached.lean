import Colourway.Proofs.Document.Untold
import Colourway.Proofs.Token.Walk
import Mathlib.Logic.Relation

/-!
# What an explanation reaches

Trails and dependencies make a graph of tokens: a token refers to the dependency of each reference
on its trail.  The graph may have cycles, tokens may share the steps on their trails, and a token
need not be under any key.  An explanation goes down this graph and passes over a token only while
that token's own derivation is being told, which it forgets again on the way back, so tokens are
told more than once.  Still an explanation comes to an end; it tells nothing twice, and exactly what
the tokens say that can be reached, unless one of them says an integer of too many digits
(**`explain_reached`**).

* `RefersTo` — one step of the graph.
* `Clear` — a way that keeps clear of some tokens; `Clear.passes_or_leaves` takes a way from where
  it last leaves a token.
* `mem_walkToken_iff` — the walk tells what lies on clear ways.
-/

namespace Colourway.Store

/-! ## The graph of tokens -/

/-- A token refers to a token: some reference on its trail depends on that one. -/
def RefersTo (s : Store) (t v : TokenId) : Prop :=
  v < s.tokens.size ∧ ∃ u ∈ s.trailOf t, (s.token u).kind = .reference ∧
    (s.token u).dependency = some v

/-- What a token says of itself: the value that it starts from, or one that it passed through. -/
def Says (s : Store) (t : TokenId) (value : Document) : Prop :=
  value = startValue (s.token t) ∨ ∃ u ∈ s.trailOf t, value = (s.token u).value

/-- What can be reached from a token are tokens. -/
theorem inside_of_reach {s : Store} {t u : TokenId} (h : Relation.ReflTransGen s.RefersTo t u)
    (ht : t < s.tokens.size) : u < s.tokens.size := by
  cases h with
  | refl => exact ht
  | tail _ hlast => exact hlast.1

/-- A way from one token to another along references that keeps clear of some tokens. -/
inductive Clear (s : Store) (avoided : List TokenId) : TokenId → TokenId → Prop
  /-- A token that is not avoided is reached from itself. -/
  | here {t : TokenId} (free : t ∉ avoided) : Clear s avoided t t
  /-- A way goes from a token that is not avoided to one that it refers to, and on from there. -/
  | step {t v u : TokenId} (free : t ∉ avoided) (refers : s.RefersTo t v)
      (rest : Clear s avoided v u) : Clear s avoided t u

namespace Clear

variable {s : Store} {avoided : List TokenId} {a t u : TokenId}

theorem free (h : Clear s avoided a u) : a ∉ avoided := by
  cases h with
  | here free => exact free
  | step free => exact free

/-- A way that avoids more tokens avoids fewer. -/
theorem weaken (h : Clear s (t :: avoided) a u) : Clear s avoided a u := by
  induction h with
  | here free => exact .here (mt (List.mem_cons_of_mem t) free)
  | step free refers _ ih => exact .step (mt (List.mem_cons_of_mem t) free) refers ih

/-- A way passes a token by, ends there, or leaves it for the last time. -/
theorem passes_or_leaves (h : Clear s avoided a u) (t : TokenId) :
    Clear s (t :: avoided) a u ∨ u = t ∨
      ∃ v, s.RefersTo t v ∧ Clear s (t :: avoided) v u := by
  induction h with
  | @here a free =>
    by_cases ha : a = t
    · exact .inr (.inl ha)
    · exact .inl (.here (by simp [ha, free]))
  | @step a v u free refers _ ih =>
    rcases ih with hclear | hleaves
    · by_cases ha : a = t
      · exact .inr (.inr ⟨v, ha ▸ refers, hclear⟩)
      · exact .inl (.step (by simp [ha, free]) refers hclear)
    · exact .inr hleaves

/-- A token that is not avoided reaches itself, and what can be reached without coming back to it
from the tokens that it refers to. -/
theorem iff_step (free : t ∉ avoided) :
    Clear s avoided t u ↔ u = t ∨ ∃ v, s.RefersTo t v ∧ Clear s (t :: avoided) v u := by
  constructor
  · intro h
    rcases h.passes_or_leaves t with hclear | hleaves
    · exact absurd List.mem_cons_self hclear.free
    · exact hleaves
  · rintro (rfl | ⟨v, hv, h⟩)
    · exact .here free
    · exact .step free hv h.weaken

/-- Nothing is avoided: a way is any way along references. -/
theorem nil_iff : Clear s [] t u ↔ Relation.ReflTransGen s.RefersTo t u := by
  constructor
  · intro h
    induction h with
    | here => exact .refl
    | step _ refers _ ih => exact .head refers ih
  · intro h
    induction h using Relation.ReflTransGen.head_induction_on with
    | refl => exact .here List.not_mem_nil
    | head refers _ ih => exact .step List.not_mem_nil refers ih

end Clear

/-! ## What is told -/

/-- Nothing is told of a number that is no token. -/
theorem inside_of_mem_walkToken {s : Store} {telling : List TokenId} {depth : Nat} {t : TokenId}
    {value : Document} (h : value ∈ (s.walkToken telling depth t).map Prod.fst) :
    t < s.tokens.size := by
  rw [walkToken] at h
  split at h
  · next hinside => exact hinside.1
  · cases h

/-- What one expression on a trail brings to the walk. -/
theorem mem_walkStep_iff (s : Store) (telling : List TokenId) (depth : Nat) (u : TokenId)
    (value : Document) :
    value ∈ ((match (s.token u).kind, (s.token u).dependency with
        | .reference, some entry => s.walkToken telling (depth + 1) entry
        | _, _ => []) ++ [((s.token u).value, depth)]).map Prod.fst ↔
      (∃ v, (s.token u).kind = .reference ∧ (s.token u).dependency = some v ∧
        value ∈ (s.walkToken telling (depth + 1) v).map Prod.fst) ∨
      value = (s.token u).value := by
  cases (s.token u).kind <;> cases (s.token u).dependency <;> simp

/-- The walk from a token comes to what the token says of itself, and goes on to the tokens that it
refers to, where the token itself is passed over. -/
theorem mem_walkToken_step {s : Store} {telling : List TokenId} {t : TokenId}
    (ht : t < s.tokens.size) (free : t ∉ telling) (depth : Nat) (value : Document) :
    value ∈ (s.walkToken telling depth t).map Prod.fst ↔
      s.Says t value ∨ ∃ v, s.RefersTo t v ∧
        value ∈ (s.walkToken (t :: telling) (depth + 1) v).map Prod.fst := by
  rw [walkToken, dif_pos ⟨ht, free⟩, List.map_cons, List.mem_cons, List.map_flatMap,
    List.mem_flatMap]
  constructor
  · rintro (hstart | ⟨u, hu, hmem⟩)
    · exact .inl (.inl hstart)
    · rcases (mem_walkStep_iff s _ depth u value).mp hmem with ⟨v, hkind, hdep, hbelow⟩ | hvalue
      · exact .inr ⟨v, ⟨inside_of_mem_walkToken hbelow, u, hu, hkind, hdep⟩, hbelow⟩
      · exact .inl (.inr ⟨u, hu, hvalue⟩)
  · rintro ((hstart | ⟨u, hu, hvalue⟩) | ⟨v, ⟨-, u, hu, hkind, hdep⟩, hbelow⟩)
    · exact .inl hstart
    · exact .inr ⟨u, hu, (mem_walkStep_iff s _ depth u value).mpr (.inr hvalue)⟩
    · exact .inr ⟨u, hu, (mem_walkStep_iff s _ depth u value).mpr (.inl ⟨v, hkind, hdep, hbelow⟩)⟩

/-- **The walk comes to what lies on clear ways**, that is on ways that keep clear of the tokens
whose derivation is being told. -/
theorem mem_walkToken_iff (s : Store) (value : Document) (telling : List TokenId) :
    ∀ (depth : Nat) {t : TokenId}, t < s.tokens.size →
      (value ∈ (s.walkToken telling depth t).map Prod.fst ↔
        ∃ u, Clear s telling t u ∧ s.Says u value) := by
  -- Each level has one token more that is being told, hence one token less that is not.
  induction hn : s.unseen telling using Nat.strongRecOn generalizing telling with
  | ind n ih =>
    subst hn
    intro depth t ht
    by_cases hfree : t ∈ telling
    · rw [walkToken, dif_neg fun h => h.2 hfree]
      simpa using fun u hclear _ => Clear.free hclear hfree
    · rw [mem_walkToken_step ht hfree]
      constructor
      · rintro (hself | ⟨v, hv, hmem⟩)
        · exact ⟨t, .here hfree, hself⟩
        · obtain ⟨u, hclear, hsaid⟩ :=
            (ih _ (unseen_cons_lt ht hfree) _ rfl _ hv.1).mp hmem
          exact ⟨u, (Clear.iff_step hfree).mpr (.inr ⟨v, hv, hclear⟩), hsaid⟩
      · rintro ⟨u, hclear, hsaid⟩
        rcases (Clear.iff_step hfree).mp hclear with rfl | ⟨v, hv, hrest⟩
        · exact .inl hsaid
        · exact .inr ⟨v, hv, (ih _ (unseen_cons_lt ht hfree) _ rfl _ hv.1).mpr
            ⟨u, hrest, hsaid⟩⟩

/-- The walk that an explanation tells comes to what is said by the tokens that can be reached. -/
theorem mem_walk_iff {s : Store} {t : TokenId} (ht : t < s.tokens.size) (P : Document → Prop) :
    (∃ item ∈ s.walkToken [] 0 t, P item.1) ↔
      ∃ u value, Relation.ReflTransGen s.RefersTo t u ∧ s.Says u value ∧ P value := by
  constructor
  · rintro ⟨item, hitem, hP⟩
    obtain ⟨u, hclear, hsaid⟩ :=
      (mem_walkToken_iff s item.1 [] 0 ht).mp (List.mem_map_of_mem hitem)
    exact ⟨u, item.1, Clear.nil_iff.mp hclear, hsaid, hP⟩
  · rintro ⟨u, value, hreach, hsaid, hP⟩
    obtain ⟨item, hitem, rfl⟩ := List.mem_map.mp
      ((mem_walkToken_iff s value [] 0 ht).mpr ⟨u, Clear.nil_iff.mpr hreach, hsaid⟩)
    exact ⟨item, hitem, hP⟩

/-- **An explanation tells what can be reached, once.**  Whatever the trails and the dependencies
are, the explanation of a key comes to an end.  It starts with the value that the token under the
key starts from, at depth 0; no two of its lines have the same expression; and its expressions are
exactly the texts of what is said of themselves by the tokens which can be reached along
references.  There is no explanation exactly if one of these tokens says a value that cannot be
told, for an integer of too many digits. -/
theorem explain_reached {s : Store} {key : Text} {t : TokenId} (found : s.find? key = some t)
    (inside : t < s.tokens.size) :
    (∀ lines, s.explain key = .ok lines →
      (∃ text, (startValue (s.token t)).spliced? = some text ∧
        lines.head? = some ⟨text, Syntax.classify text, 0⟩) ∧
      (lines.map Explained.expression).Nodup ∧
      ∀ text, text ∈ lines.map Explained.expression ↔
        ∃ u value, Relation.ReflTransGen s.RefersTo t u ∧ s.Says u value ∧
          value.spliced? = some text) ∧
    ∀ f, s.explain key = .error f ↔
      f = .longInteger ∧ ∃ u value, Relation.ReflTransGen s.RefersTo t u ∧ s.Says u value ∧
        value.spliced? = none := by
  refine ⟨fun lines hlines => ?told, fun f => ?untold⟩
  case untold => rw [explain_error_iff found, mem_walk_iff inside (·.spliced? = none)]
  case told =>
    obtain ⟨hhead, htold⟩ := explain_of_inside found inside hlines
    refine ⟨hhead, ?once, fun text => ?reached⟩
    case once =>
      rw [htold]
      exact nodup_eraseDups _
    case reached =>
      rw [htold, List.mem_eraseDups, walked, Explained.texts, List.mem_filterMap,
        mem_walk_iff inside (·.spliced? = some text)]

/-- Two entries that refer to each other.  The steps of their trails are under no key. -/
def ring : Store where
  tokens := #[
    { name := "a", kind := .input, raw := .text "$b", value := .text "#fff", trail := 0 },
    { name := "b", kind := .input, value := .text "#fff", trail := 1 },
    { name := "$b", kind := .reference, value := .text "$a", dependency := some 1, trail := 2 },
    { name := "$a", kind := .reference, value := .text "#000", dependency := some 0, trail := 2 }]
  trails := #[[2], [3], []]
  index := [("a", 0), ("b", 1)]

theorem ring_told : ∀ u < ring.tokens.size, (startValue (ring.token u)).spliced?.isSome ∧
    ∀ w ∈ ring.trailOf u, (ring.token w).value.spliced?.isSome := by
  decide

/-- The explanation of one entry comes to an end and tells what the other passed through. -/
theorem ring_reached : ring.find? "a" = some 0 ∧ 0 < ring.tokens.size ∧
    ∃ lines, ring.explain "a" = .ok lines ∧ (lines.map Explained.expression).Nodup ∧
      ("#000" : Text) ∈ lines.map Explained.expression := by
  have found : ring.find? "a" = some 0 := rfl
  have inside : 0 < ring.tokens.size := by decide
  obtain ⟨htold, huntold⟩ := explain_reached found inside
  cases hlines : ring.explain "a" with
  | error f =>
    obtain ⟨-, u, value, hreach, hsaid, hnone⟩ := (huntold f).mp hlines
    obtain ⟨hstart, htrail⟩ := ring_told u (inside_of_reach hreach inside)
    rcases hsaid with rfl | ⟨w, hw, rfl⟩
    · rw [hnone] at hstart
      cases hstart
    · have hw := htrail w hw
      rw [hnone] at hw
      cases hw
  | ok lines =>
    obtain ⟨-, honce, hreached⟩ := htold lines hlines
    refine ⟨found, inside, lines, rfl, honce, (hreached _).mpr ⟨1, .text "#000", ?_, ?_, rfl⟩⟩
    · exact .single ⟨by decide, 2, List.mem_singleton_self 2, rfl, rfl⟩
    · exact .inr ⟨3, List.mem_singleton_self 3, rfl⟩

/-- A token with an integer of too many digits. -/
def untold : Store where
  tokens := #[{
    name := "a", kind := .input, raw := .scalar (.int longInteger),
    value := .scalar (.int longInteger), trail := 0 }]
  trails := #[[]]
  index := [("a", 0)]

/-- A key that is in use need not have an explanation. -/
theorem untold_unexplained : untold.find? "a" = some 0 ∧ 0 < untold.tokens.size ∧
    untold.explain "a" = .error .longInteger := by
  have found : untold.find? "a" = some 0 := rfl
  have hstart : startValue (untold.token 0) = .scalar (.int longInteger) := rfl
  refine ⟨found, by decide, (explain_error_iff found).mpr
    ⟨rfl, (.scalar (.int longInteger), 0), ?_, spliced?_longInteger⟩⟩
  rw [walkToken_inside (by decide), hstart]
  exact List.mem_cons_self

end Colourway.Store
