import Colourway.Proofs.Except
import Colourway.Proofs.Token.Trail
import Colourway.Token.Explain
import Mathlib.Data.List.Induction

/-!
# The walk behind an explanation

An explanation is a walk through trails and dependencies in which no expression is told twice.  Here
the walk is taken with every repetition (`walkToken`), and the explanation is what is left of it
when each expression is told at its first occurrence only (**`explain_of_inside`**); there is none
if the walk comes to a value that cannot be told (`explain_error_iff`).  So it starts where the walk
starts, and it ends with a text exactly if the walk comes to that text, and to nothing new after it
(`getLast?_eraseDups_iff`).
-/

namespace Colourway

/-! ## Telling -/

namespace Explained

/-- The lines with further ones for the values of a walk, unless they are told already. -/
def tellAll (lines : List Explained) (walk : List (Document × Nat)) :
    Except Fault (List Explained) :=
  walk.foldlM (fun lines item => tell lines item.1 item.2) lines

/-- The texts that a walk comes to. -/
def texts (walk : List (Document × Nat)) : List Text := walk.filterMap (·.1.spliced?)

theorem tellAll_cons (lines : List Explained) (item : Document × Nat)
    (walk : List (Document × Nat)) :
    tellAll lines (item :: walk) = tell lines item.1 item.2 >>= fun told => tellAll told walk :=
  List.foldlM_cons

theorem tellAll_append (lines : List Explained) (first second : List (Document × Nat)) :
    tellAll lines (first ++ second) = tellAll lines first >>= fun told => tellAll told second :=
  List.foldlM_append

theorem tellAll_singleton (lines : List Explained) (value : Document) (depth : Nat) :
    tellAll lines [(value, depth)] = tell lines value depth :=
  foldlM_singleton (value, depth) lines

/-- A value that can be told is told unless it was told before. -/
theorem tell_of_some {value : Document} {text : Text} (h : value.spliced? = some text)
    (lines : List Explained) (depth : Nat) :
    tell lines value depth = .ok (if text ∈ lines.map expression then lines
      else lines ++ [⟨text, Syntax.classify text, depth⟩]) := by
  have htold : (lines.any (·.expression == text)) = decide (text ∈ lines.map expression) := by
    rw [Bool.eq_iff_iff]
    simp only [List.any_eq_true, beq_iff_eq, decide_eq_true_eq, List.mem_map]
  rw [tell, h]
  simp only [htold, decide_eq_true_eq]
  split <;> rfl

theorem tell_of_none {value : Document} (h : value.spliced? = none) (lines : List Explained)
    (depth : Nat) : tell lines value depth = .error .longInteger := by
  rw [tell, h]

/-- A walk is not told exactly if it comes to a value that cannot be told. -/
theorem tellAll_error_iff (walk : List (Document × Nat)) {f : Fault} :
    ∀ {lines : List Explained}, tellAll lines walk = .error f ↔
      f = .longInteger ∧ ∃ item ∈ walk, item.1.spliced? = none := by
  induction walk with
  | nil => simp [tellAll, pure, Except.pure]
  | cons item walk ih =>
    intro lines
    rw [tellAll_cons, List.exists_mem_cons_iff]
    cases h : item.1.spliced? with
    | none =>
      rw [tell_of_none h]
      simp [bind, Except.bind, eq_comm]
    | some text =>
      rw [tell_of_some h]
      simp only [reduceCtorEq, false_or]
      exact ih

/-- The expressions of a walk are told without repetitions. -/
theorem expressions_tellAll (walk : List (Document × Nat)) : ∀ {lines told : List Explained}
    {names : List Text}, tellAll lines walk = .ok told →
      lines.map expression = names.eraseDups →
      told.map expression = (names ++ texts walk).eraseDups := by
  induction walk with
  | nil =>
    rintro lines told names ⟨⟩ h
    simpa [texts] using h
  | cons item walk ih =>
    intro lines told names htold h
    rw [tellAll_cons] at htold
    obtain ⟨first, hfirst, hrest⟩ := bind_eq_ok_iff.mp htold
    cases hitem : item.1.spliced? with
    | none =>
      rw [tell_of_none hitem] at hfirst
      cases hfirst
    | some text =>
      rw [tell_of_some hitem] at hfirst
      have hone : first.map expression = (names ++ [text]).eraseDups := by
        rw [← Except.ok.inj hfirst, Store.eraseDups_concat, h]
        by_cases hmem : text ∈ names <;> simp [hmem, h]
      rw [ih hrest hone, texts, texts, List.filterMap_cons, hitem, List.append_assoc,
        List.singleton_append]

/-- What is told first stays in front. -/
theorem head?_tellAll (walk : List (Document × Nat)) :
    ∀ {lines told : List Explained} {line : Explained}, tellAll lines walk = .ok told →
      lines.head? = some line → told.head? = some line := by
  induction walk with
  | nil =>
    rintro lines told line ⟨⟩ h
    exact h
  | cons item walk ih =>
    intro lines told line htold h
    rw [tellAll_cons] at htold
    obtain ⟨first, hfirst, hrest⟩ := bind_eq_ok_iff.mp htold
    refine ih hrest ?_
    cases hitem : item.1.spliced? with
    | none =>
      rw [tell_of_none hitem] at hfirst
      cases hfirst
    | some text =>
      rw [tell_of_some hitem] at hfirst
      rw [← Except.ok.inj hfirst]
      split
      · exact h
      · rw [List.head?_append, h, Option.some_or]

end Explained

/-! ## Walking -/

namespace Store

/-- The derivation of a token with every repetition: the value that it starts from, and for each
expression on its trail the derivation of the entry that it refers to and the value that it came to.
Each value comes with the number of references that lie between. -/
def walkToken (s : Store) (telling : List TokenId) (depth : Nat) (t : TokenId) :
    List (Document × Nat) :=
  if _inside : t < s.tokens.size ∧ t ∉ telling then
    (startValue (s.token t), depth) ::
      (s.trailOf t).flatMap fun u =>
        (match (s.token u).kind, (s.token u).dependency with
          | .reference, some entry => walkToken s (t :: telling) (depth + 1) entry
          | _, _ => []) ++ [((s.token u).value, depth)]
  else []
termination_by s.unseen telling
decreasing_by exact unseen_cons_lt _inside.1 _inside.2

/-- **An explanation tells the walk.** -/
theorem tellToken_eq (s : Store) (telling : List TokenId) (depth : Nat) (lines : List Explained)
    (t : TokenId) :
    s.tellToken telling depth lines t = Explained.tellAll lines (s.walkToken telling depth t) := by
  induction hn : s.unseen telling using Nat.strongRecOn generalizing telling depth lines t with
  | ind n ih =>
    subst hn
    rw [tellToken, walkToken]
    by_cases hinside : t < s.tokens.size ∧ t ∉ telling
    · rw [dif_pos hinside, dif_pos hinside, Explained.tellAll_cons]
      refine bind_congr fun told => ?_
      -- Along the trail, each expression tells its part of the walk.
      induction s.trailOf t generalizing told with
      | nil => rfl
      | cons u trail ihtrail =>
        rw [List.foldlM_cons, List.flatMap_cons, Explained.tellAll_append]
        refine congrArg₂ (· >>= ·) ?_ (funext ihtrail)
        simp only [Explained.tellAll_append, Explained.tellAll_singleton]
        cases (s.token u).kind with
        | reference =>
          cases (s.token u).dependency with
          | some entry =>
            exact congrArg (· >>= _) (ih _ (unseen_cons_lt hinside.1 hinside.2) _ _ _ _ rfl)
          | none => rfl
        | _ => rfl
    · rw [dif_neg hinside, dif_neg hinside]
      rfl

/-- The texts that the walk from a token comes to, in order. -/
def walked (s : Store) (t : TokenId) : List Text := Explained.texts (s.walkToken [] 0 t)

theorem walkToken_inside {s : Store} {t : TokenId} (ht : t < s.tokens.size) :
    s.walkToken [] 0 t = (startValue (s.token t), 0) :: (s.trailOf t).flatMap fun u =>
      (match (s.token u).kind, (s.token u).dependency with
        | .reference, some entry => s.walkToken [t] 1 entry
        | _, _ => []) ++ [((s.token u).value, 0)] := by
  rw [walkToken, dif_pos ⟨ht, List.not_mem_nil⟩]

/-- The walk ends with the value of the last expression on the trail, or where it starts. -/
theorem getLast?_walked {s : Store} {t : TokenId} {text : Text} (ht : t < s.tokens.size)
    (h : (match (s.trailOf t).getLast? with
        | none => startValue (s.token t)
        | some u => (s.token u).value).spliced? = some text) :
    (s.walked t).getLast? = some text := by
  rw [walked, walkToken_inside ht]
  cases hlast : (s.trailOf t).getLast? with
  | none =>
    rw [hlast] at h
    rw [List.getLast?_eq_none_iff] at hlast
    simp [Explained.texts, hlast, h]
  | some u =>
    simp only [hlast] at h
    obtain ⟨before, htrail⟩ := List.getLast?_eq_some_iff.mp hlast
    rw [htrail, List.flatMap_append, List.flatMap_singleton, ← List.append_assoc,
      ← List.cons_append, Explained.texts, List.filterMap_append,
      List.filterMap_cons_some (a := ((s.token u).value, 0)) h, List.filterMap_nil,
      List.getLast?_concat]

variable {s : Store} {key : Text} {t : TokenId}

theorem explain_eq_tellAll (hf : s.find? key = some t) :
    s.explain key = Explained.tellAll [] (s.walkToken [] 0 t) := by
  rw [explain, hf, ← tellToken_eq]

/-- A token is explained unless the walk from it comes to a value that cannot be told. -/
theorem explain_error_iff (hf : s.find? key = some t) {f : Fault} :
    s.explain key = .error f ↔
      f = .longInteger ∧ ∃ item ∈ s.walkToken [] 0 t, item.1.spliced? = none := by
  rw [explain_eq_tellAll hf, Explained.tellAll_error_iff]

/-- **The explanation of a token** starts with the value that the token starts from, and tells the
texts that the walk comes to without repetitions. -/
theorem explain_of_inside (hf : s.find? key = some t) (ht : t < s.tokens.size)
    {lines : List Explained} (h : s.explain key = .ok lines) :
    (∃ text, (startValue (s.token t)).spliced? = some text ∧
      lines.head? = some ⟨text, Syntax.classify text, 0⟩) ∧
    lines.map Explained.expression = (s.walked t).eraseDups := by
  rw [explain_eq_tellAll hf] at h
  refine ⟨?head, ?told⟩
  case told =>
    have hnone : ([] : List Explained).map Explained.expression = ([] : List Text).eraseDups := rfl
    simpa [walked] using Explained.expressions_tellAll _ h hnone
  case head =>
    rw [walkToken_inside ht, Explained.tellAll_cons] at h
    obtain ⟨first, hfirst, hrest⟩ := bind_eq_ok_iff.mp h
    cases hstart : (startValue (s.token t)).spliced? with
    | none =>
      rw [Explained.tell_of_none hstart] at hfirst
      cases hfirst
    | some text =>
      rw [Explained.tell_of_some hstart, if_neg (by simp)] at hfirst
      refine ⟨text, rfl, Explained.head?_tellAll _ hrest ?_⟩
      rw [← Except.ok.inj hfirst]
      rfl

end Store

/-! ## Ending with a text -/

section Names

variable {α : Type} [BEq α] [LawfulBEq α]

theorem eraseDups_append_of_subset {names more : List α} (h : more ⊆ names) :
    (names ++ more).eraseDups = names.eraseDups := by
  have hnone : more.removeAll names = [] := by
    rw [List.removeAll, List.filter_eq_nil_iff]
    intro x hx
    simpa using h hx
  rw [List.eraseDups_append, hnone]
  simp

/-- Without its repetitions, a list ends with `x` exactly if nothing new comes after `x` first comes
up. -/
theorem getLast?_eraseDups_iff {names : List α} {x : α} :
    names.eraseDups.getLast? = some x ↔
      ∃ before after, names = before ++ x :: after ∧ x ∉ before ∧
        ∀ y ∈ after, y ∈ before ++ [x] := by
  constructor
  · induction names using List.reverseRecOn with
    | nil => simp
    | append_singleton names z ih =>
      rw [Store.eraseDups_concat]
      by_cases hz : z ∈ names
      · rw [if_pos hz]
        intro h
        obtain ⟨before, after, rfl, hx, hafter⟩ := ih h
        refine ⟨before, after ++ [z], by simp, hx, ?_⟩
        intro y hy
        rcases List.mem_append.mp hy with hy | hy
        · exact hafter y hy
        · obtain rfl := List.mem_singleton.mp hy
          rcases List.mem_append.mp hz with hz | hz
          · exact List.mem_append_left _ hz
          · rcases List.mem_cons.mp hz with rfl | hz
            · simp
            · exact hafter _ hz
      · rw [if_neg hz, List.getLast?_concat]
        intro h
        obtain rfl := Option.some.inj h
        exact ⟨names, [], rfl, hz, by simp⟩
  · rintro ⟨before, after, rfl, hx, hafter⟩
    have hsplit : before ++ x :: after = before ++ [x] ++ after := by simp
    rw [hsplit, eraseDups_append_of_subset hafter, Store.eraseDups_concat, if_neg hx,
      List.getLast?_concat]

end Names

end Colourway
