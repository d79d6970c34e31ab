import Colourway.Proofs.Resolve.Run
import Colourway.Proofs.Token.Change

/-!
# Resolution as seen from a scope

A scope sees of the store only its view: the value of each entry that is visible, under its path.
This file resolves a scope on a view alone, with no tokens, trails or dependencies, and says what
becomes of the view as the store changes.

* `View` — the values of the visible entries; `hide`, `put` and `learn` change it.
* `View.follow`, `View.visit`, `View.pass`, `View.passes`, `View.evaluate` — resolution on views.
  A step hides the entry, if there is one, whose path is the text before the step: its token takes
  that key over.
* `Store.view_add_entry`, `Store.view_add_step`, `Store.view_add_foreign`, `Store.view_setValue` —
  the view of a store after each of its changes.
* `Resolver.next_view` — a step of the store and a step of its view agree.
-/

namespace Colourway

/-- The value of each visible entry under its path. -/
abbrev View := Text → Option Document

/-- What the store shows to some scopes. -/
def Store.view (s : Store) (visible : List Scope) : View := fun path =>
  (s.findEntry? path visible).map fun t => (s.token t).value

namespace View

/-! ## Changing a view -/

/-- The view without the entry at a path. -/
def hide (v : View) (path : Text) : View := fun p => if p = path then none else v p

theorem hide_of_none {v : View} {path : Text} (h : v path = none) : v.hide path = v := by
  funext p
  rw [hide]
  split
  · next hp => rw [hp, h]
  · rfl

/-- The view with a value at a path. -/
def put (v : View) (path : Text) (value : Document) : View := fun p =>
  if p = path then some value else v p

/-- The view with another value at a path, if there is an entry. -/
def learn (v : View) (path : Text) (value : Document) : View := fun p =>
  if p = path then (v p).map fun _ => value else v p

/-! ## Resolving a view -/

/-- A text with its first reference replaced, if there is an entry that it refers to.  It is a fault
if the value of that entry cannot be told. -/
def refer (v : View) (key value : Text) : Except ColourError (Option Text) :=
  match Syntax.findReference value with
  | none => .ok none
  | some ref =>
    match v ref.path with
    | none => .ok none
    | some target =>
      if ref.path = key then .ok none
      else
        match target.spliced? with
        | none => .error (.fault .longInteger)
        | some shown => .ok (some (Text.replaceFirst ref.captured shown value))

/-- What becomes of a text with a reference, by what the reference leads to. -/
theorem refer_found {v : View} {key value : Text} {ref : Syntax.Reference}
    (h : Syntax.findReference value = some ref) :
    v.refer key value =
      match v ref.path with
      | none => .ok none
      | some target =>
        if ref.path = key then .ok none
        else
          match target.spliced? with
          | none => .error (.fault .longInteger)
          | some shown => .ok (some (Text.replaceFirst ref.captured shown value)) := by
  unfold refer
  rw [h]

/-- The text after one step on the value of the entry at `key`, if there is a step. -/
def next (r : Resolver) (v : View) (key value : Text) : Except ColourError (Option Text) :=
  match Syntax.classify value with
  | .hex => .ok (Syntax.normalHex? value)
  | .reference => v.refer key value
  | .call =>
    match Syntax.findCall value with
    | none => .ok none
    | some call =>
      (r.math.apply (.ofName call.name call.args call.captured)).map fun result =>
        some (Text.replaceFirst call.captured result value)
  | .literal => .ok none

/-- Follows at most `steps` steps on the value of the entry at `key`. -/
def follow (r : Resolver) (key : Text) :
    (steps : Nat) → (seen : List Text) → View → Text → Except Failure (View × Text)
  | 0, _, v, value => .ok (v, value)
  | steps + 1, seen, v, value =>
    match v.next r key value with
    | .error e => .error (Resolver.blame key e)
    | .ok none => .ok (v, value)
    | .ok (some x) =>
      if x = value then .ok (v, value)
      else if x ∈ seen then .ok (v.hide value, x)
      else follow r key steps (x :: seen) (v.hide value) x

theorem follow_succ (r : Resolver) (key : Text) (steps : Nat) (seen : List Text) (v : View)
    (value : Text) :
    follow r key (steps + 1) seen v value =
      match v.next r key value with
      | .error e => .error (Resolver.blame key e)
      | .ok none => .ok (v, value)
      | .ok (some x) =>
        if x = value then .ok (v, value)
        else if x ∈ seen then .ok (v.hide value, x)
        else follow r key steps (x :: seen) (v.hide value) x := rfl

/-- An entry and its value now. -/
abbrev Item := Entry × Document

/-- Visits one entry. -/
def visit (r : Resolver) (v : View) (item : Item) : Except Failure (View × Item × Bool) :=
  match item.2.text? with
  | none => .ok (v, item, false)
  | some value =>
    (follow r item.1.flat r.limit [value] v value).map fun out =>
      (out.1.learn item.1.flat (.text out.2), (item.1, .text out.2), out.2 != value)

/-- Visits every entry once. -/
def pass (r : Resolver) : View → List Item → Except Failure (View × List Item × Bool)
  | v, [] => .ok (v, [], false)
  | v, item :: rest =>
    match visit r v item with
    | .error f => .error f
    | .ok (v, item, changed) =>
      match pass r v rest with
      | .error f => .error f
      | .ok (v, rest, changed') => .ok (v, item :: rest, changed || changed')

/-- The view and the entries between passes, and the number of passes that changed a value. -/
structure Round where
  /-- The view. -/
  view : View
  /-- The entries with their values. -/
  items : List Item
  /-- The number of passes that changed a value. -/
  changing : Nat

/-- Makes at most `left` passes. -/
def passes (r : Resolver) : (left : Nat) → Round → Except (Failure × Nat) Round
  | 0, p => .ok p
  | left + 1, p =>
    match pass r p.view p.items with
    | .error f => .error (f, p.changing)
    | .ok (v, items, changed) =>
      if changed then passes r left ⟨v, items, p.changing + 1⟩ else .ok ⟨v, items, p.changing⟩

/-- The view with the entries in it. -/
def enterAll (r : Resolver) (v : View) (entries : List Entry) : View :=
  entries.foldl (fun v e => v.put e.flat (r.expand e.value)) v

/-- The entries with their values before the first pass. -/
def items (r : Resolver) (entries : List Entry) : List Item :=
  entries.map fun e => (e, r.expand e.value)

/-- Whether an entry still holds a reference or a call. -/
def unfinished (item : Item) : Bool := item.2.text?.any fun v => Syntax.hasUnresolved v

/-- What passes come to: the final entries, or the paths of those that are left unresolved. -/
def result (scope : Scope) (items : List Item) : Except Failure (List Entry) :=
  match (items.filter unfinished).map (·.1.flat) with
  | [] => .ok (items.map fun item => item.1.withValue item.2)
  | paths => .error (.error (.unresolved paths (some scope.name)))

/-- Resolves the entries of a scope on a view: the outcome, and the number of changing passes. -/
def evaluate (r : Resolver) (scope : Scope) (v : View) (entries : List Entry) :
    Except Failure (List Entry) × Nat :=
  match passes r r.limit ⟨v.enterAll r entries, items r entries, 0⟩ with
  | .error (f, changing) => (.error f, changing)
  | .ok p => (result scope p.items, p.changing)

end View

/-! ## What the store shows -/

/-- The value of a token as some scopes see it: nothing, unless it is an entry of one of them. -/
def Token.seenFrom (visible : List Scope) (x : Token) : Option Document :=
  if x.isEntry && x.scope.any visible.contains then some x.value else none

theorem Token.seenFrom_step {visible : List Scope} {x : Token} (h : x.kind ≠ .input) :
    x.seenFrom visible = none := by
  simp [seenFrom, isEntry, h]

theorem Token.seenFrom_entry {visible : List Scope} {x : Token} {scope : Scope}
    (hkind : x.kind = .input) (hscope : x.scope = some scope) (hvis : scope ∈ visible) :
    x.seenFrom visible = some x.value := by
  simp [seenFrom, isEntry, hkind, hscope, hvis]

namespace Store

variable {s : Store} {visible : List Scope} {path : Text} {t : TokenId}

theorem find?_of_findEntry (h : s.findEntry? path visible = some t) : s.find? path = some t := by
  unfold findEntry? at h
  rw [Option.filter_eq_some_iff] at h
  exact h.1

/-- The view at a path is what the token under the path shows. -/
theorem view_eq (s : Store) (visible : List Scope) (path : Text) :
    s.view visible path = (s.find? path).bind fun t => (s.token t).seenFrom visible := by
  rw [view, findEntry?]
  cases s.find? path with
  | none => rfl
  | some t =>
    rw [Option.filter_some, Option.bind_some, Token.seenFrom]
    split <;> rfl

theorem view_congr {s' : Store} (hfind : s'.find? path = s.find? path)
    (htok : ∀ t, s.find? path = some t →
      (s'.token t).seenFrom visible = (s.token t).seenFrom visible) :
    s'.view visible path = s.view visible path := by
  rw [view_eq, view_eq, hfind]
  exact Option.bind_congr fun t ht => htok t ht

/-- A token that shows nothing hides the entry whose key it takes over. -/
theorem view_add_unseen (hs : s.Sound) (hn : s.Named) {d : Draft}
    (unseen : ∀ x : Token, x.kind = d.kind → x.scope = d.scope → x.seenFrom visible = none) :
    (s.add d).1.view visible = (s.view visible).hide d.name := by
  obtain ⟨hk, hsc, -⟩ := hs.token_add_self d
  funext p
  by_cases hp : p = d.name
  · rw [View.hide, if_pos hp, view_eq, find?_add, if_pos hp, Option.bind_some, unseen _ hk hsc]
  · rw [View.hide, if_neg hp]
    refine view_congr ?_ ?_
    · rw [find?_add, if_neg hp]
    · intro t ht
      rw [hn.token_add_of_ne hs ht hp]

/-- A step hides the entry whose path is the text before the step. -/
theorem view_add_step (hs : s.Sound) (hn : s.Named) {d : Draft} (hkind : d.kind ≠ .input) :
    (s.add d).1.view visible = (s.view visible).hide d.name := by
  refine view_add_unseen hs hn ?_
  intro x hk _
  exact Token.seenFrom_step (by rw [hk]; exact hkind)

/-- So does an entry of a scope that cannot be seen. -/
theorem view_add_foreign (hs : s.Sound) (hn : s.Named) {d : Draft} {scope : Scope}
    (hscope : d.scope = some scope) (hvis : scope ∉ visible) :
    (s.add d).1.view visible = (s.view visible).hide d.name := by
  refine view_add_unseen hs hn ?_
  intro x _ hsc
  simp [Token.seenFrom, hsc, hscope, hvis]

/-- An entry of a visible scope is seen at its path. -/
theorem view_add_entry (hs : s.Sound) (hn : s.Named) {d : Draft} (hkind : d.kind = .input)
    {scope : Scope} (hscope : d.scope = some scope) (hvis : scope ∈ visible) :
    (s.add d).1.view visible = (s.view visible).put d.name d.value := by
  obtain ⟨hk, hsc, hval⟩ := hs.token_add_self d
  funext p
  by_cases hp : p = d.name
  · rw [View.put, if_pos hp, view_eq, find?_add, if_pos hp, Option.bind_some,
      Token.seenFrom_entry (hk.trans hkind) (hsc.trans hscope) hvis, hval]
  · rw [View.put, if_neg hp]
    refine view_congr ?_ ?_
    · rw [find?_add, if_neg hp]
    · intro t ht
      rw [hn.token_add_of_ne hs ht hp]

/-- What a token is ascribed to is not seen. -/
@[simp] theorem view_setParent (s : Store) (t : TokenId) (parent : Option Text) :
    (s.setParent t parent).view visible = s.view visible := by
  funext p
  refine view_congr rfl fun u _ => ?_
  refine token_update_congr (Token.seenFrom visible) (f := fun x => { x with parent := parent })
    ?_ s t u
  exact fun _ => rfl

/-- Trails are not seen. -/
@[simp] theorem view_addTrail (s : Store) (t : TokenId) (steps : List TokenId) :
    (s.addTrail t steps).view visible = s.view visible := by
  funext p
  exact view_congr rfl fun _ _ => rfl

/-- A new value of a token is seen at its name, if the token still holds that key. -/
theorem view_setValue (hn : s.Named) (hname : (s.token t).name = path) (ht : t < s.tokens.size)
    (hplace : s.view visible path = none ∨ s.find? path = some t) (value : Document) :
    (s.setValue t value).view visible = (s.view visible).learn path value := by
  have hother : ∀ {p u}, s.find? p = some u → u ≠ t →
      (s.setValue t value).token u = s.token u := by
    intro p u _ hu
    exact token_update_of_ne hu _
  funext p
  by_cases hp : p = path
  · subst hp
    rw [View.learn, if_pos rfl, view_eq, view_eq]
    show (s.find? p).bind _ = _
    cases hf : s.find? p with
    | none => rfl
    | some u =>
      rw [Option.bind_some, Option.bind_some]
      by_cases hu : u = t
      · rw [hu, setValue, token_update_self ht, Token.seenFrom, Token.seenFrom]
        show (if (s.token t).isEntry && (s.token t).scope.any visible.contains then _ else _) = _
        split <;> rfl
      · have hnone : s.view visible p = none := by
          rcases hplace with h | h
          · exact h
          · exact absurd (Option.some.inj (hf.symm.trans h)) hu
        rw [view_eq, hf, Option.bind_some] at hnone
        rw [hother hf hu, hnone]
        rfl
  · rw [View.learn, if_neg hp]
    refine view_congr rfl ?_
    intro u hu
    have hne : u ≠ t := by
      rintro rfl
      exact hp ((hn _ _ hu).symm.trans hname)
    rw [hother hu hne]

end Store

/-! ## Steps -/

namespace Resolver

variable {r : Resolver} {scope : Scope}

/-- A step on the store comes to the step on its view. -/
theorem next_view {s : Store} (hn : s.Named) (key value : Text) :
    (s.view scope.visible).next r key value =
      (r.step s scope key value).map fun d => d.bind fun d => d.value.text? := by
  unfold View.next step
  cases Syntax.classify value with
  | hex =>
    refine congrArg Except.ok ?_
    rw [hexStep]
    cases Syntax.normalHex? value <;> rfl
  | reference =>
    simp only [View.refer, referenceStep]
    cases Syntax.findReference value with
    | none => rfl
    | some ref =>
      simp only [Store.view]
      cases ht : s.findEntry? ref.path scope.visible with
      | none => rfl
      | some t =>
        have hname : (s.token t).name = ref.path := hn _ _ (Store.find?_of_findEntry ht)
        simp only [Option.map_some, hname]
        split
        · rfl
        · cases (s.token t).value.spliced? <;> rfl
  | call =>
    simp only [callStep]
    cases Syntax.findCall value with
    | none => rfl
    | some call =>
      simp only
      cases r.math.apply (.ofName call.name call.args call.captured) <;> rfl
  | literal => rfl

end Resolver

end Colourway
