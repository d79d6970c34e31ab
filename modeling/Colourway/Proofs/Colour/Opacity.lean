import Colourway.Proofs.Colour.Parsed
import Colourway.Proofs.Syntax.Expression
import Colourway.Proofs.Text.Lowercase
import Colourway.Proofs.Text.Trimmed

/-!
# Text behind a slash

What stands behind the first slash of a call is its last component.  Behind three components it is
the alpha of the colour, whose other channels are those of the call that ends in front of the slash;
behind two it is taken for the third one (**`parse_slash_iff`**).

* `parse_call_iff` — how a call of a colour model is read.
* `ofComponents_congr` — the channels of a colour do not depend on its alpha.
* `modelCall?_cut` — a call that ends in front of its slash is a call again.
-/

namespace Colourway.Colour

open Text

/-! ## Components -/

/-- A character between two components. -/
def separates (c : CodePoint) : Bool := isBlank c || c == ','

/-- A character that is no slash. -/
def isNoSlash (c : CodePoint) : Bool := c != '/'

/-- The arguments in front of the first slash. -/
def beforeSlash (args : Text) : Text := args.takeWhile isNoSlash

/-- The arguments behind the first slash. -/
def behindSlash (args : Text) : Text := (args.dropWhile isNoSlash).drop 1

theorem components_eq (args : Text) : components args =
    if (trim (behindSlash args)).isEmpty then partsBetween separates (beforeSlash args)
    else partsBetween separates (beforeSlash args) ++ [trim (behindSlash args)] := rfl

theorem components_of_visible {args : Text} (visible : allBlank (behindSlash args) = false) :
    components args = partsBetween separates (beforeSlash args) ++ [trim (behindSlash args)] := by
  have hlast : ¬ (trim (behindSlash args)).isEmpty = true := by
    rw [List.isEmpty_iff, trim_eq_nil_iff, visible]
    decide
  rw [components_eq, if_neg hlast]

/-- Arguments that end in front of the slash have the components in front of it. -/
theorem components_beforeSlash (args : Text) :
    components (beforeSlash args) = partsBetween separates (beforeSlash args) := by
  have hfront : ∀ c ∈ beforeSlash args, isNoSlash c = true :=
    fun c hc => List.mem_takeWhile_imp hc
  have htake : beforeSlash (beforeSlash args) = beforeSlash args :=
    List.takeWhile_eq_self_iff.mpr hfront
  have hdrop : behindSlash (beforeSlash args) = [] := by
    rw [behindSlash, List.dropWhile_eq_nil_iff.mpr hfront]
    rfl
  rw [components_eq, htake, hdrop]
  rfl

/-- White space around a channel does not matter. -/
theorem channel_trim (text expression : Text) (scale : Float) :
    channel (trim text) expression scale = channel text expression scale := by
  rw [channel, channel, trimmed_trim text]

/-! ## Channels and alpha -/

theorem number_congr {text expression : Text} {n : Float} (h : number text expression = .ok n)
    (expression' : Text) : number text expression' = .ok n :=
  number_eq_ok_iff.mpr (number_eq_ok_iff.mp h)

theorem channel_congr {text expression : Text} {scale n : Float}
    (h : channel text expression scale = .ok n) (expression' : Text) :
    channel text expression' scale = .ok n := by
  unfold channel at h ⊢
  cases hbody : withoutEnding? "%" (trim text) with
  | none =>
    rw [hbody] at h
    obtain ⟨m, hm, rfl⟩ := map_eq_ok_iff.mp h
    exact map_eq_ok_iff.mpr ⟨m, number_congr hm expression', rfl⟩
  | some body =>
    rw [hbody] at h
    obtain ⟨m, hm, rfl⟩ := map_eq_ok_iff.mp h
    exact map_eq_ok_iff.mpr ⟨m, number_congr hm expression', rfl⟩

theorem hue_congr {text expression : Text} {h : Float} (hh : hue text expression = .ok h)
    (expression' : Text) : hue text expression' = .ok h := by
  unfold hue at hh ⊢
  dsimp only at hh ⊢
  split at hh
  all_goals
    obtain ⟨m, hm, rfl⟩ := map_eq_ok_iff.mp hh
    exact map_eq_ok_iff.mpr ⟨m, number_congr hm expression', rfl⟩

theorem ofHls_congr (h : Hls) (alpha alpha' : Float) :
    ofHls h alpha' = { ofHls h alpha with a := alpha' } := by
  unfold ofHls
  dsimp only
  split <;> rfl

theorem ofHsv_congr {h s v alpha : Float} {c : Colour} (hc : ofHsv h s v alpha = .ok c)
    (alpha' : Float) : ofHsv h s v alpha' = .ok { c with a := alpha' } := by
  unfold ofHsv at hc ⊢
  split at hc
  · next hgrey =>
    rw [if_pos hgrey]
    cases hc
    rfl
  · next hgrey =>
    rw [if_neg hgrey]
    split at hc
    · cases hc
    · cases hc
    · cases hc
      dsimp only
      split <;> rfl

/-- **The channels of a colour do not depend on its alpha**, nor on the expression that is named when
they cannot be read. -/
theorem ofComponents_congr {model : Model} {x y z expression : Text} {alpha : Float} {c : Colour}
    (h : ofComponents model x y z alpha expression = .ok c) (alpha' : Float) (expression' : Text) :
    ofComponents model x y z alpha' expression' = .ok { c with a := alpha' } := by
  unfold ofComponents at h ⊢
  cases model with
  | rgb =>
    obtain ⟨r, hr, h⟩ := bind_eq_ok_iff.mp h
    obtain ⟨g, hg, h⟩ := bind_eq_ok_iff.mp h
    obtain ⟨b, hb, h⟩ := bind_eq_ok_iff.mp h
    cases h
    refine bind_eq_ok_iff.mpr ⟨r, channel_congr hr _, ?_⟩
    refine bind_eq_ok_iff.mpr ⟨g, channel_congr hg _, ?_⟩
    exact bind_eq_ok_iff.mpr ⟨b, channel_congr hb _, rfl⟩
  | hsl =>
    obtain ⟨t, ht, h⟩ := bind_eq_ok_iff.mp h
    obtain ⟨s, hs, h⟩ := bind_eq_ok_iff.mp h
    obtain ⟨l, hl, h⟩ := bind_eq_ok_iff.mp h
    cases h
    refine bind_eq_ok_iff.mpr ⟨t, hue_congr ht _, ?_⟩
    refine bind_eq_ok_iff.mpr ⟨s, channel_congr hs _, ?_⟩
    exact bind_eq_ok_iff.mpr ⟨l, channel_congr hl _, congrArg Except.ok (ofHls_congr _ _ _)⟩
  | hsv =>
    obtain ⟨t, ht, h⟩ := bind_eq_ok_iff.mp h
    obtain ⟨s, hs, h⟩ := bind_eq_ok_iff.mp h
    obtain ⟨v, hv, h⟩ := bind_eq_ok_iff.mp h
    refine bind_eq_ok_iff.mpr ⟨t, hue_congr ht _, ?_⟩
    refine bind_eq_ok_iff.mpr ⟨s, channel_congr hs _, ?_⟩
    refine bind_eq_ok_iff.mpr ⟨v, channel_congr hv _, ?_⟩
    exact ColourError.ofFault_eq_ok_iff.mpr
      (ofHsv_congr (ColourError.ofFault_eq_ok_iff.mp h) alpha')

/-! ## Calls -/

/-- The text of a call of a colour model. -/
def modelText (name args : Text) : Text := name ++ "(" ++ args ++ ")"

/-- The names of the colour models. -/
def modelNames : List Text := ["rgb", "rgba", "hsl", "hsla", "hsv", "hsva"]

theorem mem_modelNames {name : Text} {model : Model} (h : Model.ofName? name = some model) :
    name ∈ modelNames := by
  unfold Model.ofName? at h
  split_ifs at h with hrgb hhsl hhsv
  · rcases hrgb with rfl | rfl <;> decide
  · rcases hhsl with rfl | rfl <;> decide
  · rcases hhsv with rfl | rfl <;> decide

theorem word_of_mem_modelNames : ∀ name ∈ modelNames, name ≠ [] ∧ ∀ c ∈ name, isWord c = true := by
  decide +kernel

/-- A call is trimmed. -/
theorem trim_modelText {name : Text} (h : name ∈ modelNames) (args : Text) :
    trim (modelText name args) = modelText name args := by
  have hall : ∀ name ∈ modelNames, name.head?.any (!isBlank ·) = true := by decide +kernel
  obtain ⟨c, hhead, hc⟩ := (Option.any_eq_true _ _).mp (hall name h)
  obtain ⟨name, rfl⟩ := List.head?_eq_some_iff.mp hhead
  have hcall : modelText (c :: name) args = c :: (name ++ .char '(' :: args ++ [.char ')']) := by
    simp [modelText, ofString]
  rw [hcall]
  exact trimmed_of_ends (by simpa using hc) (by decide)

/-- What a call of a colour model looks like. -/
theorem modelCall?_eq_some_iff {s : Text} {model : Model} {name args : Text} :
    modelCall? s = some (model, name, args) ↔ Model.ofName? name = some model ∧
      (∀ c ∈ args, Syntax.isParen c = false) ∧ s = modelText name args := by
  constructor
  · intro h
    unfold modelCall? at h
    split at h
    · next hit =>
      obtain ⟨model', hname, heq⟩ := Option.map_eq_some_iff.mp h
      cases heq
      obtain ⟨name, args, rest, -, -, hargs, hs, hhit⟩ := Syntax.callAt_eq_some_iff.mp hit
      cases hhit
      refine ⟨hname, hargs, ?_⟩
      rw [hs]
      simp [modelText, ofString]
    · cases h
  · rintro ⟨hname, hargs, rfl⟩
    obtain ⟨hne, hword⟩ := word_of_mem_modelNames name (mem_modelNames hname)
    have hcall : Syntax.callAt (modelText name args) = some ⟨modelText name args, (name, args), []⟩ :=
      Syntax.callAt_eq_some_iff.mpr
        ⟨name, args, [], hne, hword, hargs, by simp [modelText, ofString], rfl⟩
    rw [modelCall?, hcall]
    dsimp only
    rw [hname, Option.map_some]

/-- **A call that ends in front of its slash is a call again.** -/
theorem modelCall?_cut {expression name args : Text} {model : Model}
    (call : modelCall? (lower (trim expression)) = some (model, name, args)) :
    modelCall? (lower (trim (modelText name (beforeSlash args)))) =
      some (model, name, beforeSlash args) := by
  obtain ⟨hname, hargs, hcall⟩ := modelCall?_eq_some_iff.mp call
  have hsub : ∀ c ∈ beforeSlash args, c ∈ args := fun c hc => (List.takeWhile_subset _) hc
  have htrim := trim_modelText (mem_modelNames hname) (beforeSlash args)
  have hsmall : lower (modelText name (beforeSlash args)) = modelText name (beforeSlash args) := by
    refine lower_of_small fun c hc => small_lower (trim expression) c ?_
    rw [hcall]
    simp only [modelText, List.mem_append] at hc ⊢
    tauto
  rw [htrim, hsmall]
  exact modelCall?_eq_some_iff.mpr ⟨hname, fun c hc => hargs c (hsub c hc), rfl⟩

/-- **How a call is read**: from three components, or from three components and an alpha. -/
theorem parse_call_iff {expression name args : Text} {model : Model} {c : Colour}
    (call : modelCall? (lower (trim expression)) = some (model, name, args)) :
    parse expression = .ok c ↔
      (∃ x y z, components args = [x, y, z] ∧ ofComponents model x y z 1.0 expression = .ok c) ∨
      (∃ x y z a, components args = [x, y, z, a] ∧ channel a expression 1.0 = .ok c.a ∧
        ofComponents model x y z c.a expression = .ok c) := by
  have hempty : ¬ (lower (trim expression)).isEmpty = true := by
    intro h
    rw [List.isEmpty_iff.mp h] at call
    cases call
  have hhex : ¬ Syntax.isHex (lower (trim expression)) = true := by
    intro h
    rw [modelCall?_of_isHex h] at call
    cases call
  have hnamed : hexOfName? (lower (trim expression)) = none := by
    cases h : hexOfName? (lower (trim expression)) with
    | none => rfl
    | some hex =>
      rw [modelCall?_of_named h] at call
      cases call
  unfold parse
  simp only [if_neg hempty, if_neg hhex, hnamed, call]
  split
  · next x y z hparts =>
    constructor
    · exact fun h => .inl ⟨x, y, z, hparts, h⟩
    · rintro (⟨x', y', z', heq, h⟩ | ⟨x', y', z', a', heq, -⟩)
      · cases hparts.symm.trans heq
        exact h
      · cases hparts.symm.trans heq
  · next x y z a hparts =>
    constructor
    · intro h
      obtain ⟨alpha, halpha, h⟩ := bind_eq_ok_iff.mp h
      obtain rfl : c.a = alpha := ofComponents_alpha h
      exact .inr ⟨x, y, z, a, hparts, halpha, h⟩
    · rintro (⟨x', y', z', heq, -⟩ | ⟨x', y', z', a', heq, halpha, h⟩)
      · cases hparts.symm.trans heq
      · cases hparts.symm.trans heq
        exact bind_eq_ok_iff.mpr ⟨c.a, halpha, h⟩
  · next parts hthree hfour =>
    refine ⟨nofun, ?_⟩
    rintro (⟨x, y, z, heq, -⟩ | ⟨x, y, z, a, heq, -⟩)
    · exact absurd heq (hthree x y z)
    · exact absurd heq (hfour x y z a)

/-! ## Slashes -/

/-- **Text behind a slash is the alpha if three components stand in front of it**, and the other
channels are those of the call that ends in front of the slash.  Behind two components it is the
third one, of a colour that is opaque; behind any other number of components it is refused. -/
theorem parse_slash_iff {expression name args : Text} {model : Model} {c : Colour}
    (call : modelCall? (lower (trim expression)) = some (model, name, args))
    (visible : allBlank (behindSlash args) = false) :
    parse expression = .ok c ↔
      ((partsBetween separates (beforeSlash args)).length = 3 ∧
        channel (behindSlash args) expression 1.0 = .ok c.a ∧
        parse (modelText name (beforeSlash args)) = .ok { c with a := 1.0 }) ∨
      (∃ x y, partsBetween separates (beforeSlash args) = [x, y] ∧
        ofComponents model x y (trim (behindSlash args)) 1.0 expression = .ok c) := by
  have hcomponents := components_of_visible visible
  have hcut := components_beforeSlash args
  generalize partsBetween separates (beforeSlash args) = front at hcomponents hcut ⊢
  rw [parse_call_iff call, hcomponents]
  constructor
  · rintro (⟨x, y, z, hparts, h⟩ | ⟨x, y, z, a, hparts, halpha, h⟩)
    · obtain ⟨rfl, heq⟩ := List.append_inj' (show front ++ _ = [x, y] ++ [z] from hparts) rfl
      cases heq
      exact .inr ⟨x, y, rfl, h⟩
    · obtain ⟨rfl, heq⟩ := List.append_inj' (show front ++ _ = [x, y, z] ++ [a] from hparts) rfl
      cases heq
      rw [channel_trim] at halpha
      have hopaque := ofComponents_congr h 1.0 (modelText name (beforeSlash args))
      exact .inl ⟨rfl, halpha,
        (parse_call_iff (modelCall?_cut call)).mpr (.inl ⟨x, y, z, hcut, hopaque⟩)⟩
  · rintro (⟨hlength, halpha, h⟩ | ⟨x, y, rfl, h⟩)
    · obtain ⟨x, y, z, rfl⟩ := List.length_eq_three.mp hlength
      rcases (parse_call_iff (modelCall?_cut call)).mp h with
        ⟨x', y', z', heq, h⟩ | ⟨x', y', z', a', heq, -⟩
      · cases hcut.symm.trans heq
        refine .inr ⟨x, y, z, _, rfl, ?_, ofComponents_congr h c.a expression⟩
        rwa [channel_trim]
      · cases hcut.symm.trans heq
    · exact .inl ⟨x, y, _, rfl, h⟩

/-- The arguments of a call with three components and an alpha. -/
def halfArgs : Text := "10% 20%,30% / 50%"

/-- A colour that is half opaque. -/
theorem half_behind_slash :
    modelCall? (lower (trim (modelText "RGB" halfArgs))) = some (.rgb, ofString "rgb", halfArgs) ∧
    allBlank (behindSlash halfArgs) = false ∧
    parse (modelText "RGB" halfArgs) = .ok ⟨0.1, 0.2, 0.3, 0.5⟩ ∧
    channel (behindSlash halfArgs) (modelText "RGB" halfArgs) 1.0 = .ok 0.5 ∧
    parse (modelText "rgb" (beforeSlash halfArgs)) = .ok ⟨0.1, 0.2, 0.3, 1.0⟩ := by
  have call : modelCall? (lower (trim (modelText "RGB" halfArgs))) =
      some (.rgb, ofString "rgb", halfArgs) := by decide +kernel
  have visible : allBlank (behindSlash halfArgs) = false := by decide +kernel
  have accepted : parse (modelText "RGB" halfArgs) = .ok ⟨0.1, 0.2, 0.3, 0.5⟩ := by decide +kernel
  rcases (parse_slash_iff call visible).mp accepted with ⟨-, halpha, hcut⟩ | ⟨x, y, hfront, -⟩
  · exact ⟨call, visible, accepted, halpha, hcut⟩
  · have hthree : (partsBetween separates (beforeSlash halfArgs)).length = 3 := by decide +kernel
    rw [hfront] at hthree
    cases hthree

/-- The arguments of a call with a slash in the place of a comma. -/
def slashForComma : Text := "0 0 / 255"

/-- Behind two components, text is the third one and the colour is opaque. -/
theorem blue_behind_slash :
    modelCall? (lower (trim (modelText "rgb" slashForComma))) =
      some (.rgb, ofString "rgb", slashForComma) ∧
    allBlank (behindSlash slashForComma) = false ∧
    parse (modelText "rgb" slashForComma) = .ok ⟨0.0, 0.0, 1.0, 1.0⟩ ∧
    (partsBetween separates (beforeSlash slashForComma)).length ≠ 3 := by
  decide +kernel

end Colourway.Colour
