import Colourway.Layer.Composition
import Colourway.Proofs.Except

/-!
# Carried values

Carrying a value forward stops over one thing only, an integer of too many digits that a carry mark
stands for (`CarryStops`, `carryValue_error_iff`).  Where it does not stop, it comes to what
`carriedValue` makes of the value (`eq_carriedValue`), which is total and can be read key by key.
Where nothing came before, nothing stops (`carryValue_none`).
-/

namespace Colourway

open Text

/-- The fields of what came before, none if it was no map. -/
def Document.fieldsOf (prior : Option Document) : Fields := (prior.bind Document.fields?).getD []

/-- A leaf with the carry mark in it replaced by the earlier scalar, where that can be told. -/
def carriedLeaf (mark : Text) (previous : Option Document) : Document → Document
  | .scalar (.text v) =>
    match previous with
    | some (.scalar p) =>
      if p ≠ .null ∧ occursIn mark v then .text (replaceAll mark (p.spliced?.getD []) v)
      else .text v
    | _ => .text v
  | d => d

mutual

/-- A value with the carry marks in its leaves replaced. -/
def carriedValue (mark : Text) (previous : Option Document) : Document → Document
  | .map fields =>
    .map (carriedFields mark (Document.fieldsOf previous) fields)
  | d => carriedLeaf mark previous d

/-- Fields with their carry marks replaced. -/
def carriedFields (mark : Text) (prior : Fields) : Fields → Fields
  | [] => []
  | (k, d) :: rest =>
    (k, carriedValue mark (Assoc.get? k prior) d) :: carriedFields mark prior rest

end

variable {mark : Text}

/-! ## One leaf -/

/-- A leaf is carried, or the mark in it stands for an integer of too many digits. -/
theorem carryLeaf_cases (mark : Text) (prior : Option Document) (d : Document) :
    carryLeaf mark prior d = .ok (carriedLeaf mark prior d) ∨
      carryLeaf mark prior d = .error .longInteger ∧
        ∃ v p, d = .text v ∧ prior = some (.scalar p) ∧ occursIn mark v = true ∧
          p.spliced? = none := by
  unfold carryLeaf
  split
  · next v =>
    split
    · next p =>
      split
      · next hmark =>
        cases hp : p.spliced? with
        | some s => exact .inl (by simp [carriedLeaf, hmark, hp])
        | none => exact .inr ⟨rfl, v, p, rfl, rfl, hmark.2, hp⟩
      · next hmark => exact .inl (by rw [carriedLeaf, if_neg hmark])
    · exact .inl (by simp [carriedLeaf])
  · exact .inl (by simp [carriedLeaf])

theorem eq_carriedLeaf {prior : Option Document} {d carried : Document}
    (h : carryLeaf mark prior d = .ok carried) : carried = carriedLeaf mark prior d := by
  rcases carryLeaf_cases mark prior d with hok | ⟨herror, -⟩
  · exact Except.ok.inj (h.symm.trans hok)
  · cases h.symm.trans herror

@[simp] theorem carryLeaf_none (d : Document) : carryLeaf mark none d = .ok d := by
  unfold carryLeaf
  split <;> rfl

/-! ## Values and fields -/

theorem carryValue_scalar (prior : Option Document) (v : Scalar) :
    carryValue mark prior (.scalar v) = carryLeaf mark prior (.scalar v) := by
  rw [carryValue]
  simp

theorem carryValue_list (prior : Option Document) (items : List Document) :
    carryValue mark prior (.list items) = .ok (.list items) := by
  rw [carryValue]
  · rfl
  · simp

mutual

theorem eq_carriedValue {prior : Option Document} : ∀ {d carried : Document},
    carryValue mark prior d = .ok carried → carried = carriedValue mark prior d
  | .scalar _, _, h => by
    rw [carryValue_scalar] at h
    rw [eq_carriedLeaf h, carriedValue]
    simp
  | .list _, _, h => by
    rw [carryValue_list] at h
    rw [← Except.ok.inj h, carriedValue]
    · rfl
    · simp
  | .map fields, _, h => by
    rw [carryValue] at h
    obtain ⟨carried, hfields, hd⟩ := bind_eq_ok_iff.mp h
    rw [carriedValue, Document.fieldsOf, ← eq_carriedFields hfields]
    exact (Except.ok.inj hd).symm

theorem eq_carriedFields {prior : Fields} : ∀ {fields carried : Fields},
    carryFields mark prior fields = .ok carried → carried = carriedFields mark prior fields
  | [], _, h => (Except.ok.inj h).symm
  | (k, d) :: rest, _, h => by
    rw [carryFields] at h
    obtain ⟨first, hfirst, h⟩ := bind_eq_ok_iff.mp h
    obtain ⟨later, hlater, hdone⟩ := bind_eq_ok_iff.mp h
    rw [carriedFields, ← eq_carriedValue hfirst, ← eq_carriedFields hlater]
    exact (Except.ok.inj hdone).symm

end

mutual

/-- Where nothing came before, nothing is carried. -/
theorem carryValue_none : ∀ d : Document, carryValue mark none d = .ok d
  | .scalar _ => by rw [carryValue_scalar, carryLeaf_none]
  | .list items => carryValue_list none items
  | .map fields => by
    rw [carryValue, Option.bind_none, Option.getD_none, carryFields_nil fields]
    rfl

theorem carryFields_nil : ∀ fields : Fields, carryFields mark [] fields = .ok fields
  | [] => rfl
  | (k, d) :: rest => by
    rw [carryFields, Assoc.get?, carryValue_none d, carryFields_nil rest]
    rfl

end

/-! ## What stops it -/

/-- A carry mark in a value stands for an integer of too many digits. -/
inductive CarryStops (mark : Text) : Option Document → Document → Prop
  | leaf {p : Scalar} {v : Text} (marked : occursIn mark v = true) (long : p.spliced? = none) :
      CarryStops mark (some (.scalar p)) (.text v)
  | field {prior : Option Document} {fields : Fields} {field : Text × Document}
      (mem : field ∈ fields)
      (below : CarryStops mark (Assoc.get? field.1 (Document.fieldsOf prior)) field.2) :
      CarryStops mark prior (.map fields)

theorem not_carryStops_none {d : Document} : ¬ CarryStops mark none d := by
  generalize hprior : (none : Option Document) = prior
  intro h
  induction h with
  | leaf => cases hprior
  | field _ _ ih =>
    subst hprior
    exact ih rfl

theorem carryStops_map_iff {prior : Option Document} {fields : Fields} :
    CarryStops mark prior (.map fields) ↔
      ∃ field ∈ fields, CarryStops mark (Assoc.get? field.1 (Document.fieldsOf prior)) field.2 := by
  constructor
  · rintro (_ | ⟨mem, below⟩)
    exact ⟨_, mem, below⟩
  · rintro ⟨field, mem, below⟩
    exact .field mem below

theorem carryLeaf_error_iff {prior : Option Document} {d : Document} {f : Fault}
    (h : d.fields? = none) :
    carryLeaf mark prior d = .error f ↔ f = .longInteger ∧ CarryStops mark prior d := by
  constructor
  · intro herror
    rcases carryLeaf_cases mark prior d with hok | ⟨hlong, v, p, rfl, rfl, hmark, hp⟩
    · cases herror.symm.trans hok
    · exact ⟨Except.error.inj (herror.symm.trans hlong), .leaf hmark hp⟩
  · rintro ⟨rfl, ⟨hmark, hp⟩ | ⟨mem, below⟩⟩
    · next p v =>
      have hnull : p ≠ .null := by
        rintro rfl
        cases hp
      have hboth : p ≠ .null ∧ occursIn mark v = true := ⟨hnull, hmark⟩
      simp [carryLeaf, Document.text, hboth, hp]
    · cases h

mutual

/-- **Carrying stops over an integer of too many digits, and over nothing else.** -/
theorem carryValue_error_iff {prior : Option Document} {f : Fault} : ∀ {d : Document},
    carryValue mark prior d = .error f ↔ f = .longInteger ∧ CarryStops mark prior d
  | .scalar _ => by
    rw [carryValue_scalar]
    exact carryLeaf_error_iff rfl
  | .list items => by
    rw [carryValue_list]
    constructor
    · rintro ⟨⟩
    · rintro ⟨-, ⟨⟩⟩
  | .map fields => by
    rw [carryValue, bind_eq_error_iff, carryStops_map_iff, ← carryFields_error_iff]
    constructor
    · rintro (hfields | ⟨_, -, hd⟩)
      · exact hfields
      · cases hd
    · exact .inl

/-- Fields stop over one of their values. -/
theorem carryFields_error_iff {prior : Fields} {f : Fault} : ∀ {fields : Fields},
    carryFields mark prior fields = .error f ↔
      f = .longInteger ∧ ∃ field ∈ fields,
        CarryStops mark (Assoc.get? field.1 prior) field.2
  | [] => by simp [carryFields]
  | (k, d) :: rest => by
    rw [carryFields]
    simp only [bind_eq_error_iff, pure, Except.pure, reduceCtorEq, and_false, exists_false,
      or_false, carryValue_error_iff, carryFields_error_iff, List.mem_cons, or_and_right,
      exists_or, exists_eq_left]
    constructor
    · rintro (⟨rfl, hfirst⟩ | ⟨_, -, rfl, hlater⟩)
      · exact ⟨rfl, .inl hfirst⟩
      · exact ⟨rfl, .inr hlater⟩
    · rintro ⟨rfl, hfirst | hlater⟩
      · exact .inl ⟨rfl, hfirst⟩
      · cases hd : carryValue mark (Assoc.get? k prior) d with
        | ok carried => exact .inr ⟨carried, rfl, rfl, hlater⟩
        | error e => exact .inl ⟨rfl, (carryValue_error_iff.mp hd).2⟩

end

end Colourway
