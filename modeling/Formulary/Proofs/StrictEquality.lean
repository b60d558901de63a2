import Formulary.Proofs.Extrema
import Formulary.Proofs.NumberCoercion
import Formulary.Proofs.Provenance
import Formulary.Value.Printer

/-!
# Strict equality

Values that are strictly equal are the same value, or they are two numbers at one place of the
number line, of which only the two zeros are not the same.  A number is written and coerced by its
place, so that no coercion, no printed form and no property tells strictly equal values apart.
-/

namespace Formulary
namespace Number

private theorem equals_trans {x y z : Number} (first : x.equals y) (second : y.equals z) :
    x.equals z := by
  obtain ⟨a, x_place, y_place⟩ := equals_iff.mp first
  obtain ⟨b, also, z_place⟩ := equals_iff.mp second
  cases y_place.symm.trans also
  exact equals_iff.mpr ⟨a, x_place, z_place⟩

private theorem equals_self_iff {x : Number} : x.equals x ↔ x ≠ .nan := by
  constructor
  · rintro same rfl
    cases same
  · intro number
    apply equals_self
    cases x with
    | nan => exact absurd rfl number
    | infinite | finite => exact Bool.false_ne_true

private theorem signedUnits_eq_iff {negative negative' : Bool} {units units' : Nat} :
    signedUnits negative units = signedUnits negative' units' ↔
      units = units' ∧ (negative = negative' ∨ units = 0) := by
  cases negative <;> cases negative' <;> simp [signedUnits] <;> omega

/-- Numbers at one place are the same, or they are zeros. -/
theorem equals_cases {x y : Number} (same : x.equals y) :
    x = y ∨ ∃ negative negative' magnitude, magnitude.units = 0 ∧
      x = .finite negative magnitude ∧ y = .finite negative' magnitude := by
  obtain ⟨a, x_place, y_place⟩ := equals_iff.mp same
  have places := x_place.trans y_place.symm
  cases x with
  | nan => cases x_place
  | infinite negative =>
      cases y with
      | nan => cases y_place
      | infinite negative' =>
          obtain ⟨-, signs⟩ := signedUnits_eq_iff.mp (Option.some.inj places)
          obtain rfl := signs.resolve_right (Nat.ne_of_gt Magnitude.limit_pos)
          exact .inl rfl
      | finite negative' magnitude =>
          obtain ⟨units, -⟩ := signedUnits_eq_iff.mp (Option.some.inj places)
          exact absurd units.symm (Nat.ne_of_lt magnitude.bounded)
  | finite negative magnitude =>
      cases y with
      | nan => cases y_place
      | infinite negative' =>
          obtain ⟨units, -⟩ := signedUnits_eq_iff.mp (Option.some.inj places)
          exact absurd units (Nat.ne_of_lt magnitude.bounded)
      | finite negative' magnitude' =>
          obtain ⟨units, signs⟩ := signedUnits_eq_iff.mp (Option.some.inj places)
          have one_magnitude : magnitude = magnitude' := by
            cases magnitude
            cases magnitude'
            cases units
            rfl
          subst one_magnitude
          obtain rfl | zero := signs
          · exact .inl rfl
          · exact .inr ⟨negative, negative', magnitude, zero, rfl, rfl⟩

private theorem toText_congr {x y : Number} (same : x.equals y) : x.toText = y.toText := by
  obtain rfl | ⟨negative, negative', magnitude, zero, rfl, rfl⟩ := equals_cases same
  · rfl
  · rw [toText_of_zero negative zero, toText_of_zero negative' zero]

private theorem equals_congr {x y : Number} (same : x.equals y) (z : Number) :
    x.equals z = y.equals z :=
  Bool.eq_iff_iff.mpr ⟨equals_trans (equals_comm same), equals_trans same⟩

private theorem isNaN_of_equals {x y : Number} (same : x.equals y) :
    x.isNaN = false ∧ y.isNaN = false := by
  obtain ⟨a, x_place, y_place⟩ := equals_iff.mp same
  constructor
  · cases x with
    | nan => cases x_place
    | infinite | finite => rfl
  · cases y with
    | nan => cases y_place
    | infinite | finite => rfl

end Number

namespace Value

/-- Strictly equal values are numbers at one place, or they are the same and no numbers. -/
theorem strictEquals_iff {a b : Value} :
    a.strictEquals b ↔
      (∃ x y, a = number x ∧ b = number y ∧ x.equals y) ∨ a = b ∧ ∀ x, a ≠ number x := by
  cases a with
  | object | array =>
      rw [strictEquals_iff_of_isStructured rfl]
      simp
  | null | undefined | number | text | boolean => cases b <;> simp [strictEquals]

/-- No coercion, no printed form and no property tells the values apart. -/
structure Indistinguishable (a b : Value) : Prop where
  typeName : a.typeName = b.typeName
  nullish : a.isNullish = b.isNullish
  truth : a.toBool = b.toBool
  text : a.toText = b.toText
  printed (colour : Bool) : a.print colour = b.print colour
  numeric : a.toNumber.equals b.toNumber ∨ a.toNumber.isNaN ∧ b.toNumber.isNaN
  /-- Both have the same properties. -/
  asObject (key : Value) : a.property key = b.property key
  /-- Both name the same property of everything. -/
  asKey (object : Value) : object.property a = object.property b

namespace Indistinguishable

private theorem refl (a : Value) : Indistinguishable a a where
  typeName := rfl
  nullish := rfl
  truth := rfl
  text := rfl
  printed _ := rfl
  numeric := by
    by_cases not_number : a.toNumber.isNaN
    · exact .inr ⟨not_number, not_number⟩
    · exact .inl (Number.equals_self not_number)
  asObject _ := rfl
  asKey _ := rfl

private theorem of_equals {x y : Number} (same : x.equals y) :
    Indistinguishable (number x) (number y) where
  typeName := rfl
  nullish := rfl
  truth := by
    obtain ⟨x_number, y_number⟩ := Number.isNaN_of_equals same
    rw [toBool, toBool, x_number, y_number, Number.equals_congr same]
  text := Number.toText_congr same
  printed colour := congrArg (Colour.yellow.paint colour) (Number.toText_congr same)
  numeric := .inl same
  asObject _ := rfl
  asKey object := congrArg (propertyNamed · object) (Number.toText_congr same)

end Indistinguishable

private theorem indistinguishable_of_strictEquals {a b : Value} (equal : a.strictEquals b) :
    Indistinguishable a b := by
  obtain ⟨x, y, rfl, rfl, same⟩ | ⟨rfl, -⟩ := strictEquals_iff.mp equal
  · exact .of_equals same
  · exact .refl a

private theorem strictEquals_comm {a b : Value} (equal : a.strictEquals b) : b.strictEquals a := by
  obtain ⟨x, y, rfl, rfl, same⟩ | ⟨rfl, -⟩ := strictEquals_iff.mp equal
  · exact Number.equals_comm same
  · exact equal

private theorem strictEquals_trans {a b c : Value} (first : a.strictEquals b)
    (second : b.strictEquals c) : a.strictEquals c := by
  obtain ⟨x, y, rfl, rfl, same⟩ | ⟨rfl, -⟩ := strictEquals_iff.mp first
  · obtain ⟨_, z, ⟨⟩, rfl, also⟩ | ⟨rfl, -⟩ := strictEquals_iff.mp second
    · exact Number.equals_trans same also
    · exact first
  · exact second

private theorem strictEquals_self_iff {a : Value} : a.strictEquals a ↔ a ≠ number .nan := by
  cases a with
  | number x =>
      rw [strictEquals, Number.equals_self_iff]
      exact not_congr ⟨congrArg number, number.inj⟩
  | _ => simp [strictEquals_iff]

/--
Strict equality is symmetric and transitive, every value but a NaN is strictly equal to itself, and
strictly equal values cannot be told apart.
-/
theorem strictEquals_partial_congruence :
    (∀ a b : Value, a.strictEquals b → b.strictEquals a) ∧
    (∀ a b c : Value, a.strictEquals b → b.strictEquals c → a.strictEquals c) ∧
    (∀ a : Value, a.strictEquals a ↔ a ≠ number .nan) ∧
    ∀ a b : Value, a.strictEquals b → Indistinguishable a b :=
  ⟨fun _ _ => strictEquals_comm, fun _ _ _ => strictEquals_trans, fun _ => strictEquals_self_iff,
    fun _ _ => indistinguishable_of_strictEquals⟩

/-- The zeros are different numbers, and nothing tells them apart. -/
theorem strictEquals_partial_congruence_of_zeros :
    number (.finite true .zero) ≠ number (.finite false .zero) ∧
      (number (.finite true .zero)).strictEquals (number (.finite false .zero)) ∧
      Indistinguishable (number (.finite true .zero)) (number (.finite false .zero)) := by
  have equal : (number (.finite true .zero)).strictEquals (number (.finite false .zero)) := by
    decide
  exact ⟨by decide, equal, strictEquals_partial_congruence.2.2.2 _ _ equal⟩

end Value
end Formulary
