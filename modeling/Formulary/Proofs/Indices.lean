import Mathlib.Data.List.Induction
import Formulary.Proofs.Digits
import Formulary.Value.Property

/-!
# Indices

The keys that write an index are the decimal texts of the natural numbers below `10 ^ 18`, and every
one of them writes the number that it is the text of.
-/

namespace Formulary

namespace Text

/-- The text has no zero in front, unless it is a single digit. -/
def Canonical (digits : Text) : Prop :=
  digits.length = 1 ∨ ∃ first rest, digits = first :: rest ∧ first ≠ zeroDigit

private theorem digit_digitValue {byte : UInt8} (digits : isDigit byte) :
    digit (digitValue byte) = byte := by
  have value := digit_toNat (digitValue_lt digits)
  simp only [isDigit, Bool.and_eq_true, decide_eq_true_eq, UInt8.le_iff_toNat_le,
    UInt8.reduceToNat] at digits
  rw [← UInt8.toNat_inj, value, digitValue]
  omega

private theorem digitValue_pos {byte : UInt8} (digits : isDigit byte) (nonzero : byte ≠ zeroDigit) :
    0 < digitValue byte := by
  rw [Nat.pos_iff_ne_zero]
  intro zero
  have same := digit_digitValue digits
  rw [zero] at same
  exact nonzero same.symm

private theorem toNat_pos {first : UInt8} {rest : Text} (digits : isDigit first)
    (nonzero : first ≠ zeroDigit) : 0 < toNat (first :: rest) := by
  have leading := digitValue_pos digits nonzero
  rw [← List.singleton_append, toNat_append]
  exact Nat.add_pos_left (Nat.mul_pos (by simpa [toNat] using leading) (by positivity)) _

/-- A text of digits without a zero in front is the text of its value. -/
theorem ofNat_toNat {digits : Text} (all : ∀ byte ∈ digits, isDigit byte)
    (canonical : Canonical digits) : ofNat (toNat digits) = digits := by
  induction digits using List.reverseRecOn with
  | nil => simp [Canonical] at canonical
  | append_singleton front last induction =>
      obtain ⟨front_digits, last_digit⟩ := List.forall_mem_append.mp all
      have last_digit := last_digit last List.mem_cons_self
      have small := digitValue_lt last_digit
      have value : toNat (front ++ [last]) = toNat front * 10 + digitValue last := by
        rw [toNat_append]
        simp [toNat]
      cases front with
      | nil =>
          rw [value, toNat, List.foldl_nil, Nat.zero_mul, Nat.zero_add, ofNat_of_lt small,
            digit_digitValue last_digit, List.nil_append]
      | cons first rest =>
          have nonzero : first ≠ zeroDigit := by
            obtain single | ⟨_, _, same, nonzero⟩ := canonical
            · simp at single
            · cases same
              exact nonzero
          have positive : 0 < toNat (first :: rest) :=
            toNat_pos (front_digits first List.mem_cons_self) nonzero
          rw [value, ofNat_of_le (by omega), Nat.mul_comm, Nat.mul_add_div (by decide),
            Nat.div_eq_of_lt small, Nat.add_zero, Nat.mul_add_mod, Nat.mod_eq_of_lt small,
            induction front_digits (.inr ⟨first, rest, rfl, nonzero⟩), digit_digitValue last_digit]

private theorem canonical_ofNat (n : Nat) : Canonical (ofNat n) := by
  rcases Nat.eq_zero_or_pos n with rfl | positive
  · rw [ofNat_of_lt (by decide)]
    exact .inl rfl
  · obtain ⟨first, rest, spelled, -, nonzero⟩ := ofNat_begins positive
    exact .inr ⟨first, rest, spelled, nonzero⟩

private theorem length_ofNat_le_iff {n count : Nat} (some_digit : 0 < count) :
    (ofNat n).length ≤ count ↔ n < 10 ^ count := by
  constructor
  · intro short
    have below := toNat_lt (isDigit_of_mem_ofNat n)
    rw [toNat_ofNat] at below
    exact Nat.lt_of_lt_of_le below (Nat.pow_le_pow_right (by decide) short)
  · intro small
    rcases Nat.eq_zero_or_pos n with rfl | positive
    · rw [ofNat_of_lt (by decide)]
      exact some_digit
    · rw [length_ofNat positive]
      exact digitCount_le positive small

end Text

namespace Value

/-- The keys that write an index are the texts of the numbers below `10 ^ 18`. -/
theorem index?_eq_some_iff {key : Text} {index : Nat} :
    index? key = some index ↔ index < 10 ^ 18 ∧ key = Text.ofNat index := by
  constructor
  · intro writes
    rw [index?] at writes
    split at writes
    · cases writes
    · rename_i sized
      split at writes
      · cases writes
      · rename_i unpadded
        split at writes
        · rename_i digits
          cases writes
          have canonical : Text.Canonical key := by
            cases key with
            | nil => simp at sized
            | cons first rest =>
                simp only [List.length_cons, List.head?_cons, Bool.and_eq_true, decide_eq_true_eq,
                  beq_iff_eq, Option.some.injEq, not_and] at unpadded
                rcases Nat.eq_zero_or_pos rest.length with single | several
                · exact .inl (by simp [single])
                · exact .inr ⟨first, rest, rfl, unpadded (by omega)⟩
          have same := Text.ofNat_toNat (List.all_eq_true.mp digits) canonical
          have short : (Text.ofNat (Text.toNat key)).length ≤ 18 := by
            rw [same]
            simp only [Bool.or_eq_true, decide_eq_true_eq, not_or] at sized
            omega
          exact ⟨(Text.length_ofNat_le_iff (by decide)).mp short, same.symm⟩
        · cases writes
  · rintro ⟨small, rfl⟩
    have digits := List.all_eq_true.mpr (Text.isDigit_of_mem_ofNat index)
    have sized : ¬ ((Text.ofNat index).isEmpty || decide (18 < (Text.ofNat index).length)) := by
      have short := (Text.length_ofNat_le_iff (n := index) (by decide : 0 < 18)).mpr small
      simpa [Text.ofNat_ne_nil] using short
    have unpadded : ¬ (decide (1 < (Text.ofNat index).length) &&
        (Text.ofNat index).head? == some Text.zeroDigit) := by
      obtain single | ⟨first, rest, spelled, nonzero⟩ := Text.canonical_ofNat index
      · simp [single]
      · simp [spelled, nonzero]
    rw [index?, if_neg sized, if_neg unpadded, if_pos digits, Text.toNat_ofNat]

/-- No index is written with a letter. -/
theorem ofNat_ne_lengthKey (index : Nat) : Text.ofNat index ≠ lengthKey := by
  intro same
  have digit := Text.isDigit_of_mem_ofNat index 108 (same ▸ by decide)
  cases digit

end Value
end Formulary
