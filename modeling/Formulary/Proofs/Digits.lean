import Mathlib.Tactic.Ring
import Mathlib.Tactic.Linarith
import Formulary.Text.Digits
import Formulary.Proofs.Scanning

/-!
# Decimal digits

The decimal text of a natural number is nonempty, holds nothing but digits, and reads back; the
number of its digits places the number between two powers of ten.
-/

namespace Formulary
namespace Text

theorem digit_toNat {value : Nat} (small : value < 10) : (digit value).toNat = 48 + value := by
  simp only [digit, UInt8.toNat_ofNat']
  omega

private theorem isDigit_digit {value : Nat} (small : value < 10) : isDigit (digit value) := by
  have place := digit_toNat small
  simp only [isDigit, Bool.and_eq_true, decide_eq_true_eq, UInt8.le_iff_toNat_le, place,
    UInt8.reduceToNat]
  omega

private theorem digitValue_digit {value : Nat} (small : value < 10) :
    digitValue (digit value) = value := by
  rw [digitValue, digit_toNat small]
  omega

theorem digitValue_lt {byte : UInt8} (digit : isDigit byte) : digitValue byte < 10 := by
  simp only [isDigit, Bool.and_eq_true, decide_eq_true_eq, UInt8.le_iff_toNat_le,
    UInt8.reduceToNat] at digit
  rw [digitValue]
  omega

private theorem foldl_digits (start : Nat) (digits : Text) :
    digits.foldl (fun value byte => 10 * value + digitValue byte) start =
      start * 10 ^ digits.length + toNat digits := by
  induction digits generalizing start with
  | nil => simp [toNat]
  | cons byte digits induction =>
      rw [toNat, List.foldl_cons, List.foldl_cons, induction, induction (10 * 0 + digitValue byte),
        List.length_cons, pow_succ]
      ring

theorem toNat_append (front back : Text) :
    toNat (front ++ back) = toNat front * 10 ^ back.length + toNat back := by
  rw [toNat, List.foldl_append, foldl_digits]
  rfl

theorem toNat_lt {digits : Text} (all : ∀ byte ∈ digits, isDigit byte) :
    toNat digits < 10 ^ digits.length := by
  induction digits with
  | nil => simp [toNat]
  | cons byte digits induction =>
      have rest := induction fun other member => all other (List.mem_cons_of_mem byte member)
      have first := digitValue_lt (all byte List.mem_cons_self)
      have scaled := Nat.mul_le_mul_right (10 ^ digits.length) (Nat.le_pred_of_lt first)
      rw [toNat, List.foldl_cons, foldl_digits, List.length_cons, pow_succ, Nat.mul_zero,
        Nat.zero_add]
      simp only [Nat.pred_eq_sub_one, Nat.reduceSub] at scaled
      omega

theorem toNat_zeros (count : Nat) : toNat (List.replicate count zeroDigit) = 0 := by
  induction count with
  | zero => rfl
  | succ count induction =>
      rw [List.replicate_succ', toNat_append, induction]
      rfl

theorem ofNat_of_lt {n : Nat} (small : n < 10) : ofNat n = [digit n] := by
  rw [ofNat, if_pos small]

theorem ofNat_of_le {n : Nat} (large : 10 ≤ n) : ofNat n = ofNat (n / 10) ++ [digit (n % 10)] := by
  rw [ofNat, if_neg (Nat.not_lt.mpr large)]

theorem toNat_ofNat (n : Nat) : toNat (ofNat n) = n := by
  induction n using Nat.strongRecOn with
  | _ n induction =>
      rcases Nat.lt_or_ge n 10 with small | large
      · rw [ofNat_of_lt small, toNat, List.foldl_cons, List.foldl_nil, digitValue_digit small,
          Nat.mul_zero, Nat.zero_add]
      · rw [ofNat_of_le large, toNat_append, induction (n / 10) (by omega)]
        simp only [toNat, List.foldl_cons, List.foldl_nil, List.length_singleton, pow_one]
        rw [digitValue_digit (Nat.mod_lt n (by decide))]
        omega

theorem isDigit_of_mem_ofNat (n : Nat) : ∀ byte ∈ ofNat n, isDigit byte := by
  induction n using Nat.strongRecOn with
  | _ n induction =>
      rcases Nat.lt_or_ge n 10 with small | large
      · rw [ofNat_of_lt small]
        simpa using isDigit_digit small
      · rw [ofNat_of_le large]
        intro byte member
        rcases List.mem_append.mp member with member | member
        · exact induction (n / 10) (by omega) byte member
        · rw [List.mem_singleton.mp member]
          exact isDigit_digit (Nat.mod_lt n (by decide))

theorem ofNat_ne_nil (n : Nat) : ofNat n ≠ [] := by
  rcases Nat.lt_or_ge n 10 with small | large
  · rw [ofNat_of_lt small]
    exact List.cons_ne_nil _ _
  · rw [ofNat_of_le large]
    simp

theorem digits_ofNat (n : Nat) : Lexicon.Digits (ofNat n) :=
  ⟨ofNat_ne_nil n, isDigit_of_mem_ofNat n⟩

/-- Only zero is written with a zero in front. -/
theorem ofNat_begins {n : Nat} (positive : 0 < n) :
    ∃ first rest, ofNat n = first :: rest ∧ isDigit first ∧ first ≠ zeroDigit := by
  induction n using Nat.strongRecOn with
  | _ n induction =>
      rcases Nat.lt_or_ge n 10 with small | large
      · refine ⟨digit n, [], ofNat_of_lt small, isDigit_digit small, fun zero => ?_⟩
        have value := digitValue_digit small
        rw [zero] at value
        exact absurd value (Nat.ne_of_lt positive)
      · obtain ⟨first, rest, spelled, digit, nonzero⟩ := induction (n / 10) (by omega) (by omega)
        exact ⟨first, rest ++ [_], by rw [ofNat_of_le large, spelled, List.cons_append], digit,
          nonzero⟩

theorem digitCount_zero : digitCount 0 = 0 := by
  rw [digitCount, if_pos rfl]

private theorem digitCount_of_pos {n : Nat} (positive : 0 < n) :
    digitCount n = digitCount (n / 10) + 1 := by
  rw [digitCount, if_neg (Nat.ne_of_gt positive)]

theorem digitCount_pos {n : Nat} (positive : 0 < n) : 0 < digitCount n := by
  rw [digitCount_of_pos positive]
  exact Nat.succ_pos _

theorem length_ofNat {n : Nat} (positive : 0 < n) : (ofNat n).length = digitCount n := by
  induction n using Nat.strongRecOn with
  | _ n induction =>
      rw [digitCount_of_pos positive]
      rcases Nat.lt_or_ge n 10 with small | large
      · rw [ofNat_of_lt small, Nat.div_eq_of_lt small, digitCount_zero]
        rfl
      · rw [ofNat_of_le large, List.length_append, induction (n / 10) (by omega) (by omega)]
        rfl

theorem lt_pow_digitCount (n : Nat) : n < 10 ^ digitCount n := by
  induction n using Nat.strongRecOn with
  | _ n induction =>
      rcases Nat.eq_zero_or_pos n with rfl | positive
      · rw [digitCount_zero]
        decide
      · have smaller := induction (n / 10) (by omega)
        rw [digitCount_of_pos positive, pow_succ]
        omega

theorem pow_digitCount_le {n : Nat} (positive : 0 < n) : 10 ^ (digitCount n - 1) ≤ n := by
  induction n using Nat.strongRecOn with
  | _ n induction =>
      rw [digitCount_of_pos positive, Nat.add_sub_cancel]
      rcases Nat.eq_zero_or_pos (n / 10) with zero | more
      · rw [zero, digitCount_zero, pow_zero]
        exact positive
      · have smaller := induction (n / 10) (by omega) more
        obtain ⟨count, digits⟩ := Nat.exists_eq_add_of_lt (digitCount_pos more)
        rw [digits] at smaller ⊢
        rw [pow_succ]
        simp only [Nat.zero_add, Nat.add_sub_cancel] at smaller ⊢
        omega

theorem digitCount_le {n count : Nat} (positive : 0 < n) (high : n < 10 ^ count) :
    digitCount n ≤ count :=
  Nat.le_of_pred_lt <| (Nat.pow_lt_pow_iff_right (by decide : 1 < 10)).mp
    (Nat.lt_of_le_of_lt (pow_digitCount_le positive) high)

end Text
end Formulary
