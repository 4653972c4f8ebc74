import Statechart.Json.Fields
import Statechart.Proofs.Json.Writing

namespace Statechart.Json

theorem head?_toDigits_ne_zero {n : Nat} (positive : 0 < n) :
    (Nat.toDigits 10 n).head? ≠ some '0' := by
  induction n using Nat.strong_induction_on with
  | h n ih =>
      rw [Nat.toDigits_eq_if (by decide)]
      split
      · intro first
        have zero : n = 0 := Nat.digitChar_eq_zero.mp (Option.some.inj first)
        omega
      · next big =>
        rw [List.head?_append_of_ne_nil _ Nat.toDigits_ne_nil]
        exact ih (n / 10) (by omega) (by omega)

theorem proper_ofInt (n : Int) : (Numeral.ofInt n).Proper := by
  have decimal : ∀ c ∈ Nat.toDigits 10 n.natAbs, c.isDigit = true := fun c member =>
    Nat.isDigit_of_mem_toDigits (by decide) (by decide) member
  refine ⟨⟨?_, ?_⟩, ?_, nofun⟩
  · exact fun empty => Nat.toDigits_ne_nil (List.map_eq_nil_iff.mp empty)
  · intro digit member
    obtain ⟨c, listed, rfl⟩ := List.mem_map.mp member
    have bounds := Char.isDigit_iff_toNat.mp (decimal c listed)
    have zero : '0'.toNat = 48 := rfl
    have nine : '9'.toNat = 57 := rfl
    omega
  · rcases Nat.eq_zero_or_pos n.natAbs with zero | positive
    · refine Or.inl ?_
      rw [Numeral.ofInt, zero, Nat.toDigits_zero]
      rfl
    · refine Or.inr fun first => head?_toDigits_ne_zero positive ?_
      obtain ⟨c, leads, value⟩ := Option.map_eq_some_iff.mp ((List.head?_map ..).symm.trans first)
      rw [leads]
      have bounds := Char.isDigit_iff_toNat.mp (decimal c (List.mem_of_mem_head? leads))
      have zero : '0'.toNat = 48 := rfl
      refine congrArg some (Char.toNat_inj.mp ?_)
      omega

@[simp] theorem proper_valueOfInt (n : Int) : (Value.ofInt n).Proper :=
  .number (proper_ofInt n)

theorem valueOfDigits_ofInt (n : Int) : valueOfDigits (Numeral.ofInt n).whole = n.natAbs := by
  rw [Numeral.ofInt, valueOfDigits_map, Nat.ofDigitChars_ten_toDigits]

theorem int?_ofInt (n : Int) : (Numeral.ofInt n).int? = some n := by
  have value := valueOfDigits_ofInt n
  rw [Numeral.int?, value]
  rcases Int.lt_or_le n 0 with negative | natural
  · have sign : (Numeral.ofInt n).negative = true := by simpa [Numeral.ofInt] using negative
    obtain ⟨m, magnitude⟩ : ∃ m, n.natAbs = m + 1 := ⟨n.natAbs - 1, by omega⟩
    rw [sign, magnitude]
    exact congrArg some (by omega)
  · have sign : (Numeral.ofInt n).negative = false := by simpa [Numeral.ofInt] using natural
    rw [sign]
    exact congrArg some (Int.natAbs_of_nonneg natural)

theorem word?_ofInt (word : Int32) : (Value.ofInt word.toInt).word? = some word := by
  show (Numeral.ofInt word.toInt).int?.bind Text.word? = some word
  rw [int?_ofInt, Option.bind_some, Text.word?_eq_some_iff]

theorem le_foldl_digits (digits : List Nat) (significand : Nat) :
    significand ≤ digits.foldl (fun value digit => 10 * value + digit) significand := by
  induction digits generalizing significand with
  | nil => exact Nat.le_refl significand
  | cons digit digits ih =>
      calc significand ≤ 10 * significand + digit := by omega
        _ ≤ _ := ih (10 * significand + digit)

theorem takeDigits_eq {digits : List Nat} {significand : Nat}
    (small : digits.foldl (fun value digit => 10 * value + digit) significand < Nat.pow 2 64) :
    Numeral.takeDigits significand digits =
      (digits.foldl (fun value digit => 10 * value + digit) significand, []) := by
  induction digits generalizing significand with
  | nil => rfl
  | cons digit digits ih =>
      have fits := Nat.lt_of_le_of_lt (le_foldl_digits digits (10 * significand + digit)) small
      rw [Numeral.takeDigits, if_pos fits, ih small]
      rfl

theorem isFinite_ofInt (word : Int32) : (Numeral.ofInt word.toInt).isFinite = true := by
  have low := word.le_toInt
  have high := word.toInt_lt
  have small : valueOfDigits (Numeral.ofInt word.toInt).whole < Nat.pow 2 64 := by
    rw [valueOfDigits_ofInt]
    have power : Nat.pow 2 64 = 18446744073709551616 := rfl
    omega
  have scientific : (Numeral.ofInt word.toInt).scientific =
      (valueOfDigits (Numeral.ofInt word.toInt).whole, 0) := by
    rw [Numeral.scientific, takeDigits_eq small]
    rfl
  rw [Numeral.isFinite, scientific]
  exact if_pos (Or.inr (Int.le_refl 0))

end Statechart.Json
