import Mathlib.Data.List.Basic
import Statechart.Proofs.Text.Trimmed
import Statechart.Text.Decimal

namespace Statechart.Text

structure Digits (text : List Char) (n : Nat) : Prop where
  some_digit : text ≠ []
  digits : ∀ c ∈ text, c.isDigit = true
  value_eq : n = Nat.ofDigitChars 10 text 0

inductive Whole : List Char → Int → Prop where
  | unsigned {digits : List Char} {n : Nat} (spelled : Digits digits n) : Whole digits n
  | plus {digits : List Char} {n : Nat} (spelled : Digits digits n) : Whole ('+' :: digits) n
  | minus {digits : List Char} {n : Nat} (spelled : Digits digits n) : Whole ('-' :: digits) (-n)

theorem digit?_eq (c : Char) :
    digit? c = if c.isDigit = true then some (c.toNat - '0'.toNat) else none := by
  simp [digit?, Char.isDigit, Char.le_def]

theorem digitsFrom?_eq_some_iff {value n : Nat} {text : List Char} :
    digitsFrom? value text = some n ↔
      (∀ c ∈ text, c.isDigit = true) ∧ n = Nat.ofDigitChars 10 text value := by
  induction text generalizing value with
  | nil =>
      exact ⟨fun read => ⟨nofun, (Option.some.inj read).symm⟩,
        fun spelled => congrArg some spelled.2.symm⟩
  | cons c rest ih =>
      by_cases digit : c.isDigit = true
      · simp [digitsFrom?, digit?_eq, digit, ih, Nat.ofDigitChars_cons]
      · simp [digitsFrom?, digit?_eq, digit]

theorem natural?_eq_some_iff {text : List Char} {n : Nat} :
    natural? text = some n ↔ Digits text n := by
  cases text with
  | nil => exact ⟨nofun, fun spelled => absurd rfl spelled.some_digit⟩
  | cons c rest =>
      rw [natural?, digitsFrom?_eq_some_iff]
      · exact ⟨fun ⟨digits, value⟩ => ⟨List.cons_ne_nil c rest, digits, value⟩,
          fun spelled => ⟨spelled.digits, spelled.value_eq⟩⟩
      · exact List.cons_ne_nil c rest

theorem integer?_eq_some_iff {text : List Char} {n : Int} :
    integer? text = some n ↔ Whole text n := by
  constructor
  · intro read
    unfold integer? at read
    split at read
    · next digits =>
      cases spelled : natural? digits with
      | none => simp [spelled] at read
      | some m =>
          obtain rfl : -(m : Int) = n := by simpa [spelled] using read
          exact .minus (natural?_eq_some_iff.mp spelled)
    · obtain ⟨m, spelled, rfl⟩ := Option.map_eq_some_iff.mp read
      exact .plus (natural?_eq_some_iff.mp spelled)
    · obtain ⟨m, spelled, rfl⟩ := Option.map_eq_some_iff.mp read
      exact .unsigned (natural?_eq_some_iff.mp spelled)
  · intro spelled
    cases spelled with
    | @unsigned _ m spelled =>
        unfold integer?
        -- Digits do not begin with a sign.
        split
        · exact absurd (spelled.digits '-' (List.mem_cons_self ..)) (by decide)
        · exact absurd (spelled.digits '+' (List.mem_cons_self ..)) (by decide)
        · rw [natural?_eq_some_iff.mpr spelled]
          rfl
    | plus spelled => rw [integer?, natural?_eq_some_iff.mpr spelled]; rfl
    | minus spelled => rw [integer?, natural?_eq_some_iff.mpr spelled]; rfl

theorem word?_eq_some_iff {n : Int} {word : Int32} : word? n = some word ↔ n = word.toInt := by
  unfold word?
  split
  · next range =>
    have same : (Int32.ofInt n).toInt = n := Int32.toInt_ofInt_of_le (by omega) (by omega)
    rw [Option.some.injEq, ← Int32.toInt_inj, same]
  · next range =>
    have low := word.le_toInt
    have high := word.toInt_lt
    refine ⟨nofun, fun same => absurd ?_ range⟩
    omega

theorem word_of_integer?_eq_some_iff {text : List Char} {word : Int32} :
    (integer? text).bind word? = some word ↔ Whole text word.toInt := by
  simp only [Option.bind_eq_some_iff, integer?_eq_some_iff, word?_eq_some_iff]
  exact ⟨fun ⟨_, spelled, same⟩ => same ▸ spelled, fun spelled => ⟨_, spelled, rfl⟩⟩

theorem digits_toDigits (n : Nat) : Digits (Nat.toDigits 10 n) n where
  some_digit := Nat.toDigits_ne_nil
  digits _ member := Nat.isDigit_of_mem_toDigits (by decide) (by decide) member
  value_eq := Nat.ofDigitChars_ten_toDigits.symm

theorem whole_showInt (n : Int) : Whole (showInt n).toList n := by
  cases n with
  | ofNat n =>
      rw [showInt, String.toList_ofList]
      exact .unsigned (digits_toDigits n)
  | negSucc n =>
      rw [showInt, String.toList_ofList]
      exact .minus (digits_toDigits (n + 1))

theorem isBlank_of_isDigit {c : Char} (digit : c.isDigit = true) : isBlank c = false := by
  have bounds : 48 ≤ c.toNat ∧ c.toNat ≤ 57 := Char.isDigit_iff_toNat.mp digit
  simp only [isBlank, Bool.or_eq_false_iff, Bool.and_eq_false_iff, decide_eq_false_iff_not,
    beq_eq_false_iff_ne]
  omega

theorem Whole.trimmed {text : List Char} {n : Int} (spelled : Whole text n) :
    Trimmed text text := by
  have last (sign : List Char) {digits : List Char} {n : Nat} (spelled : Digits digits n) :
      ∀ c ∈ (sign ++ digits).getLast?, isBlank c = false := by
    intro c last
    rw [List.getLast?_append_of_ne_nil _ spelled.some_digit] at last
    exact isBlank_of_isDigit (spelled.digits c (List.mem_of_getLast? last))
  refine ⟨⟨[], [], by simp, nofun, nofun⟩, ?_, ?_⟩
  · cases spelled with
    | unsigned spelled =>
        exact fun c first => isBlank_of_isDigit (spelled.digits c (List.mem_of_mem_head? first))
    | plus spelled => rintro c ⟨⟩; rfl
    | minus spelled => rintro c ⟨⟩; rfl
  · cases spelled with
    | unsigned spelled => exact last [] spelled
    | plus spelled => exact last ['+'] spelled
    | minus spelled => exact last ['-'] spelled

end Statechart.Text
