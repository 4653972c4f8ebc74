import Statechart.Json.Value

/-!
What a written number stands for.

A number without point and exponent is a whole number.  Any number is also taken as a binary
fraction of 53 significant bits: its digits give a significand below `2 ^ 64`, further digits only
count, and significand and power of ten are rounded to 53 bits each before they are multiplied.
-/

namespace Statechart.Json

namespace Numeral

/-- The whole number written, if it is one; zero has no negative. -/
def int? (numeral : Numeral) : Option Int :=
  if numeral.fraction.isEmpty && numeral.exponent.isNone then
    match numeral.negative, valueOfDigits numeral.whole with
    | true, 0 => none
    | true, n => some (-(n : Int))
    | false, n => some (n : Int)
  else
    none

def word? (numeral : Numeral) : Option Int32 :=
  numeral.int?.bind Text.word?

def ofInt (n : Int) : Numeral where
  negative := n < 0
  whole := (Nat.toDigits 10 n.natAbs).map fun c => c.toNat - '0'.toNat
  fraction := []
  exponent := none

/-- Takes leading digits while the significand stays below `2 ^ 64`; returns the digits left. -/
def takeDigits (significand : Nat) : List Nat → Nat × List Nat
  | [] => (significand, [])
  | digit :: rest =>
    if 10 * significand + digit < Nat.pow 2 64 then
      takeDigits (10 * significand + digit) rest
    else
      (significand, digit :: rest)

def scientific (numeral : Numeral) : Nat × Int :=
  let (whole, uncounted) := takeDigits 0 numeral.whole
  let (significand, ignored) := takeDigits whole numeral.fraction
  let shift : Int := uncounted.length - (numeral.fraction.length - ignored.length : Nat)
  (significand, shift + numeral.exponent.getD 0)

/-- The nearest number of 53 significant bits, an even last bit deciding ties. -/
def roundToBinary (n : Nat) : Nat :=
  if n < Nat.pow 2 53 then
    n
  else
    let unit := Nat.pow 2 (n.log2 - 52)
    let steps := n / unit
    let rest := n % unit
    if 2 * rest > unit ∨ (2 * rest = unit ∧ steps % 2 = 1) then (steps + 1) * unit
    else steps * unit

def isFinite (numeral : Numeral) : Bool :=
  let (significand, power) := numeral.scientific
  if significand = 0 ∨ power ≤ 0 then
    true
  else if power > 308 then
    false
  else
    roundToBinary significand * roundToBinary (Nat.pow 10 power.toNat) <
      Nat.pow 2 1024 - Nat.pow 2 970

end Numeral

def Value.ofInt (n : Int) : Value :=
  .number (.ofInt n)

mutual

/-- Whether every string names characters only and every number is finite. -/
def Value.isSound : Value → Bool
  | .number numeral => numeral.isFinite
  | .text content => content.isSome
  | .array items => itemsSound items
  | .object members => membersSound members
  | _ => true

def itemsSound : List Value → Bool
  | [] => true
  | item :: rest => item.isSound && itemsSound rest

def membersSound : List (Option String × Value) → Bool
  | [] => true
  | (key, value) :: rest => key.isSome && value.isSound && membersSound rest

end

end Statechart.Json
