import Statechart.Text.Decimal

namespace Statechart.Json

def valueOfDigits (digits : List Nat) : Nat :=
  digits.foldl (fun value digit => 10 * value + digit) 0

/-- A number as it is written: the digits before and after the point, and the power of ten. -/
structure Numeral where
  negative : Bool
  whole : List Nat
  fraction : List Nat
  exponent : Option Int

/--
The data model of the format.  Objects keep the order and the repetition of their members.  A
string or key is `none` when it spells half of a surrogate pair, which names no character.
-/
inductive Value where
  | null
  | bool (flag : Bool)
  | number (numeral : Numeral)
  | text (content : Option String)
  | array (items : List Value)
  | object (members : List (Option String × Value))

mutual

def Value.depth : Value → Nat
  | .array items => depthOfItems items + 1
  | .object members => depthOfMembers members + 1
  | _ => 0

def depthOfItems : List Value → Nat
  | [] => 0
  | item :: rest => max item.depth (depthOfItems rest)

def depthOfMembers : List (Option String × Value) → Nat
  | [] => 0
  | (_, value) :: rest => max value.depth (depthOfMembers rest)

end

/-- How many brackets may be open at once in a text whose every value is looked at. -/
def nestingLimit : Nat := 127

def Value.ofString (content : String) : Value :=
  .text (some content)

def Value.ofMembers (members : List (String × Value)) : Value :=
  .object (members.map fun member => (some member.1, member.2))

end Statechart.Json
