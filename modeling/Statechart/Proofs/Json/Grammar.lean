import Statechart.Json.Reader
import Statechart.Proofs.Text.Decimal

namespace Statechart.Json

def Blanks (text : List Char) : Prop :=
  ∀ c ∈ text, c ∈ [' ', '\t', '\n', '\r']

theorem Blanks.nil : Blanks [] :=
  nofun

inductive HexDigit : Char → Nat → Prop where
  | lower {n : Nat} (small : n < 16) : HexDigit (Nat.digitChar n) n
  | upper {n : Nat} (small : n < 16) : HexDigit (Nat.digitChar n).toUpper n

def shortEscapes : List (Char × Char) :=
  [('"', '"'), ('\\', '\\'), ('/', '/'), ('b', '\x08'), ('f', '\x0c'), ('n', '\n'), ('r', '\r'),
    ('t', '\t')]

/-- How one part of a string is written. -/
inductive Piece.Written : Piece → List Char → Prop where
  | plain {c : Char} (graphic : 0x20 ≤ c.toNat) (unquoted : c ≠ '"') (unescaped : c ≠ '\\') :
      Written (.char c) [c]
  | short {letter c : Char} (escape : (letter, c) ∈ shortEscapes) :
      Written (.char c) ['\\', letter]
  | number {a b c d : Char} {p q r s : Nat} (first : HexDigit a p) (second : HexDigit b q)
      (third : HexDigit c r) (fourth : HexDigit d s) :
      Written (.unit (((p * 16 + q) * 16 + r) * 16 + s)) ['\\', 'u', a, b, c, d]

inductive PiecesWritten : List Piece → List Char → Prop where
  | nil : PiecesWritten [] []
  | cons {piece : Piece} {pieces : List Piece} {text more : List Char}
      (first : piece.Written text) (rest : PiecesWritten pieces more) :
      PiecesWritten (piece :: pieces) (text ++ more)

/-- The characters that the parts of a string name; a pair of surrogates names one character. -/
inductive Names : List Piece → List Char → Prop where
  | nil : Names [] []
  | char {c : Char} {pieces : List Piece} {content : List Char} (rest : Names pieces content) :
      Names (.char c :: pieces) (c :: content)
  | unit {c : Char} {pieces : List Piece} {content : List Char} (rest : Names pieces content) :
      Names (.unit c.toNat :: pieces) (c :: content)
  | pair {c : Char} {high low : Nat} {pieces : List Piece} {content : List Char}
      (highBits : high < 0x400) (lowBits : low < 0x400)
      (value : c.toNat = 0x10000 + high * 0x400 + low) (rest : Names pieces content) :
      Names (.unit (0xD800 + high) :: .unit (0xDC00 + low) :: pieces) (c :: content)

inductive StringWritten : Option String → List Char → Prop where
  | named {content : String} {pieces : List Piece} {text : List Char}
      (parts : PiecesWritten pieces text) (names : Names pieces content.toList) :
      StringWritten (some content) ('"' :: text ++ ['"'])
  | nameless {pieces : List Piece} {text : List Char} (parts : PiecesWritten pieces text)
      (nameless : ∀ content, ¬Names pieces content) :
      StringWritten none ('"' :: text ++ ['"'])

structure DigitRow (digits : List Nat) : Prop where
  some_digit : digits ≠ []
  decimal : ∀ digit ∈ digits, digit < 10

inductive FractionWritten : List Nat → List Char → Prop where
  | absent : FractionWritten [] []
  | digits {digits : List Nat} (row : DigitRow digits) :
      FractionWritten digits ('.' :: digits.map Nat.digitChar)

inductive ExponentWritten : Option Int → List Char → Prop where
  | absent : ExponentWritten none []
  | power {mark : Char} {power : Int} {text : List Char} (marked : mark = 'e' ∨ mark = 'E')
      (spelled : Text.Whole text power) : ExponentWritten (some power) (mark :: text)

/-- A number; its digits do not begin with a zero that could be left out. -/
structure Numeral.Written (numeral : Numeral) (text : List Char) : Prop where
  row : DigitRow numeral.whole
  leading : numeral.whole = [0] ∨ numeral.whole.head? ≠ some 0
  parts : ∃ fraction exponent,
    text = (if numeral.negative then ['-'] else []) ++ numeral.whole.map Nat.digitChar ++
      fraction ++ exponent ∧
    FractionWritten numeral.fraction fraction ∧ ExponentWritten numeral.exponent exponent

mutual

inductive Value.Written : Value → List Char → Prop where
  | null : Value.Written .null ['n', 'u', 'l', 'l']
  | yes : Value.Written (.bool true) ['t', 'r', 'u', 'e']
  | no : Value.Written (.bool false) ['f', 'a', 'l', 's', 'e']
  | number {numeral : Numeral} {text : List Char} (spelled : numeral.Written text) :
      Value.Written (.number numeral) text
  | text {content : Option String} {text : List Char} (spelled : StringWritten content text) :
      Value.Written (.text content) text
  | emptyArray {blank : List Char} (blanks : Blanks blank) :
      Value.Written (.array []) ('[' :: blank ++ [']'])
  | array {items : List Value} {text : List Char} (inside : ItemsWritten items text) :
      Value.Written (.array items) ('[' :: text ++ [']'])
  | emptyObject {blank : List Char} (blanks : Blanks blank) :
      Value.Written (.object []) ('\x7b' :: blank ++ ['\x7d'])
  | object {members : List (Option String × Value)} {text : List Char}
      (inside : MembersWritten members text) :
      Value.Written (.object members) ('\x7b' :: text ++ ['\x7d'])

inductive Value.Padded : Value → List Char → Prop where
  | mk {value : Value} {before text after : List Char} (blankBefore : Blanks before)
      (written : value.Written text) (blankAfter : Blanks after) :
      Value.Padded value (before ++ text ++ after)

inductive ItemsWritten : List Value → List Char → Prop where
  | last {item : Value} {text : List Char} (padded : item.Padded text) : ItemsWritten [item] text
  | cons {item : Value} {items : List Value} {text more : List Char} (padded : item.Padded text)
      (rest : ItemsWritten items more) : ItemsWritten (item :: items) (text ++ ',' :: more)

inductive MemberWritten : Option String × Value → List Char → Prop where
  | mk {key : Option String} {value : Value} {before name after text : List Char}
      (blankBefore : Blanks before) (spelled : StringWritten key name)
      (blankAfter : Blanks after) (padded : value.Padded text) :
      MemberWritten (key, value) (before ++ name ++ after ++ ':' :: text)

inductive MembersWritten : List (Option String × Value) → List Char → Prop where
  | last {member : Option String × Value} {text : List Char}
      (written : MemberWritten member text) : MembersWritten [member] text
  | cons {member : Option String × Value} {members : List (Option String × Value)}
      {text more : List Char} (written : MemberWritten member text)
      (rest : MembersWritten members more) :
      MembersWritten (member :: members) (text ++ ',' :: more)

end

/-- The text holds the value and nothing else. -/
def Holds (text : String) (value : Value) : Prop :=
  value.Padded text.toList

end Statechart.Json
