import Statechart.Json.Value

namespace Statechart.Json

def writeChar (c : Char) : List Char :=
  match c with
  | '"' => ['\\', '"']
  | '\\' => ['\\', '\\']
  | '\x08' => ['\\', 'b']
  | '\x0c' => ['\\', 'f']
  | '\n' => ['\\', 'n']
  | '\r' => ['\\', 'r']
  | '\t' => ['\\', 't']
  | c =>
    if c.toNat < 0x20 then
      ['\\', 'u', '0', '0', Nat.digitChar (c.toNat / 16), Nat.digitChar (c.toNat % 16)]
    else
      [c]

def writeString (content : String) : List Char :=
  '"' :: content.toList.flatMap writeChar ++ ['"']

def writeNumeral (numeral : Numeral) : List Char :=
  let digits (ds : List Nat) := ds.map Nat.digitChar
  (if numeral.negative then ['-'] else []) ++ digits numeral.whole ++
    (if numeral.fraction.isEmpty then [] else '.' :: digits numeral.fraction) ++
    match numeral.exponent with
    | none => []
    | some power => 'e' :: (Text.showInt power).toList

mutual

/-- The characters of a value; a string that names no characters is written empty. -/
def Value.write : Value → List Char
  | .null => ['n', 'u', 'l', 'l']
  | .bool true => ['t', 'r', 'u', 'e']
  | .bool false => ['f', 'a', 'l', 's', 'e']
  | .number numeral => writeNumeral numeral
  | .text content => writeString (content.getD "")
  | .array items => '[' :: writeItems items ++ [']']
  | .object members => '\x7b' :: writeMembers members ++ ['\x7d']

def writeItems : List Value → List Char
  | [] => []
  | [item] => item.write
  | item :: next :: rest => item.write ++ ',' :: writeItems (next :: rest)

def writeMembers : List (Option String × Value) → List Char
  | [] => []
  | [(key, value)] => writeString (key.getD "") ++ ':' :: value.write
  | (key, value) :: next :: rest =>
    writeString (key.getD "") ++ ':' :: value.write ++ ',' :: writeMembers (next :: rest)

end

def Value.render (value : Value) : String :=
  String.ofList value.write

end Statechart.Json
