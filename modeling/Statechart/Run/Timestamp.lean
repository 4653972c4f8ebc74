import Statechart.Text.Decimal

namespace Statechart

structure Timestamp where
  millis : Int
  deriving DecidableEq

structure Date where
  year : Int
  month : Nat
  day : Nat

namespace Date

/-- Days from 1 March of year 0 to the start of 1970. -/
def epoch : Int := 719468

def ofDays (days : Int) : Date :=
  let shifted := days + epoch
  let era := shifted.fdiv 146097
  let dayOfEra := (shifted - era * 146097).toNat
  let yearOfEra := (dayOfEra - dayOfEra / 1460 + dayOfEra / 36524 - dayOfEra / 146096) / 365
  let dayOfYear := dayOfEra - (365 * yearOfEra + yearOfEra / 4 - yearOfEra / 100)
  let shiftedMonth := (5 * dayOfYear + 2) / 153
  let day := dayOfYear - (153 * shiftedMonth + 2) / 5 + 1
  let month := if shiftedMonth < 10 then shiftedMonth + 3 else shiftedMonth - 9
  let year := (yearOfEra : Int) + era * 400 + if month ≤ 2 then 1 else 0
  ⟨year, month, day⟩

def toDays (date : Date) : Int :=
  let year := if date.month ≤ 2 then date.year - 1 else date.year
  let era := year.fdiv 400
  let yearOfEra := (year - era * 400).toNat
  let shiftedMonth := if date.month ≤ 2 then date.month + 9 else date.month - 3
  let dayOfYear := (153 * shiftedMonth + 2) / 5 + date.day - 1
  let dayOfEra := 365 * yearOfEra + yearOfEra / 4 - yearOfEra / 100 + dayOfYear
  era * 146097 + dayOfEra - epoch

end Date

namespace Timestamp

/-- Years of four digits stand bare; others have a sign. -/
def renderYear (year : Int) : String :=
  if 0 ≤ year ∧ year ≤ 9999 then
    Text.padded 4 year.toNat
  else
    (if year < 0 then "-" else "+") ++ Text.padded 4 year.natAbs

def render (time : Timestamp) : String :=
  let date := Date.ofDays (time.millis.fdiv 86400000)
  let ofDay := (time.millis.fmod 86400000).toNat
  let seconds := ofDay / 1000
  let fraction := ofDay % 1000
  renderYear date.year ++ "-" ++ Text.padded 2 date.month ++ "-" ++ Text.padded 2 date.day ++
    "T" ++ Text.padded 2 (seconds / 3600) ++ ":" ++ Text.padded 2 (seconds / 60 % 60) ++ ":" ++
    Text.padded 2 (seconds % 60) ++
    (if fraction = 0 then "" else "." ++ Text.padded 3 fraction) ++ "Z"

def readPart? (width : Nat) (mark : Char) (text : List Char) : Option (Nat × List Char) :=
  match Text.natural? (text.take width), text.drop width with
  | some n, c :: rest => if c = mark then some (n, rest) else none
  | _, _ => none

def readYear? (text : List Char) : Option (Int × List Char) :=
  let signed (sign : Int) (rest : List Char) :=
    match Text.natural? (rest.takeWhile Char.isDigit), rest.dropWhile Char.isDigit with
    | some n, '-' :: rest => some (sign * n, rest)
    | _, _ => none
  match text with
  | '-' :: rest => signed (-1) rest
  | '+' :: rest => signed 1 rest
  | text => (readPart? 4 '-' text).map fun (n, rest) => ((n : Int), rest)

def readSeconds? (text : List Char) : Option (Nat × Nat) :=
  match readPart? 2 'Z' text with
  | some (seconds, []) => some (seconds, 0)
  | some _ => none
  | none => do
    let (seconds, rest) ← readPart? 2 '.' text
    let (millis, rest) ← readPart? 3 'Z' rest
    if rest.isEmpty then some (seconds, millis) else none

def parse? (text : String) : Option Timestamp := do
  let (year, rest) ← readYear? text.toList
  let (month, rest) ← readPart? 2 '-' rest
  let (day, rest) ← readPart? 2 'T' rest
  let (hour, rest) ← readPart? 2 ':' rest
  let (minute, rest) ← readPart? 2 ':' rest
  let (second, millis) ← readSeconds? rest
  let days := Date.toDays ⟨year, month, day⟩
  return ⟨days * 86400000 + (((hour * 60 + minute) * 60 + second) * 1000 + millis : Nat)⟩

end Timestamp

end Statechart
