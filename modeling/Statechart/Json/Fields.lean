import Statechart.Json.Numeral

namespace Statechart.Json

variable {α : Type}

/-- What a record does with names it does not know. -/
inductive Strangers where
  | refused
  | skipped
  deriving DecidableEq

def fields? (strangers : Strangers) (names : List String) :
    Value → Option (List (String × Value))
  | .object members => do
    let named ← members.mapM fun (key, value) => key.map fun name => (name, value)
    let known := named.filter fun member => names.contains member.1
    if strangers = .refused ∧ known.length ≠ named.length then
      none
    else if (known.map Prod.fst).Nodup then
      some known
    else
      none
  | .array items => if items.length ≤ names.length then some (names.zip items) else none
  | _ => none

def required? (decode : Value → Option α) (name : String)
    (fields : List (String × Value)) : Option α :=
  (fields.lookup name).bind decode

def withDefault? (decode : Value → Option α) (default : α) (name : String)
    (fields : List (String × Value)) : Option α :=
  match fields.lookup name with
  | none => some default
  | some value => decode value

/-- A field that may be left out or null. -/
def optional? (decode : Value → Option α) (name : String)
    (fields : List (String × Value)) : Option (Option α) :=
  match fields.lookup name with
  | none | some .null => some none
  | some value => (decode value).map some

/-- A field that may be left out but not null. -/
def omissible? (decode : Value → Option α) (name : String)
    (fields : List (String × Value)) : Option (Option α) :=
  match fields.lookup name with
  | none => some none
  | some value => (decode value).map some

def Value.bool? : Value → Option Bool
  | .bool flag => some flag
  | _ => none

def Value.string? : Value → Option String
  | .text content => content
  | _ => none

def Value.word? : Value → Option Int32
  | .number numeral => numeral.word?
  | _ => none

/-- One of several named choices: its name, or an object that maps the name to null. -/
def choice? (choices : List (String × α)) : Value → Option α
  | .text (some name) => choices.lookup name
  | .object [(some name, .null)] => choices.lookup name
  | _ => none

end Statechart.Json
