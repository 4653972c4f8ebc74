import Statechart.Json.Fields
import Statechart.Script.Basic

namespace Statechart.Script

open Json

/-- A 64-bit word; larger numbers wrap around. -/
def long? : Value → Option Int64
  | .number numeral => numeral.int?.map Int64.ofInt
  | _ => none

mutual

def Condition.ofJson? : Value → Option Condition
  | .array [.text (some word)] =>
    match word with
    | "true" => some (.constant true)
    | "false" => some (.constant false)
    | _ => none
  | .array [.text (some word), argument] =>
    match word with
    | "gt" => (long? argument).map .exceeds
    | "lt" => (long? argument).map .fallsBelow
    | "eq" => (long? argument).map .equal
    | "not" => (Condition.ofJson? argument).map .not
    | "and" => (conditionsOfJson? argument).map .all
    | "or" => (conditionsOfJson? argument).map .any
    | _ => none
  | .array [.text (some "mod"), modulus, remainder] => do
    return .residue (← long? modulus) (← long? remainder)
  | _ => none

def conditionsOfJson? : Value → Option (List Condition)
  | .array items => conditionItems? items
  | _ => none

def conditionItems? : List Value → Option (List Condition)
  | [] => some []
  | item :: rest => do
    let condition ← Condition.ofJson? item
    let conditions ← conditionItems? rest
    return condition :: conditions

end

mutual

def Instruction.ofJson? : Value → Option Instruction
  | .array [.text (some word)] =>
    match word with
    | "name" => some .label
    | "push_n" => some .pushCounter
    | "scope" => some .scope
    | _ => none
  | .array [.text (some word), argument] =>
    match word with
    | "push" => argument.string?.map .push
    | "add" => (long? argument).map .add
    | "fire" => argument.string?.map fun event => .fire ⟨event⟩ .unchanged
    | "fail" => argument.string?.map .fail
    | _ => none
  | .array [.text (some word), first, second] =>
    match word with
    | "fire" => do return .fire ⟨← first.string?⟩ (.given (← long? second))
    | "fire_add" => do return .fire ⟨← first.string?⟩ (.increased (← long? second))
    | "if" => do return .ifContext (← Condition.ofJson? first) (← programOfJson? second)
    | "if_n" => do return .ifCounter (← Condition.ofJson? first) (← programOfJson? second)
    | _ => none
  | _ => none

def programOfJson? : Value → Option (List Instruction)
  | .text (some "rec") => some [.label]
  | .array items => programItems? items
  | _ => none

def programItems? : List Value → Option (List Instruction)
  | [] => some []
  | item :: rest => do
    let instruction ← Instruction.ofJson? item
    let program ← programItems? rest
    return instruction :: program

end

end Statechart.Script
