import Statechart.Json.Ident
import Statechart.Json.Reader
import Statechart.Layer.Basic

namespace Statechart

open Json

variable {δ γ : Type}

def History.ofJson? : Value → Option History :=
  choice? History.names

def Composition.ofJson? : Value → Option Composition :=
  choice? Composition.names

def TransitionKind.ofJson? : Value → Option TransitionKind :=
  choice? TransitionKind.names

namespace ActionRef

def ofJson? : Value → Option (ActionRef δ γ)
  | .text content => content.map written
  | .object members =>
    if (Value.object members).isSound then do
      let fields ← fields? .skipped ["name", "weight"] (.object members)
      let name ← required? Value.string? "name" fields
      let weight ← withDefault? Value.word? Weight.normal "weight" fields
      return named name weight
    else
      none
  | _ => none

def listOfJson? : Value → Option (List (ActionRef δ γ))
  | .array items => items.mapM ofJson?
  | value => (ofJson? value).map fun ref => [ref]

end ActionRef

namespace StateDecl

def fieldNames : List String :=
  ["onEntry", "onExit", "final", "initial", "history", "composition", "children"]

def traitsOfFields? (fields : List (String × Value)) : Option (Traits δ γ) := do
  let entry ← omissible? ActionRef.listOfJson? "onEntry" fields
  let exit ← omissible? ActionRef.listOfJson? "onExit" fields
  let isFinal ← optional? Value.bool? "final" fields
  let isInitial ← optional? Value.bool? "initial" fields
  let history ← optional? History.ofJson? "history" fields
  let composition ← optional? Composition.ofJson? "composition" fields
  return { entry, exit, isFinal, isInitial, history, composition }

def listOfJson? : Nat → Value → Option (List (StateDecl δ γ))
  | 0, _ => none
  | levels + 1, .object members =>
    members.mapM fun (key, value) => do
      let name ← key
      let fields ← fields? .refused fieldNames value
      let traits ← traitsOfFields? fields
      let children ← withDefault? (listOfJson? levels) [] "children" fields
      return mk ⟨name⟩ traits children
  | _ + 1, _ => none

end StateDecl

namespace TransitionDecl

def fieldNames : List String :=
  ["from", "to", "on", "when", "priority", "perform", "type"]

def ofJson? (value : Value) : Option (TransitionDecl δ γ) := do
  let fields ← fields? .refused fieldNames value
  let source ← required? StateId.ofJson? "from" fields
  let target ← optional? StateId.ofJson? "to" fields
  let event ← required? EventId.ofJson? "on" fields
  let guard ← optional? Value.string? "when" fields
  let priority ← optional? Value.word? "priority" fields
  let actions ← omissible? ActionRef.listOfJson? "perform" fields
  let kind ← optional? TransitionKind.ofJson? "type" fields
  return { source, target, event, guard := guard.map .named, priority, actions, kind }

def listOfJson? : Value → Option (List (TransitionDecl δ γ))
  | .array items => items.mapM ofJson?
  | _ => none

end TransitionDecl

namespace Layer

def fieldNames : List String :=
  ["initial", "states", "transitions"]

def ofJson? (value : Value) : Option (Layer δ γ) :=
  if nestingLimit < value.depth then
    none
  else do
    let fields ← fields? .refused fieldNames value
    let initial ← optional? StateId.ofJson? "initial" fields
    let states ← withDefault? (StateDecl.listOfJson? nestingLimit) [] "states" fields
    let transitions ← withDefault? TransitionDecl.listOfJson? [] "transitions" fields
    return { initial, states, transitions }

def parse (text : String) : Except BuildError (Layer δ γ) :=
  match (Value.read? text).bind ofJson? with
  | some layer => .ok layer
  | none => .error (.configuration .unreadableLayer)

end Layer

end Statechart
