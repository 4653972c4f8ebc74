import Statechart.Error
import Statechart.Json.Ident
import Statechart.Json.Reader
import Statechart.Json.Writer

namespace Statechart

open Json

structure Options where
  /-- Start the machine on the first event instead of refusing it. -/
  autoStart : Bool := true
  /-- Terminate once the machine rests in a final top-level state. -/
  autoTerminate : Bool := true
  /-- Log every step of a transition. -/
  debugTrace : Bool := false
  startEvent : EventId := ⟨"$Start"⟩
  terminateEvent : EventId := ⟨"$Terminate"⟩
  /-- Fired when the machine comes to rest in a nested final state. -/
  finishEvent : EventId := ⟨"$Finish"⟩
  deriving DecidableEq

namespace Options

def fieldNames : List String :=
  ["autoStart", "autoTerminate", "debugTrace", "startEvent", "terminateEvent", "finishEvent"]

def toJson (options : Options) : Value :=
  .ofMembers
    [("autoStart", .bool options.autoStart),
      ("autoTerminate", .bool options.autoTerminate),
      ("debugTrace", .bool options.debugTrace),
      ("startEvent", options.startEvent.toJson),
      ("terminateEvent", options.terminateEvent.toJson),
      ("finishEvent", options.finishEvent.toJson)]

/-- Reads options; fields that are left out have their defaults, unknown ones are skipped. -/
def ofJson? (value : Value) : Option Options := do
  let standard : Options := {}
  let fields ← fields? .skipped fieldNames value
  let autoStart ← withDefault? Value.bool? standard.autoStart "autoStart" fields
  let autoTerminate ← withDefault? Value.bool? standard.autoTerminate "autoTerminate" fields
  let debugTrace ← withDefault? Value.bool? standard.debugTrace "debugTrace" fields
  let startEvent ← withDefault? EventId.ofJson? standard.startEvent "startEvent" fields
  let terminateEvent ←
    withDefault? EventId.ofJson? standard.terminateEvent "terminateEvent" fields
  let finishEvent ← withDefault? EventId.ofJson? standard.finishEvent "finishEvent" fields
  return { autoStart, autoTerminate, debugTrace, startEvent, terminateEvent, finishEvent }

def parse (text : String) : Except BuildError Options :=
  match (Value.read? text).bind ofJson? with
  | some options => .ok options
  | none => .error (.configuration .unreadableOptions)

end Options

end Statechart
