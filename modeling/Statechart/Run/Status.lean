import Statechart.Ident

namespace Statechart

inductive Status where
  | initialized
  | idle
  | busy
  | terminated
  | error
  deriving DecidableEq

namespace Status

/-- A machine in a terminal status takes no further events. -/
def isTerminal : Status → Bool
  | .terminated | .error => true
  | _ => false

def text : Status → String
  | .initialized => "initialized"
  | .idle => "idle"
  | .busy => "busy"
  | .terminated => "terminated"
  | .error => "error"

def names : List (String × Status) :=
  [("Initialized", .initialized), ("Idle", .idle), ("Busy", .busy),
    ("Terminated", .terminated), ("Error", .error)]

def name : Status → String
  | .initialized => "Initialized"
  | .idle => "Idle"
  | .busy => "Busy"
  | .terminated => "Terminated"
  | .error => "Error"

end Status

inductive Operation where
  | start
  | terminate
  | fire
  deriving DecidableEq

def Operation.text : Operation → String
  | .start => "start"
  | .terminate => "terminate"
  | .fire => "fire"

inductive MachineError where
  | invalidStatus (status : Status) (operation : Operation)
  | notRunning
  | actionFailure (state : StateId) (event : EventId) (reason : String)
  deriving DecidableEq

def MachineError.message : MachineError → String
  | .invalidStatus status operation =>
    "Cannot " ++ operation.text ++ " a machine whose status is " ++ status.text
  | .notRunning => "Machine has not been started and auto-start is disabled"
  | .actionFailure state event reason =>
    "Action failed in state '" ++ state.text ++ "' handling '" ++ event.text ++ "': " ++ reason

end Statechart
