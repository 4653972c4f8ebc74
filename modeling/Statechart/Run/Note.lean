import Statechart.Behavior.Action
import Statechart.Run.Status

/-!
What a machine tells while it runs.

Observers receive notifications, and a log receives records.  A note is anything that happens, in
the order in which it happens: calls to the states and the transition of a step, runs of handlers,
events put on the queue, and whatever is told.
-/

namespace Statechart

variable {γ : Type}

inductive Stage where
  | began
  | completed (target : StateId)
  | declined
  | failed (error : MachineError)
  | ended
  deriving DecidableEq

inductive Notification (γ : Type) where
  | started (state : StateId) (context : γ)
  | terminated (state : StateId) (context : γ)
  | step (stage : Stage) (origin : StateId) (event : EventId) (context : γ)
  deriving DecidableEq

inductive LogRecord where
  | started (state : StateId)
  | terminated (state : StateId)
  | step (stage : Stage) (origin : StateId) (event : EventId)
  | unhandled (name : String) (event : EventId)
  | compiled (states transitions : Nat) (initial : Option StateId)
  deriving DecidableEq

inductive Call (σ τ : Type) where
  | exit (state : σ)
  | perform (transition : τ)
  | enter (state : σ)
  deriving DecidableEq

inductive Sender where
  | caller
  | action
  /-- The machine, having come to rest in a nested final state. -/
  | machine
  deriving DecidableEq

/-- Something that happens while a machine runs. -/
inductive Note (γ : Type) where
  /-- A call begins; a transition is given by its source. -/
  | called (call : Call StateId StateId)
  | ran (handler : HandlerKey)
  | queued (sender : Sender) (occurrence : Occurrence γ)
  | logged (record : LogRecord)
  | notified (notification : Notification γ)
  deriving DecidableEq

namespace Note

def notifications (notes : List (Note γ)) : List (Notification γ) :=
  notes.filterMap fun
    | .notified notification => some notification
    | _ => none

def records (notes : List (Note γ)) : List LogRecord :=
  notes.filterMap fun
    | .logged record => some record
    | _ => none

def calls (notes : List (Note γ)) : List (Call StateId StateId) :=
  notes.filterMap fun
    | .called call => some call
    | _ => none

def occurrences (notes : List (Note γ)) : List (Occurrence γ) :=
  notes.filterMap fun
    | .queued _ occurrence => some occurrence
    | _ => none

@[simp] theorem notifications_append (notes later : List (Note γ)) :
    notifications (notes ++ later) = notifications notes ++ notifications later :=
  List.filterMap_append

@[simp] theorem records_append (notes later : List (Note γ)) :
    records (notes ++ later) = records notes ++ records later :=
  List.filterMap_append

@[simp] theorem calls_append (notes later : List (Note γ)) :
    calls (notes ++ later) = calls notes ++ calls later :=
  List.filterMap_append

@[simp] theorem occurrences_append (notes later : List (Note γ)) :
    occurrences (notes ++ later) = occurrences notes ++ occurrences later :=
  List.filterMap_append

end Note

def Stage.text : Stage → String
  | .began => "began"
  | .completed _ => "completed"
  | .declined => "declined"
  | .failed _ => "failed"
  | .ended => "ended"

def Notification.line : Notification γ → String
  | .started state _ => "started " ++ state.text
  | .terminated state _ => "terminated " ++ state.text
  | .step stage origin event _ =>
    stage.text ++ " " ++ event.text ++ ": " ++ origin.text ++
      match stage with
      | .completed target => " -> " ++ target.text
      | _ => ""

inductive Level where
  | debug
  | warn
  | error
  deriving DecidableEq

def Level.text : Level → String
  | .debug => "DEBUG"
  | .warn => "WARN"
  | .error => "ERROR"

namespace LogRecord

def level : LogRecord → Level
  | .step (.failed _) _ _ => .error
  | .unhandled _ _ => .warn
  | _ => .debug

def message : LogRecord → String
  | .started _ => "machine started"
  | .terminated _ => "machine terminated"
  | .step (.failed _) _ _ => "machine failed"
  | .step stage _ _ => "transition " ++ stage.text
  | .unhandled _ _ => "no action registered under this name"
  | .compiled _ _ _ => "compiled state model"

end LogRecord

end Statechart
