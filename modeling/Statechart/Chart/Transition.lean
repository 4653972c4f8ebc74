import Statechart.Behavior.Action
import Statechart.Behavior.Guard
import Statechart.Error

namespace Statechart

variable {δ γ : Type}

/-- How far the ends of a transition are exited and entered again. -/
inductive TransitionKind where
  /-- The actions run in place; nothing is exited or entered. -/
  | internal
  /-- The end that contains the other one is neither exited nor entered. -/
  | localized
  /-- A target that contains the source is exited and entered again. -/
  | external
  deriving DecidableEq

namespace TransitionKind

def names : List (String × TransitionKind) :=
  [("internal", .internal), ("local", .localized), ("external", .external)]

def name : TransitionKind → String
  | .internal => "internal"
  | .localized => "local"
  | .external => "external"

end TransitionKind

abbrev Priority := Int32

def Priority.normal : Priority := 10

structure Transition (δ γ : Type) where
  source : StateId
  target : StateId
  event : EventId
  guard : Guard γ := .always
  priority : Priority := Priority.normal
  kind : TransitionKind := .external
  actions : ActionList δ γ := {}
  frozen : Bool := false

namespace Transition

/-- Sets the kind; an internal transition stays on its source. -/
def withKind (transition : Transition δ γ) (kind : TransitionKind) :
    Except BuildError (Transition δ γ) :=
  if kind = .internal ∧ transition.source ≠ transition.target then
    .error (.configuration (.internalTarget transition.source transition.target))
  else
    .ok { transition with kind }

def accepts (transition : Transition δ γ) (context : γ) : Bool :=
  transition.guard.check context

def change (transition changed : Transition δ γ) : Except BuildError (Transition δ γ) :=
  if transition.frozen then
    .error (.configuration
      (.transitionFrozen transition.source transition.target transition.event))
  else
    .ok changed

def addAction (transition : Transition δ γ) (slot : Slot δ γ) :
    Except BuildError (Transition δ γ) :=
  transition.change { transition with actions := (transition.actions.push slot).1 }

def freeze (transition : Transition δ γ) : Except BuildError (Transition δ γ) :=
  transition.change { transition with actions := transition.actions.sort, frozen := true }

end Transition

end Statechart
