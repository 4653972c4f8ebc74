import Statechart.Chart.Transition
import Statechart.Hierarchy.Node
import Statechart.Layer.Descriptor

namespace Statechart

variable {δ γ : Type}

/-- What a layer says of a state, its children apart. -/
structure Traits (δ γ : Type) where
  entry : Option (List (ActionRef δ γ)) := none
  exit : Option (List (ActionRef δ γ)) := none
  isFinal : Option Bool := none
  isInitial : Option Bool := none
  history : Option History := none
  composition : Option Composition := none

namespace Traits

def addEntry (declared : Traits δ γ) (action : ActionRef δ γ) : Traits δ γ :=
  { declared with entry := some (declared.entry.getD [] ++ [action]) }

def addExit (declared : Traits δ γ) (action : ActionRef δ γ) : Traits δ γ :=
  { declared with exit := some (declared.exit.getD [] ++ [action]) }

end Traits

inductive StateDecl (δ γ : Type) where
  | mk (id : StateId) (traits : Traits δ γ) (children : List (StateDecl δ γ))

namespace StateDecl

def id : StateDecl δ γ → StateId
  | mk id _ _ => id

def traits : StateDecl δ γ → Traits δ γ
  | mk _ traits _ => traits

def children : StateDecl δ γ → List (StateDecl δ γ)
  | mk _ _ children => children

end StateDecl

structure TransitionDecl (δ γ : Type) where
  source : StateId
  /-- May be left out if the transition stays on its source. -/
  target : Option StateId := none
  event : EventId
  guard : Option (GuardRef γ) := none
  priority : Option Priority := none
  actions : Option (List (ActionRef δ γ)) := none
  kind : Option TransitionKind := none

namespace TransitionDecl

def destination (declared : TransitionDecl δ γ) : StateId :=
  declared.target.getD declared.source

def addAction (declared : TransitionDecl δ γ) (action : ActionRef δ γ) : TransitionDecl δ γ :=
  { declared with actions := some (declared.actions.getD [] ++ [action]) }

/-- Whether two declarations are about the same transition: ends, event and guard agree. -/
def same (declared other : TransitionDecl δ γ) : Bool :=
  let sameGuard :=
    match declared.guard, other.guard with
    | none, none => true
    | some guard, some guard' => guard.same guard'
    | _, _ => false
  declared.source = other.source && declared.destination = other.destination &&
    declared.event = other.event && sameGuard

end TransitionDecl

structure Layer (δ γ : Type) where
  initial : Option StateId := none
  states : List (StateDecl δ γ) := []
  transitions : List (TransitionDecl δ γ) := []

end Statechart
