import Statechart.Behavior.Action
import Statechart.Error

namespace Statechart

variable {δ γ : Type}

/-- Which child of a composite state is entered when a step lands on the composite. -/
inductive History where
  /-- The initial child. -/
  | none
  /-- The child that was active last, and initial children below it. -/
  | shallow
  /-- The child that was active last, on every level below. -/
  | deep
  deriving DecidableEq

namespace History

def names : List (String × History) :=
  [("none", .none), ("shallow", .shallow), ("deep", .deep)]

def name : History → String
  | .none => "none"
  | .shallow => "shallow"
  | .deep => "deep"

end History

/-- How the children of a composite state are combined; recorded, but without effect. -/
inductive Composition where
  | sequential
  | parallel
  deriving DecidableEq

namespace Composition

def names : List (String × Composition) :=
  [("sequential", .sequential), ("parallel", .parallel)]

def name : Composition → String
  | .sequential => "sequential"
  | .parallel => "parallel"

end Composition

structure Node (δ γ : Type) where
  id : StateId
  parent : Option StateId := none
  children : List StateId := []
  level : Nat := 1
  isInitial : Bool := false
  isFinal : Bool := false
  history : History := .none
  composition : Composition := .sequential
  entry : ActionList δ γ := {}
  exit : ActionList δ γ := {}
  frozen : Bool := false

namespace Node

def isRoot (node : Node δ γ) : Bool :=
  node.parent.isNone

def isLeaf (node : Node δ γ) : Bool :=
  node.children.isEmpty

def change (node : Node δ γ) (changed : Node δ γ) : Except BuildError (Node δ γ) :=
  if node.frozen then .error (.configuration (.stateFrozen node.id)) else .ok changed

/-- Puts the node under a parent; a node keeps the parent it has. -/
def setParent (node : Node δ γ) (parent : StateId) : Except BuildError (Node δ γ) := do
  let moved ← node.change { node with parent := some parent }
  if parent = node.id then
    throw (.configuration (.ownParent node.id))
  match node.parent with
  | some existing =>
    if existing = parent then
      return moved
    else
      throw (.configuration (.otherParent node.id existing parent))
  | none => return moved

def addChild (node : Node δ γ) (child : StateId) : Except BuildError (Node δ γ) :=
  node.change
    (if child ∈ node.children then node else { node with children := node.children ++ [child] })

def setLevel (node : Node δ γ) (level : Nat) : Except BuildError (Node δ γ) :=
  node.change { node with level }

def setInitial (node : Node δ γ) (isInitial : Bool) : Except BuildError (Node δ γ) :=
  node.change { node with isInitial }

def setFinal (node : Node δ γ) (isFinal : Bool) : Except BuildError (Node δ γ) :=
  node.change { node with isFinal }

def setHistory (node : Node δ γ) (history : History) : Except BuildError (Node δ γ) :=
  node.change { node with history }

def setComposition (node : Node δ γ) (composition : Composition) :
    Except BuildError (Node δ γ) :=
  node.change { node with composition }

def addEntry (node : Node δ γ) (slot : Slot δ γ) : Except BuildError (Node δ γ) :=
  node.change { node with entry := (node.entry.push slot).1 }

def addExit (node : Node δ γ) (slot : Slot δ γ) : Except BuildError (Node δ γ) :=
  node.change { node with exit := (node.exit.push slot).1 }

def freeze (node : Node δ γ) : Except BuildError (Node δ γ) :=
  node.change { node with entry := node.entry.sort, exit := node.exit.sort, frozen := true }

end Node

end Statechart
