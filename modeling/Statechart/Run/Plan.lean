import Statechart.Chart.Basic
import Statechart.Run.Memory
import Statechart.Run.Note

/-!
Which states a step exits and enters.

A plan lists the calls of a step in order, and the state the machine comes to rest in.  It depends
on the chart, the memory and the two ends of the step, and not on what the actions do, so it is made
before any of them runs.
-/

namespace Statechart

variable {δ γ : Type}

inductive Interruption where
  | unknownState (id : StateId)
  /-- The children of a state never come to an end. -/
  | endlessDescent (id : StateId)
  /-- More events were fired than the caller allowed for. -/
  | tooManyEvents
  deriving DecidableEq

def Interruption.message : Interruption → String
  | .unknownState id => "state '" ++ id.text ++ "' is not part of this state tree"
  | .endlessDescent id => "the states below '" ++ id.text ++ "' never end"
  | .tooManyEvents => "too many events"

abbrev PlannedCall (δ γ : Type) := Call (Node δ γ) (Transition δ γ)

structure Plan (δ γ : Type) where
  calls : List (PlannedCall δ γ)
  rest : Except Interruption StateId

namespace Plan

def after (calls : List (PlannedCall δ γ)) (plan : Plan δ γ) : Plan δ γ :=
  ⟨calls ++ plan.calls, plan.rest⟩

@[simp] theorem calls_after (calls : List (PlannedCall δ γ)) (plan : Plan δ γ) :
    (plan.after calls).calls = calls ++ plan.calls :=
  rfl

@[simp] theorem rest_after (calls : List (PlannedCall δ γ)) (plan : Plan δ γ) :
    (plan.after calls).rest = plan.rest :=
  rfl

end Plan

namespace Chart

def remember (chart : Chart δ γ) (memory : Memory) (node : Node δ γ) : Memory :=
  match node.parent with
  | some parent =>
    if chart.forest.tracksHistory parent then memory.record parent node.id else memory
  | none => memory

/-- What is remembered after a call; final states are left without a trace. -/
def rememberCall (chart : Chart δ γ) (memory : Memory) : PlannedCall δ γ → Memory
  | .exit node => if node.isFinal then memory else chart.remember memory node
  | _ => memory

def remembered? (chart : Chart δ γ) (memory : Memory) (mode : History) (node : Node δ γ) :
    Option StateId :=
  match mode with
  | .none => none
  | _ => (memory.child? node.id).filter fun child =>
      child ∈ node.children && chart.forest.contains child

/-- The child to enter below a composite, and the mode to go on with. -/
def nextChild? (chart : Chart δ γ) (memory : Memory) (mode : History) (node : Node δ γ) :
    Option (StateId × History) :=
  match chart.remembered? memory mode node with
  | some child => some (child, if mode = .deep then .deep else .none)
  | none => (chart.forest.initialChild? node.id).map fun child => (child, .none)

def descend (chart : Chart δ γ) (memory : Memory) : Nat → History → Node δ γ → Plan δ γ
  | 0, _, node => ⟨[], .error (.endlessDescent node.id)⟩
  | steps + 1, mode, node =>
    if node.isFinal || node.isLeaf then
      ⟨[], .ok node.id⟩
    else
      match chart.nextChild? memory mode node with
      | none => ⟨[], .ok node.id⟩
      | some (child, mode) =>
        match chart.forest.node? child with
        | none => ⟨[], .error (.unknownState child)⟩
        | some below => (descend chart memory steps mode below).after [.enter below]

/-- Goes down from the state that a step landed on, which decides how history is used. -/
def land (chart : Chart δ γ) (memory : Memory) (id : StateId) : Plan δ γ :=
  match chart.forest.node? id with
  | none => ⟨[], .error (.unknownState id)⟩
  | some node => chart.descend memory chart.forest.size node.history node

def landAfter (chart : Chart δ γ) (memory : Memory) (calls : List (PlannedCall δ γ))
    (id : StateId) : Plan δ γ :=
  (chart.land (calls.foldl chart.rememberCall memory) id).after calls

def startPlan (chart : Chart δ γ) (memory : Memory) (initial : StateId) : Plan δ γ :=
  chart.landAfter memory ((chart.forest.lineage initial).reverse.map .enter) initial

def terminatePlan (chart : Chart δ γ) (current : StateId) : List (PlannedCall δ γ) :=
  (chart.forest.lineage current).map .exit

/--
The way from a source to a target that is the first of its lineage, given the way from the parent
of the source.
-/
def passageFrom (transition : Transition δ γ) (source : Node δ γ)
    (fromParent : List (Node δ γ) → List (PlannedCall δ γ)) :
    List (Node δ γ) → List (PlannedCall δ γ)
  | [] => []
  | target :: above =>
    if source.id = transition.target then
      if transition.kind = .localized then
        [.perform transition]
      else
        [.exit source, .perform transition, .enter source]
    else if source.id = target.id then
      [.perform transition]
    else if source.parent = target.parent then
      [.exit source, .perform transition, .enter target]
    else if source.level > target.level ∧ source.parent.isSome then
      .exit source :: fromParent (target :: above)
    else if source.level < target.level ∧ target.parent.isSome then
      passageFrom transition source fromParent above ++ [.enter target]
    else if source.parent.isSome ∧ target.parent.isSome then
      .exit source :: fromParent above ++ [.enter target]
    else
      [.exit source, .perform transition, .enter target]

/--
The way from the source to the target of a transition, given the lineages of both.  The deeper end
is climbed first, until the ends meet or are siblings; there the transition's actions run.
-/
def passage (transition : Transition δ γ) :
    List (Node δ γ) → List (Node δ γ) → List (PlannedCall δ γ)
  | [] => fun _ => []
  | source :: above => passageFrom transition source (passage transition above)

/-- The first enabled transition on the way from a state to its root. -/
def select? (chart : Chart δ γ) (current : StateId) (occurrence : Occurrence γ) :
    Option (Transition δ γ) :=
  (chart.forest.ancestors current).findSome? fun state =>
    (chart.table.candidates state occurrence.event).find? fun transition =>
      transition.accepts occurrence.context

def unwind (chart : Chart δ γ) (current source : StateId) : List (PlannedCall δ γ) :=
  ((chart.forest.lineage current).takeWhile fun node => node.id ≠ source).map .exit

def transitionPlan (chart : Chart δ γ) (memory : Memory) (current : StateId)
    (transition : Transition δ γ) : Plan δ γ :=
  match transition.kind with
  | .internal => ⟨[.perform transition], .ok current⟩
  | _ =>
    let source := chart.forest.lineage transition.source
    let target := chart.forest.lineage transition.target
    chart.landAfter memory
      (chart.unwind current transition.source ++ passage transition source target)
      transition.target

end Chart

end Statechart
