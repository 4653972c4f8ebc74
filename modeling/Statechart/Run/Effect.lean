import Statechart.Run.Plan

namespace Statechart

variable {δ γ : Type}

structure Work (δ γ : Type) where
  data : δ
  memory : Memory := {}
  queue : List (Occurrence γ) := []

/-- The result of doing something, and what happened meanwhile. -/
structure Effect (δ γ α : Type) where
  work : Work δ γ
  notes : List (Note γ)
  result : α

namespace Effect

def noting {α : Type} (notes : List (Note γ)) (effect : Effect δ γ α) : Effect δ γ α :=
  { effect with notes := notes ++ effect.notes }

@[simp] theorem work_noting {α : Type} (notes : List (Note γ)) (effect : Effect δ γ α) :
    (effect.noting notes).work = effect.work :=
  rfl

@[simp] theorem notes_noting {α : Type} (notes : List (Note γ)) (effect : Effect δ γ α) :
    (effect.noting notes).notes = notes ++ effect.notes :=
  rfl

@[simp] theorem result_noting {α : Type} (notes : List (Note γ)) (effect : Effect δ γ α) :
    (effect.noting notes).result = effect.result :=
  rfl

end Effect

def Invocation.notes (event : EventId) (invocation : Invocation γ) : List (Note γ) :=
  .ran invocation.handler ::
    (invocation.missing.map fun name => Note.logged (.unhandled name event)).toList ++
    invocation.fired.map (.queued .action)

def runActions (scope : Scope γ) (state : StateId) (actions : ActionList δ γ)
    (work : Work δ γ) : Effect δ γ (Option MachineError) :=
  let performed := actions.run scope work.data
  { work :=
      { work with
        data := performed.data
        queue := work.queue ++ performed.invocations.flatMap Invocation.fired }
    notes := performed.invocations.flatMap (Invocation.notes scope.event)
    result := performed.failure.map (.actionFailure state scope.event) }

namespace Call

def named : PlannedCall δ γ → Call StateId StateId
  | .exit node => .exit node.id
  | .perform transition => .perform transition.source
  | .enter node => .enter node.id

/-- The state that a failure of the call is charged to. -/
def owner : PlannedCall δ γ → StateId
  | .exit node => node.id
  | .perform transition => transition.source
  | .enter node => node.id

/-- The actions that a call runs; a final state has no exit. -/
def actions : PlannedCall δ γ → ActionList δ γ
  | .exit node => if node.isFinal then {} else node.exit
  | .perform transition => transition.actions
  | .enter node => node.entry

end Call

namespace Chart

/-- Makes one call; only an exit that succeeds is remembered. -/
def runCall (chart : Chart δ γ) (scope : Scope γ) (call : PlannedCall δ γ) (work : Work δ γ) :
    Effect δ γ (Option MachineError) :=
  let effect := (runActions scope call.owner call.actions work).noting [.called call.named]
  match effect.result with
  | some error => { effect with result := some error }
  | none =>
    { effect with
      work := { effect.work with memory := chart.rememberCall effect.work.memory call } }

def runCalls (chart : Chart δ γ) (scope : Scope γ) :
    List (PlannedCall δ γ) → Work δ γ → Effect δ γ (Option MachineError)
  | [], work => ⟨work, [], none⟩
  | call :: rest, work =>
    let effect := chart.runCall scope call work
    match effect.result with
    | some error => { effect with result := some error }
    | none => (runCalls chart scope rest effect.work).noting effect.notes

inductive Outcome where
  | rested (leaf : StateId)
  | failed (error : MachineError)
  deriving DecidableEq

/-- Carries a plan out; where it leads matters only if no call fails. -/
def carryOut (chart : Chart δ γ) (scope : Scope γ) (plan : Plan δ γ) (work : Work δ γ) :
    Except Interruption (Effect δ γ Outcome) :=
  let effect := chart.runCalls scope plan.calls work
  match effect.result with
  | some error => .ok { effect with result := .failed error }
  | none => plan.rest.map fun leaf => { effect with result := .rested leaf }

def start (chart : Chart δ γ) (initial : StateId) (event : EventId) (context : γ)
    (work : Work δ γ) : Except Interruption (Effect δ γ Outcome) :=
  chart.carryOut ⟨none, some initial, event, context⟩
    (chart.startPlan work.memory initial) work

def terminate (chart : Chart δ γ) (current : StateId) (event : EventId) (context : γ)
    (work : Work δ γ) : Effect δ γ (Option MachineError) :=
  chart.runCalls ⟨some current, none, event, context⟩ (chart.terminatePlan current) work

/-- Whether coming to rest in a state through a transition ends the composite around it. -/
def finishes (chart : Chart δ γ) (transition : Transition δ γ) (leaf : StateId) :
    Except Interruption Bool :=
  if transition.kind = .internal then
    .ok false
  else
    match chart.forest.node? leaf with
    | none => .error (.unknownState leaf)
    | some node => .ok (node.isFinal && !node.isRoot)

/-- Offers an event to the current state and its ancestors; none if no transition takes it. -/
def fire (chart : Chart δ γ) (current : StateId) (finishEvent : EventId)
    (occurrence : Occurrence γ) (work : Work δ γ) :
    Except Interruption (Option (Effect δ γ Outcome)) :=
  match chart.select? current occurrence with
  | none => .ok none
  | some transition => do
    let scope : Scope γ :=
      ⟨some current, some transition.target, occurrence.event, occurrence.context⟩
    let effect ←
      chart.carryOut scope (chart.transitionPlan work.memory current transition) work
    match effect.result with
    | .failed _ => return some effect
    | .rested leaf =>
      if ← chart.finishes transition leaf then
        let finish : Occurrence γ := ⟨finishEvent, occurrence.context⟩
        return some
          { effect with
            work := { effect.work with queue := effect.work.queue ++ [finish] }
            notes := effect.notes ++ [.queued .machine finish] }
      else
        return some effect

end Chart

end Statechart
