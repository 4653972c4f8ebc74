import Statechart.Proofs.Behavior.Performed
import Statechart.Proofs.Run.Step

namespace Statechart

variable {δ γ : Type}

def Note.handlers (notes : List (Note γ)) : List HandlerKey :=
  notes.filterMap fun
    | .ran handler => some handler
    | _ => none

@[simp] theorem Note.handlers_append (notes later : List (Note γ)) :
    handlers (notes ++ later) = handlers notes ++ handlers later :=
  List.filterMap_append

theorem Invocation.handlers_notes (event : EventId) (invocation : Invocation γ) :
    Note.handlers (invocation.notes event) = [invocation.handler] := by
  unfold notes
  cases invocation.missing <;> simp [Note.handlers, List.filterMap_map]

theorem handlers_runActions (scope : Scope γ) (state : StateId) (actions : ActionList δ γ)
    (work : Work δ γ) :
    Note.handlers (runActions scope state actions work).notes =
      (actions.run scope work.data).invocations.map Invocation.handler := by
  simp only [runActions, Note.handlers, List.filterMap_flatMap]
  rw [List.map_eq_flatMap]
  congr 1
  funext invocation
  exact invocation.handlers_notes scope.event

namespace Chart

variable {chart : Chart δ γ} {scope : Scope γ} {call : PlannedCall δ γ}
  {calls left : List (PlannedCall δ γ)} {work : Work δ γ} {error : MachineError}

theorem handlers_runCall (chart : Chart δ γ) (scope : Scope γ) (call : PlannedCall δ γ)
    (work : Work δ γ) :
    Note.handlers (chart.runCall scope call work).notes =
      (call.actions.run scope work.data).invocations.map Invocation.handler := by
  rw [notes_runCall]
  exact handlers_runActions scope call.owner call.actions work

theorem result_runCall_eq (chart : Chart δ γ) (scope : Scope γ) (call : PlannedCall δ γ)
    (work : Work δ γ) :
    (chart.runCall scope call work).result =
      (call.actions.run scope work.data).failure.map (.actionFailure call.owner scope.event) :=
  result_runCall chart scope call work

theorem runCalls_append (succeeds : (chart.runCalls scope calls work).result = none) :
    chart.runCalls scope (calls ++ left) work =
      (chart.runCalls scope left (chart.runCalls scope calls work).work).noting
        (chart.runCalls scope calls work).notes := by
  induction calls generalizing work with
  | nil => rfl
  | cons call calls ih =>
      cases result : (chart.runCall scope call work).result with
      | some error =>
          rw [runCalls_cons_of_error result, result] at succeeds
          contradiction
      | none =>
          rw [runCalls_cons_of_none result] at succeeds
          rw [List.cons_append, runCalls_cons_of_none result, runCalls_cons_of_none result,
            ih succeeds]
          simp [Effect.noting, List.append_assoc]

theorem handlers_runCalls (succeeds : (chart.runCalls scope calls work).result = none) :
    Note.handlers (chart.runCalls scope calls work).notes =
      calls.flatMap fun call => call.actions.slots.map Slot.key := by
  induction calls generalizing work with
  | nil => rfl
  | cons call calls ih =>
      cases result : (chart.runCall scope call work).result with
      | some error =>
          rw [runCalls_cons_of_error result, result] at succeeds
          contradiction
      | none =>
          rw [runCalls_cons_of_none result] at succeeds ⊢
          rw [result_runCall_eq, Option.map_eq_none_iff] at result
          rw [Effect.notes_noting, Note.handlers_append, ih succeeds, handlers_runCall,
            List.flatMap_cons]
          congr 1
          exact ActionList.handlers_runSlots result

theorem exists_failing_call (failed : (chart.runCalls scope calls work).result = some error) :
    ∃ made call left, calls = made ++ call :: left ∧
      (chart.runCalls scope made work).result = none ∧
      (chart.runCall scope call (chart.runCalls scope made work).work).result = some error := by
  induction calls generalizing work with
  | nil => contradiction
  | cons call calls ih =>
      cases result : (chart.runCall scope call work).result with
      | some own =>
          rw [runCalls_cons_of_error result, result] at failed
          cases failed
          exact ⟨[], call, calls, rfl, rfl, result⟩
      | none =>
          rw [runCalls_cons_of_none result] at failed
          obtain ⟨made, failing, left, rfl, succeeds, fails⟩ := ih failed
          refine ⟨call :: made, failing, left, rfl, ?_, ?_⟩
          · rw [runCalls_cons_of_none result]
            exact succeeds
          · rw [runCalls_cons_of_none result]
            exact fails

end Chart

/-- Calls that a machine sets out to make, with what their actions see and work on. -/
structure Errand (δ γ : Type) where
  scope : Scope γ
  calls : List (PlannedCall δ γ)
  work : Work δ γ

/-- An action that fails, and what was done before it. -/
structure Failure (δ γ : Type) where
  made : List (PlannedCall δ γ)
  call : PlannedCall δ γ
  ran : List (Slot δ γ)
  slot : Slot δ γ
  reason : String

namespace Failure

def handlers (failure : Failure δ γ) : List HandlerKey :=
  (failure.made.flatMap fun call => call.actions.slots.map Slot.key) ++
    (failure.ran ++ [failure.slot]).map Slot.key

def error (failure : Failure δ γ) (event : EventId) : MachineError :=
  .actionFailure failure.call.owner event failure.reason

end Failure

namespace Chart

/-- What a machine in a state sets out to do for a transition. -/
def transitionErrand (chart : Chart δ γ) (current : StateId) (transition : Transition δ γ)
    (occurrence : Occurrence γ) (work : Work δ γ) : Errand δ γ where
  scope := scopeOf current transition occurrence
  calls := (chart.transitionPlan work.memory current transition).calls
  work := work

def workBefore (chart : Chart δ γ) (errand : Errand δ γ) (made : List (PlannedCall δ γ)) :
    Work δ γ :=
  (chart.runCalls errand.scope made errand.work).work

/-- The first action that fails on an errand. -/
structure FailsAt (chart : Chart δ γ) (errand : Errand δ γ) (failure : Failure δ γ) : Prop where
  calls_eq : ∃ left, errand.calls = failure.made ++ failure.call :: left
  made_succeed : (chart.runCalls errand.scope failure.made errand.work).result = none
  slots_eq : ∃ after, failure.call.actions.slots = failure.ran ++ failure.slot :: after
  ran_succeed : (ActionList.runSlots errand.scope failure.ran
    (chart.workBefore errand failure.made).data).failure = none
  fails : (failure.slot.handler.body errand.scope (ActionList.runSlots errand.scope failure.ran
    (chart.workBefore errand failure.made).data).data).failure = some failure.reason

variable {chart : Chart δ γ} {errand : Errand δ γ} {failure : Failure δ γ} {error : MachineError}

theorem exists_failsAt
    (failed : (chart.runCalls errand.scope errand.calls errand.work).result = some error) :
    ∃ failure, chart.FailsAt errand failure := by
  obtain ⟨made, call, left, callsEq, succeeds, fails⟩ := exists_failing_call failed
  rw [result_runCall_eq] at fails
  obtain ⟨reason, failing, _⟩ := Option.map_eq_some_iff.mp fails
  obtain ⟨ran, slot, after, slotsEq, ranSucceed, slotFails⟩ :=
    ActionList.exists_failing_slot failing
  exact ⟨⟨made, call, ran, slot, reason⟩, ⟨left, callsEq⟩, succeeds, ⟨after, slotsEq⟩, ranSucceed,
    slotFails⟩

/-- The failing action is the last one to run, and decides what is reported. -/
theorem FailsAt.outcome (failsAt : chart.FailsAt errand failure) :
    (chart.runCalls errand.scope errand.calls errand.work).result =
        some (failure.error errand.scope.event) ∧
      Note.handlers (chart.runCalls errand.scope errand.calls errand.work).notes =
        failure.handlers := by
  obtain ⟨left, callsEq⟩ := failsAt.calls_eq
  obtain ⟨after, slotsEq⟩ := failsAt.slots_eq
  obtain ⟨failed, handlersEq⟩ :=
    ActionList.runSlots_of_fails after failsAt.ran_succeed failsAt.fails
  rw [← slotsEq] at failed handlersEq
  have result : (chart.runCall errand.scope failure.call
      (chart.workBefore errand failure.made)).result = some (failure.error errand.scope.event) := by
    rw [result_runCall_eq, ActionList.run, failed]
    rfl
  rw [callsEq, runCalls_append failsAt.made_succeed]
  rw [workBefore] at result
  rw [runCalls_cons_of_error result, Effect.result_noting, Effect.notes_noting]
  refine ⟨result, ?_⟩
  rw [Note.handlers_append, handlers_runCalls failsAt.made_succeed, handlers_runCall]
  exact congrArg (List.append _) handlersEq

theorem result_eq_none_iff :
    (chart.runCalls errand.scope errand.calls errand.work).result = none ↔
      ∀ failure, ¬chart.FailsAt errand failure := by
  constructor
  · intro succeeds failure failsAt
    rw [failsAt.outcome.1] at succeeds
    contradiction
  · intro unfailing
    cases result : (chart.runCalls errand.scope errand.calls errand.work).result with
    | none => rfl
    | some error =>
        obtain ⟨failure, failsAt⟩ := exists_failsAt result
        exact absurd failsAt (unfailing failure)

end Chart

end Statechart
