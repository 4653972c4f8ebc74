import Statechart.Proofs.Chart.WellFormed
import Statechart.Proofs.Hierarchy.Change
import Statechart.Run.Effect

namespace Statechart

variable {δ γ : Type}

inductive Note.OfCalls : Note γ → Prop where
  | called (call : Call StateId StateId) : OfCalls (.called call)
  | ran (handler : HandlerKey) : OfCalls (.ran handler)
  | warned (name : String) (event : EventId) : OfCalls (.logged (.unhandled name event))
  | fired (occurrence : Occurrence γ) : OfCalls (.queued .action occurrence)

namespace Invocation

variable (invocation : Invocation γ) (event : EventId)

@[simp] theorem calls_notes : Note.calls (invocation.notes event) = [] := by
  unfold notes
  cases invocation.missing <;> simp [Note.calls]

@[simp] theorem notifications_notes : Note.notifications (invocation.notes event) = [] := by
  unfold notes
  cases invocation.missing <;> simp [Note.notifications]

@[simp] theorem occurrences_notes :
    Note.occurrences (invocation.notes event) = invocation.fired := by
  unfold notes
  cases invocation.missing <;> simp [Note.occurrences, List.filterMap_map]

theorem ofCalls_notes : ∀ note ∈ invocation.notes event, note.OfCalls := by
  refine List.forall_mem_append.mpr ⟨List.forall_mem_cons.mpr ⟨.ran _, ?_⟩, ?_⟩
  · intro note member
    obtain ⟨name, -, rfl⟩ := Option.map_eq_some_iff.mp (Option.mem_toList.mp member)
    exact .warned name event
  · intro note member
    obtain ⟨occurrence, -, rfl⟩ := List.mem_map.mp member
    exact .fired occurrence

end Invocation

/-- The queue grows by what is put on it, and nothing is told. -/
structure Effect.Accounted {α : Type} (work : Work δ γ) (effect : Effect δ γ α) : Prop where
  queue_eq : effect.work.queue = work.queue ++ Note.occurrences effect.notes
  quiet : Note.notifications effect.notes = []

section

variable (scope : Scope γ) (state : StateId) (actions : ActionList δ γ) (work : Work δ γ)

theorem calls_runActions : Note.calls (runActions scope state actions work).notes = [] := by
  simp only [runActions, Note.calls, List.filterMap_flatMap]
  exact List.flatMap_eq_nil_iff.mpr fun invocation _ => invocation.calls_notes scope.event

theorem accounted_runActions : (runActions scope state actions work).Accounted work := by
  constructor
  · simp only [runActions, Note.occurrences, List.filterMap_flatMap]
    congr 2
    funext invocation
    exact (invocation.occurrences_notes scope.event).symm
  · simp only [runActions, Note.notifications, List.filterMap_flatMap]
    exact List.flatMap_eq_nil_iff.mpr fun invocation _ => invocation.notifications_notes scope.event

theorem ofCalls_runActions :
    ∀ note ∈ (runActions scope state actions work).notes, note.OfCalls := by
  intro note member
  obtain ⟨invocation, _, member⟩ := List.mem_flatMap.mp member
  exact invocation.ofCalls_notes scope.event note member

end

namespace Chart

variable (chart : Chart δ γ) (scope : Scope γ)

section

variable (call : PlannedCall δ γ) (work : Work δ γ)

theorem notes_runCall : (chart.runCall scope call work).notes =
    .called call.named :: (runActions scope call.owner call.actions work).notes := by
  unfold runCall
  dsimp only
  split <;> rfl

theorem result_runCall : (chart.runCall scope call work).result =
    (runActions scope call.owner call.actions work).result := by
  unfold runCall
  dsimp only
  split
  · next failed => exact failed.symm
  · rfl

theorem calls_runCall : Note.calls (chart.runCall scope call work).notes = [call.named] := by
  have none := calls_runActions scope call.owner call.actions work
  rw [notes_runCall]
  exact congrArg (List.cons call.named) none

theorem accounted_runCall : (chart.runCall scope call work).Accounted work := by
  have actions := accounted_runActions scope call.owner call.actions work
  constructor
  · have queueEq : (chart.runCall scope call work).work.queue =
        (runActions scope call.owner call.actions work).work.queue := by
      unfold runCall
      dsimp only
      split <;> rfl
    rw [queueEq, actions.queue_eq, notes_runCall]
    rfl
  · rw [notes_runCall]
    exact actions.quiet

theorem ofCalls_runCall : ∀ note ∈ (chart.runCall scope call work).notes, note.OfCalls := by
  rw [notes_runCall]
  exact List.forall_mem_cons.mpr ⟨.called _, ofCalls_runActions _ _ _ _⟩

variable {chart scope} in
theorem memory_runCall (succeeds : (chart.runCall scope call work).result = none) :
    (chart.runCall scope call work).work.memory = chart.rememberCall work.memory call := by
  rw [result_runCall] at succeeds
  unfold runCall
  simp only [Effect.result_noting, succeeds]
  rfl

end

section

variable {chart scope}

theorem runCalls_cons_of_error {call : PlannedCall δ γ} {calls : List (PlannedCall δ γ)}
    {work : Work δ γ} {error : MachineError}
    (failed : (chart.runCall scope call work).result = some error) :
    chart.runCalls scope (call :: calls) work = chart.runCall scope call work := by
  simp only [runCalls, failed]
  rw [← failed]

theorem runCalls_cons_of_none {call : PlannedCall δ γ} {calls : List (PlannedCall δ γ)}
    {work : Work δ γ} (succeeds : (chart.runCall scope call work).result = none) :
    chart.runCalls scope (call :: calls) work =
      (chart.runCalls scope calls (chart.runCall scope call work).work).noting
        (chart.runCall scope call work).notes := by
  simp only [runCalls, succeeds]

end

theorem accounted_runCalls (calls : List (PlannedCall δ γ)) (work : Work δ γ) :
    (chart.runCalls scope calls work).Accounted work := by
  induction calls generalizing work with
  | nil => exact ⟨(List.append_nil _).symm, rfl⟩
  | cons call calls ih =>
      have first := accounted_runCall chart scope call work
      cases result : (chart.runCall scope call work).result with
      | some error =>
          rw [runCalls_cons_of_error result]
          exact first
      | none =>
          have rest := ih (chart.runCall scope call work).work
          rw [runCalls_cons_of_none result]
          constructor
          · rw [Effect.work_noting, rest.queue_eq, first.queue_eq, Effect.notes_noting,
              Note.occurrences_append, List.append_assoc]
          · rw [Effect.notes_noting, Note.notifications_append, first.quiet, rest.quiet]
            rfl

theorem ofCalls_runCalls (calls : List (PlannedCall δ γ)) (work : Work δ γ) :
    ∀ note ∈ (chart.runCalls scope calls work).notes, note.OfCalls := by
  induction calls generalizing work with
  | nil => exact fun _ member => absurd member List.not_mem_nil
  | cons call calls ih =>
      have first := ofCalls_runCall chart scope call work
      cases result : (chart.runCall scope call work).result with
      | some error =>
          rw [runCalls_cons_of_error result]
          exact first
      | none =>
          rw [runCalls_cons_of_none result, Effect.notes_noting]
          exact List.forall_mem_append.mpr ⟨first, ih _⟩

/-- Calls are made in order, and all of them unless one fails. -/
theorem calls_runCalls (calls : List (PlannedCall δ γ)) (work : Work δ γ) :
    ∃ made left, calls = made ++ left ∧
      Note.calls (chart.runCalls scope calls work).notes = made.map Call.named ∧
      ((chart.runCalls scope calls work).result = none → left = []) := by
  induction calls generalizing work with
  | nil => exact ⟨[], [], rfl, rfl, fun _ => rfl⟩
  | cons call calls ih =>
      cases result : (chart.runCall scope call work).result with
      | some error =>
          refine ⟨[call], calls, rfl, ?_, ?_⟩
          · rw [runCalls_cons_of_error result, calls_runCall]
            rfl
          · rw [runCalls_cons_of_error result, result]
            intro none
            contradiction
      | none =>
          obtain ⟨made, left, split, callsEq, complete⟩ := ih (chart.runCall scope call work).work
          refine ⟨call :: made, left, by rw [split, List.cons_append], ?_, ?_⟩
          · rw [runCalls_cons_of_none result, Effect.notes_noting, Note.calls_append,
              calls_runCall, callsEq]
            rfl
          · rw [runCalls_cons_of_none result]
            exact complete

variable {chart scope}

theorem memory_runCalls {calls : List (PlannedCall δ γ)} {work : Work δ γ}
    (succeeds : (chart.runCalls scope calls work).result = none) :
    (chart.runCalls scope calls work).work.memory =
      calls.foldl chart.rememberCall work.memory := by
  induction calls generalizing work with
  | nil => rfl
  | cons call calls ih =>
      cases result : (chart.runCall scope call work).result with
      | some error =>
          rw [runCalls_cons_of_error result, result] at succeeds
          contradiction
      | none =>
          rw [runCalls_cons_of_none result] at succeeds ⊢
          rw [Effect.work_noting, ih succeeds, memory_runCall call work result]
          rfl

variable {plan : Plan δ γ} {work : Work δ γ} {effect : Effect δ γ Outcome}

/-- A plan is carried out by its calls, and fails or comes to rest with them. -/
theorem carryOut_eq_ok (done : chart.carryOut scope plan work = .ok effect) :
    effect.work = (chart.runCalls scope plan.calls work).work ∧
      effect.notes = (chart.runCalls scope plan.calls work).notes ∧
      ((∃ error, effect.result = .failed error ∧
          (chart.runCalls scope plan.calls work).result = some error) ∨
        ∃ leaf, effect.result = .rested leaf ∧ plan.rest = .ok leaf ∧
          (chart.runCalls scope plan.calls work).result = none) := by
  unfold carryOut at done
  dsimp only at done
  split at done
  · next error failed =>
    cases done
    exact ⟨rfl, rfl, Or.inl ⟨error, rfl, failed⟩⟩
  · next succeeds =>
    cases rest : plan.rest with
    | error interruption =>
        rw [rest] at done
        contradiction
    | ok leaf =>
        rw [rest] at done
        cases done
        exact ⟨rfl, rfl, Or.inr ⟨leaf, rfl, rfl, succeeds⟩⟩

theorem carryOut_failed (done : chart.carryOut scope plan work = .ok effect)
    {error : MachineError}
    (failed : effect.result = .failed error) :
    (chart.runCalls scope plan.calls work).result = some error := by
  obtain ⟨_, _, ⟨own, failed', broken⟩ | ⟨leaf, rested, _⟩⟩ := carryOut_eq_ok done
  · cases failed.symm.trans failed'
    exact broken
  · rw [failed] at rested
    contradiction

theorem carryOut_succeeds (done : chart.carryOut scope plan work = .ok effect) {leaf : StateId}
    (rested : effect.result = .rested leaf) :
    (chart.runCalls scope plan.calls work).result = none := by
  obtain ⟨_, _, ⟨error, failed, _⟩ | ⟨_, _, _, succeeds⟩⟩ := carryOut_eq_ok done
  · rw [failed] at rested
    contradiction
  · exact succeeds

theorem exists_carryOut (scope : Scope γ) (work : Work δ γ) {leaf : StateId}
    (rests : plan.rest = .ok leaf) : ∃ effect, chart.carryOut scope plan work = .ok effect := by
  unfold carryOut
  dsimp only
  split
  · exact ⟨_, rfl⟩
  · rw [rests]
    exact ⟨_, rfl⟩

theorem accounted_carryOut (done : chart.carryOut scope plan work = .ok effect) :
    effect.Accounted work := by
  obtain ⟨workEq, notesEq, _⟩ := carryOut_eq_ok done
  have calls := accounted_runCalls chart scope plan.calls work
  constructor
  · rw [workEq, notesEq]
    exact calls.queue_eq
  · rw [notesEq]
    exact calls.quiet

theorem ofCalls_carryOut (done : chart.carryOut scope plan work = .ok effect) :
    ∀ note ∈ effect.notes, note.OfCalls := by
  rw [(carryOut_eq_ok done).2.1]
  exact ofCalls_runCalls chart scope plan.calls work

theorem accounted_terminate (chart : Chart δ γ) (current : StateId) (event : EventId) (context : γ)
    (work : Work δ γ) : (chart.terminate current event context work).Accounted work :=
  accounted_runCalls chart _ _ work

theorem calls_carryOut (done : chart.carryOut scope plan work = .ok effect) :
    ∃ made left, plan.calls = made ++ left ∧
      Note.calls effect.notes = made.map Call.named ∧
      ∀ leaf, effect.result = .rested leaf →
        left = [] ∧ plan.rest = .ok leaf ∧
          effect.work.memory = plan.calls.foldl chart.rememberCall work.memory := by
  obtain ⟨workEq, notesEq, ending⟩ := carryOut_eq_ok done
  obtain ⟨made, left, split, callsEq, complete⟩ :=
    calls_runCalls chart scope plan.calls work
  refine ⟨made, left, split, by rw [notesEq, callsEq], fun leaf rested => ?_⟩
  rcases ending with ⟨error, failed, _⟩ | ⟨leaf', rested', rests, succeeds⟩
  · rw [failed] at rested
    contradiction
  · rw [rested'] at rested
    cases rested
    exact ⟨complete succeeds, rests, by rw [workEq, memory_runCalls succeeds]⟩

theorem carryOut_rested (done : chart.carryOut scope plan work = .ok effect) {leaf : StateId}
    (rested : effect.result = .rested leaf) :
    plan.rest = .ok leaf ∧ Note.calls effect.notes = plan.calls.map Call.named ∧
      effect.work.memory = plan.calls.foldl chart.rememberCall work.memory := by
  obtain ⟨made, left, split, callsEq, complete⟩ := calls_carryOut done
  obtain ⟨rfl, rests, memoryEq⟩ := complete leaf rested
  rw [List.append_nil] at split
  exact ⟨rests, by rw [callsEq, split], memoryEq⟩

variable {current : StateId} {finishEvent : EventId} {occurrence : Occurrence γ}

def scopeOf (current : StateId) (transition : Transition δ γ) (occurrence : Occurrence γ) :
    Scope γ :=
  ⟨some current, some transition.target, occurrence.event, occurrence.context⟩

/-- What firing gives once the selected transition has been carried out. -/
inductive Concluded (chart : Chart δ γ) (transition : Transition δ γ) (finish : Occurrence γ)
    (carried : Effect δ γ Outcome) : Effect δ γ Outcome → Prop where
  | failed {error : MachineError} (failed : carried.result = .failed error) :
      Concluded chart transition finish carried carried
  | finished {leaf : StateId} (rested : carried.result = .rested leaf)
      (finishes : chart.finishes transition leaf = .ok true) :
      Concluded chart transition finish carried
        { carried with
          work := { carried.work with queue := carried.work.queue ++ [finish] }
          notes := carried.notes ++ [.queued .machine finish] }
  | rested {leaf : StateId} (rested : carried.result = .rested leaf)
      (goesOn : chart.finishes transition leaf = .ok false) :
      Concluded chart transition finish carried carried

theorem concluded_of_fire
    (fired : chart.fire current finishEvent occurrence work = .ok (some effect)) :
    ∃ transition carried,
      chart.select? current occurrence = some transition ∧
      chart.carryOut (scopeOf current transition occurrence)
        (chart.transitionPlan work.memory current transition) work = .ok carried ∧
      chart.Concluded transition ⟨finishEvent, occurrence.context⟩ carried effect := by
  unfold fire at fired
  split at fired
  · cases fired
  · next transition selected =>
    obtain ⟨carried, carriedEq, fired⟩ := bind_eq_ok_iff.mp fired
    refine ⟨transition, carried, selected, carriedEq, ?_⟩
    split at fired
    · next failed =>
      cases fired
      exact .failed failed
    · next leaf rested =>
      obtain ⟨finishes, finishesEq, fired⟩ := bind_eq_ok_iff.mp fired
      cases finishes with
      | true =>
          cases fired
          exact .finished rested finishesEq
      | false =>
          cases fired
          exact .rested rested finishesEq

/--
An event is handled by carrying out the plan of the selected transition; a finish event may be put
on the queue at the end.
-/
theorem fire_eq_ok_some
    (fired : chart.fire current finishEvent occurrence work = .ok (some effect)) :
    ∃ transition carried finish,
      chart.select? current occurrence = some transition ∧
      chart.carryOut (scopeOf current transition occurrence)
        (chart.transitionPlan work.memory current transition) work = .ok carried ∧
      effect.result = carried.result ∧
      effect.work = { carried.work with queue := carried.work.queue ++ finish } ∧
      effect.notes = carried.notes ++ finish.map (.queued .machine) := by
  obtain ⟨transition, carried, selected, carriedEq, concluded⟩ := concluded_of_fire fired
  refine ⟨transition, carried, ?_⟩
  cases concluded with
  | failed _ => exact ⟨[], selected, carriedEq, rfl, by simp, by simp⟩
  | finished _ _ => exact ⟨[_], selected, carriedEq, rfl, rfl, rfl⟩
  | rested _ _ => exact ⟨[], selected, carriedEq, rfl, by simp, by simp⟩

@[simp] theorem calls_queued (sender : Sender) (occurrences : List (Occurrence γ)) :
    Note.calls (occurrences.map (Note.queued sender)) = [] := by
  simp [Note.calls, List.filterMap_map]

theorem fire_rested (fired : chart.fire current finishEvent occurrence work = .ok (some effect))
    {leaf : StateId} (rested : effect.result = .rested leaf) :
    ∃ transition, chart.select? current occurrence = some transition ∧
      (chart.transitionPlan work.memory current transition).rest = .ok leaf ∧
      Note.calls effect.notes =
        (chart.transitionPlan work.memory current transition).calls.map Call.named ∧
      effect.work.memory = (chart.transitionPlan work.memory current transition).calls.foldl
        chart.rememberCall work.memory := by
  obtain ⟨transition, carried, finish, selected, carriedEq, resultEq, workEq, notesEq⟩ :=
    fire_eq_ok_some fired
  obtain ⟨rests, callsEq, memoryEq⟩ := carryOut_rested carriedEq (resultEq ▸ rested)
  refine ⟨transition, selected, rests, ?_, ?_⟩
  · rw [notesEq, Note.calls_append, calls_queued, List.append_nil, callsEq]
  · rw [workEq, memoryEq]

theorem fire_eq_ok_none (fired : chart.fire current finishEvent occurrence work = .ok none) :
    chart.select? current occurrence = none := by
  unfold fire at fired
  split at fired
  · next unselected => exact unselected
  · next transition selected =>
    obtain ⟨carried, _, fired⟩ := bind_eq_ok_iff.mp fired
    split at fired
    · cases fired
    · obtain ⟨finishes, _, fired⟩ := bind_eq_ok_iff.mp fired
      split at fired <;> cases fired

theorem accounted_fire
    (fired : chart.fire current finishEvent occurrence work = .ok (some effect)) :
    effect.Accounted work := by
  obtain ⟨transition, carried, finish, _, carriedEq, _, workEq, notesEq⟩ := fire_eq_ok_some fired
  have accounted := accounted_carryOut carriedEq
  constructor
  · rw [workEq, notesEq, accounted.queue_eq, Note.occurrences_append, List.append_assoc]
    simp [Note.occurrences, List.filterMap_map]
  · rw [notesEq, Note.notifications_append, accounted.quiet]
    simp [Note.notifications, List.filterMap_map]

end Chart

end Statechart
