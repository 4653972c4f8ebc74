import Statechart.Proofs.Run.Failure
import Statechart.Proofs.Run.Session

namespace Statechart

variable {δ γ : Type}

namespace Chart

variable {chart : Chart δ γ} {work : Work δ γ} {effect : Effect δ γ Outcome}
  {error : MachineError}

theorem fire_failed {current : StateId} {finishEvent : EventId} {occurrence : Occurrence γ}
    (fired : chart.fire current finishEvent occurrence work = .ok (some effect))
    (failed : effect.result = .failed error) :
    ∃ transition, chart.select? current occurrence = some transition ∧
      chart.carryOut (scopeOf current transition occurrence)
        (chart.transitionPlan work.memory current transition) work = .ok effect := by
  obtain ⟨transition, carried, selected, carriedEq, concluded⟩ := concluded_of_fire fired
  cases concluded with
  | failed _ => exact ⟨transition, selected, carriedEq⟩
  | finished rested _ =>
      rw [rested] at failed
      contradiction
  | rested rested _ =>
      rw [rested] at failed
      contradiction

end Chart

namespace Machine

variable {machine next : Machine δ γ} {notes : List (Note γ)} {errand : Errand δ γ}
  {failure : Failure δ γ}

def startErrand (machine : Machine δ γ) (context : γ) : Errand δ γ where
  scope := ⟨none, some machine.current, machine.options.startEvent, context⟩
  calls := (machine.chart.startPlan machine.memory machine.current).calls
  work := machine.toWork

def handleErrand (machine : Machine δ γ) (transition : Transition δ γ)
    (occurrence : Occurrence γ) (queue : List (Occurrence γ)) : Errand δ γ :=
  machine.chart.transitionErrand machine.current transition occurrence { machine.toWork with queue }

def shutdownErrand (machine : Machine δ γ) (context : γ) : Errand δ γ where
  scope := ⟨some machine.current, none, machine.options.terminateEvent, context⟩
  calls := machine.chart.terminatePlan machine.current
  work := machine.toWork

/-- A move in which a machine goes on an errand. -/
inductive Pursues : Errand δ γ → Machine δ γ → List (Note γ) → Machine δ γ → Prop where
  | launch {machine : Machine δ γ} {context : γ} {effect : Effect δ γ Chart.Outcome}
      {leaf : StateId} (status : machine.status = .initialized)
      (started : machine.chart.start machine.current machine.options.startEvent context
        machine.toWork = .ok effect)
      (rested : effect.result = .rested leaf) :
      Pursues (machine.startErrand context) machine
        (effect.notes ++ [.logged (.started leaf), .notified (.started leaf context)])
        (machine.launched effect leaf)
  | collapse {machine : Machine δ γ} {context : γ} {effect : Effect δ γ Chart.Outcome}
      {error : MachineError} (status : machine.status = .initialized)
      (started : machine.chart.start machine.current machine.options.startEvent context
        machine.toWork = .ok effect)
      (failed : effect.result = .failed error) :
      Pursues (machine.startErrand context) machine
        (effect.notes ++ (fail { machine with toWork := effect.work } error
          machine.options.startEvent context).2)
        (fail { machine with toWork := effect.work } error machine.options.startEvent context).1
  | handle {machine next : Machine δ γ} {occurrence : Occurrence γ}
      {queue : List (Occurrence γ)} {notes : List (Note γ)} {transition : Transition δ γ}
      (status : machine.status = .busy) (waiting : machine.queue = occurrence :: queue)
      (selected : machine.chart.select? machine.current occurrence = some transition)
      (processed : process { machine with queue } occurrence = .ok (next, notes)) :
      Pursues (machine.handleErrand transition occurrence queue) machine notes next
  | shutdown {machine : Machine δ γ} {context : γ}
      (status : machine.status = .idle ∨ machine.status = .busy) :
      Pursues (machine.shutdownErrand context) machine (machine.shutdown context).2
        (machine.shutdown context).1

theorem Pursues.move (pursues : Pursues errand machine notes next) : Move machine notes next := by
  cases pursues with
  | launch status started rested => exact .launch status started rested
  | collapse status started failed => exact .collapse status started failed
  | handle status waiting _ processed => exact .handle status waiting processed
  | shutdown status => exact .shutdown status

/-- How the machine has changed, and what has happened, when the calls of an errand have failed. -/
structure Reports (error : MachineError) (effect : Effect δ γ (Option MachineError))
    (machine : Machine δ γ) (notes : List (Note γ)) (next : Machine δ γ) : Prop where
  status_eq : next.status = .error
  lastError_eq : next.lastError = some error
  current_eq : next.current = machine.current
  log_eq : next.log = machine.log
  queue_eq : next.queue = effect.work.queue
  handlers_eq : Note.handlers notes = Note.handlers effect.notes
  occurrences_eq : Note.occurrences notes = Note.occurrences effect.notes

@[simp] theorem handlers_tell (machine : Machine δ γ) (stage : Stage) (origin : StateId)
    (event : EventId) (context : γ) :
    Note.handlers (machine.tell stage origin event context) = [] := by
  unfold tell
  dsimp only
  split <;> split <;> rfl

@[simp] theorem occurrences_tell (machine : Machine δ γ) (stage : Stage) (origin : StateId)
    (event : EventId) (context : γ) :
    Note.occurrences (machine.tell stage origin event context) = [] := by
  unfold tell
  dsimp only
  split <;> split <;> rfl

/-- The calls of an errand all succeed, or the machine reports the failure. -/
theorem Pursues.outcome (pursues : Pursues errand machine notes next) :
    (machine.chart.runCalls errand.scope errand.calls errand.work).result = none ∧
        next.status ≠ .error ∨
      ∃ error, (machine.chart.runCalls errand.scope errand.calls errand.work).result = some error ∧
        Reports error (machine.chart.runCalls errand.scope errand.calls errand.work)
          machine notes next := by
  cases pursues with
  | launch status started rested =>
      exact Or.inl ⟨Chart.carryOut_succeeds started rested, nofun⟩
  | collapse status started failed =>
      obtain ⟨workEq, notesEq, _⟩ := Chart.carryOut_eq_ok started
      refine Or.inr ⟨_, Chart.carryOut_failed started failed, rfl, rfl, rfl, rfl, ?_, ?_, ?_⟩
      · exact congrArg Work.queue workEq
      · rw [Note.handlers_append, fail, handlers_tell, List.append_nil, notesEq]
        rfl
      · rw [Note.occurrences_append, fail, occurrences_tell, List.append_nil, notesEq]
        rfl
  | handle status waiting selected processed =>
      cases handled_of_process processed with
      | declined fired =>
          have unselected := Chart.fire_eq_ok_none fired
          rw [selected] at unselected
          contradiction
      | completed fired rested =>
          obtain ⟨taken, carried, _, selected', carriedEq, resultEq, _, _⟩ :=
            Chart.fire_eq_ok_some fired
          cases selected.symm.trans selected'
          refine Or.inl ⟨Chart.carryOut_succeeds carriedEq (resultEq ▸ rested), ?_⟩
          simp [status]
      | failed fired failed =>
          obtain ⟨taken, selected', carriedEq⟩ := Chart.fire_failed fired failed
          cases selected.symm.trans selected'
          obtain ⟨workEq, notesEq, _⟩ := Chart.carryOut_eq_ok carriedEq
          refine Or.inr ⟨_, Chart.carryOut_failed carriedEq failed, rfl, rfl, rfl, rfl, ?_, ?_, ?_⟩
          · exact congrArg Work.queue workEq
          · simp [tellOf, notesEq]
            rfl
          · simp [tellOf, notesEq]
            rfl
  | @shutdown _ context status =>
      cases result : (machine.chart.terminate machine.current machine.options.terminateEvent context
        machine.toWork).result with
      | none =>
          refine Or.inl ⟨result, ?_⟩
          simp [Machine.shutdown, result]
      | some error =>
          refine Or.inr ⟨error, result, ?_⟩
          simp only [Machine.shutdown, result]
          refine ⟨rfl, rfl, rfl, rfl, rfl, ?_, ?_⟩
          · rw [Note.handlers_append, fail, handlers_tell, List.append_nil]
            rfl
          · rw [Note.occurrences_append, fail, occurrences_tell, List.append_nil]
            rfl

/-- A move in which an action fails, and what it leaves behind. -/
structure Breaks (errand : Errand δ γ) (failure : Failure δ γ) (machine : Machine δ γ)
    (notes : List (Note γ)) (next : Machine δ γ) : Prop where
  pursues : Pursues errand machine notes next
  fails : machine.chart.FailsAt errand failure
  status_eq : next.status = .error
  lastError_eq : next.lastError = some
    (.actionFailure failure.call.owner errand.scope.event failure.reason)
  current_eq : next.current = machine.current
  log_eq : next.log = machine.log
  queue_eq : next.queue = errand.work.queue ++ Note.occurrences notes
  handlers_eq : Note.handlers notes = failure.handlers

theorem Pursues.breaks (pursues : Pursues errand machine notes next)
    (fails : machine.chart.FailsAt errand failure) : Breaks errand failure machine notes next := by
  obtain ⟨result, handlersEq⟩ := fails.outcome
  have accounted := Chart.accounted_runCalls machine.chart errand.scope errand.calls errand.work
  rcases pursues.outcome with ⟨succeeds, _⟩ | ⟨error, failed, reports⟩
  · rw [result] at succeeds
    contradiction
  · cases result.symm.trans failed
    exact {
      pursues, fails
      status_eq := reports.status_eq
      lastError_eq := reports.lastError_eq
      current_eq := reports.current_eq
      log_eq := reports.log_eq
      queue_eq := by rw [reports.queue_eq, accounted.queue_eq, reports.occurrences_eq]
      handlers_eq := reports.handlers_eq.trans handlersEq }

theorem Pursues.exists_breaks (pursues : Pursues errand machine notes next)
    (status : next.status = .error) : ∃ failure, Breaks errand failure machine notes next := by
  rcases pursues.outcome with ⟨_, going⟩ | ⟨error, failed, _⟩
  · contradiction
  · obtain ⟨failure, fails⟩ := Chart.exists_failsAt failed
    exact ⟨failure, pursues.breaks fails⟩

theorem Move.exists_breaks (move : Move machine notes next) (healthy : machine.status ≠ .error)
    (status : next.status = .error) :
    ∃ errand failure, Breaks errand failure machine notes next := by
  have pursued : ∃ errand, Pursues errand machine notes next := by
    cases move with
    | launch _ _ _ => contradiction
    | collapse unstarted started failed => exact ⟨_, .collapse unstarted started failed⟩
    | take _ => contradiction
    | handle busy waiting processed =>
        cases handled_of_process processed with
        | declined _ => exact absurd status healthy
        | completed _ _ => exact absurd status healthy
        | failed fired failed =>
            obtain ⟨transition, selected, _⟩ := Chart.fire_failed fired failed
            exact ⟨_, .handle busy waiting selected processed⟩
    | settle _ _ => contradiction
    | shutdown active => exact ⟨_, .shutdown active⟩
    | abandon _ => contradiction
    | adjust _ _ _ => exact absurd status healthy
  obtain ⟨errand, pursues⟩ := pursued
  obtain ⟨failure, breaks⟩ := pursues.exists_breaks status
  exact ⟨errand, failure, breaks⟩

inductive Faultless : Machine δ γ → List (Note γ) → Machine δ γ → Prop where
  | refl {machine : Machine δ γ} : Faultless machine [] machine
  | step {machine next final : Machine δ γ} {notes later : List (Note γ)}
      (move : Move machine notes next)
      (succeeds : ∀ errand, Pursues errand machine notes next →
        ∀ failure, ¬machine.chart.FailsAt errand failure)
      (rest : Faultless next later final) : Faultless machine (notes ++ later) final

/-- Nothing of what a failure leaves behind has changed. -/
structure Halted (machine next : Machine δ γ) : Prop where
  status_eq : next.status = machine.status
  lastError_eq : next.lastError = machine.lastError
  current_eq : next.current = machine.current
  log_eq : next.log = machine.log
  queue_eq : next.queue = machine.queue
  memory_eq : next.memory = machine.memory

theorem Halted.refl (machine : Machine δ γ) : Halted machine machine :=
  ⟨rfl, rfl, rfl, rfl, rfl, rfl⟩

theorem Halted.trans {middle : Machine δ γ} (first : Halted machine middle)
    (second : Halted middle next) : Halted machine next where
  status_eq := second.status_eq.trans first.status_eq
  lastError_eq := second.lastError_eq.trans first.lastError_eq
  current_eq := second.current_eq.trans first.current_eq
  log_eq := second.log_eq.trans first.log_eq
  queue_eq := second.queue_eq.trans first.queue_eq
  memory_eq := second.memory_eq.trans first.memory_eq

theorem Move.halted (move : Move machine notes next) (status : machine.status = .error) :
    notes = [] ∧ Halted machine next := by
  cases move with
  | adjust options observers data => exact ⟨rfl, rfl, rfl, rfl, rfl, rfl, rfl⟩
  | _ => simp_all

theorem Moves.halted (moves : Moves machine notes next) (status : machine.status = .error) :
    notes = [] ∧ Halted machine next := by
  induction moves with
  | refl => exact ⟨rfl, .refl _⟩
  | step move _ ih =>
      obtain ⟨rfl, halted⟩ := move.halted status
      obtain ⟨rfl, halted'⟩ := ih (halted.status_eq.trans status)
      exact ⟨rfl, halted.trans halted'⟩

namespace Faultless

variable {final : Machine δ γ} {later : List (Note γ)}

theorem of_move (move : Move machine notes next) (status : next.status ≠ .error) :
    Faultless machine notes next := by
  rw [← List.append_nil notes]
  apply Faultless.step move _ .refl
  intro errand pursues failure fails
  exact status (pursues.breaks fails).status_eq

theorem trans (first : Faultless machine notes next) (second : Faultless next later final) :
    Faultless machine (notes ++ later) final := by
  induction first with
  | refl => exact second
  | step move succeeds _ ih =>
      rw [List.append_assoc]
      exact .step move succeeds (ih second)

theorem moves (faultless : Faultless machine notes next) : Moves machine notes next := by
  induction faultless with
  | refl => exact .refl
  | step move _ _ ih => exact .step move ih

theorem status_ne (faultless : Faultless machine notes next) (healthy : machine.status ≠ .error) :
    next.status ≠ .error := by
  induction faultless with
  | refl => exact healthy
  | step move succeeds _ ih =>
      apply ih
      intro failed
      obtain ⟨errand, failure, breaks⟩ := move.exists_breaks healthy failed
      exact succeeds errand breaks.pursues failure breaks.fails

end Faultless

theorem Moves.faultless (moves : Moves machine notes next) (healthy : next.status ≠ .error) :
    Faultless machine notes next := by
  induction moves with
  | refl => exact .refl
  | step move rest ih =>
      apply (Faultless.of_move move _).trans (ih healthy)
      intro failed
      exact healthy ((rest.halted failed).2.status_eq.trans failed)

/-- Moves up to the first failure, which is the last thing that happens. -/
inductive Fails (errand : Errand δ γ) (failure : Failure δ γ) (machine : Machine δ γ) :
    List (Note γ) → Machine δ γ → Prop where
  | of_breaks {middle broken next : Machine δ γ} {first last : List (Note γ)}
      (before : Faultless machine first middle) (breaks : Breaks errand failure middle last broken)
      (halted : Halted broken next) : Fails errand failure machine (first ++ last) next

theorem Moves.fails (moves : Moves machine notes next) (healthy : machine.status ≠ .error)
    (failed : next.status = .error) :
    ∃ errand failure, Fails errand failure machine notes next := by
  induction moves with
  | refl => contradiction
  | @step machine middle final notes later move rest ih =>
      by_cases status : middle.status = .error
      · obtain ⟨errand, failure, breaks⟩ := move.exists_breaks healthy status
        obtain ⟨rfl, halted⟩ := rest.halted status
        rw [List.append_nil]
        exact ⟨errand, failure, .of_breaks .refl breaks halted⟩
      · obtain ⟨errand, failure, before, breaks, halted⟩ := ih status failed
        have first := Faultless.of_move move status
        rw [← List.append_assoc]
        exact ⟨errand, failure, .of_breaks (first.trans before) breaks halted⟩

end Machine

end Statechart
