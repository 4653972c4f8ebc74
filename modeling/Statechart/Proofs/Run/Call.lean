import Statechart.Proofs.Hierarchy.Change
import Statechart.Run.Request

namespace Statechart

namespace Machine

variable {δ γ : Type} {machine next : Machine δ γ} {notes : List (Note γ)} {context : γ}
  {limit : Nat} {response : Response δ γ} {occurrence : Occurrence γ}

inductive Drained (limit : Nat) (machine : Machine δ γ) (context : γ) :
    Machine δ γ → List (Note γ) → Prop where
  | ignored (status : machine.status ≠ .idle) : Drained limit machine context machine []
  | failed {drained : Machine δ γ} {notes : List (Note γ)} {last : γ}
      (status : machine.status = .idle)
      (processed : processAll limit { machine with status := .busy } context =
        .ok (drained, notes, last))
      (failed : drained.status = .error) : Drained limit machine context drained notes
  | finished {drained : Machine δ γ} {notes : List (Note γ)} {last : γ}
      (status : machine.status = .idle)
      (processed : processAll limit { machine with status := .busy } context =
        .ok (drained, notes, last))
      (going : drained.status ≠ .error) (automatic : drained.options.autoTerminate = true)
      (finished : drained.isFinished = .ok true) :
      Drained limit machine context (drained.shutdown last).1
        (notes ++ (drained.shutdown last).2)
  | rested {drained : Machine δ γ} {notes : List (Note γ)} {last : γ}
      (status : machine.status = .idle)
      (processed : processAll limit { machine with status := .busy } context =
        .ok (drained, notes, last))
      (going : drained.status ≠ .error)
      (unfinished : drained.options.autoTerminate = true → drained.isFinished = .ok false) :
      Drained limit machine context { drained with status := .idle } notes

theorem drained_of_drain (done : drain limit machine context = .ok (next, notes)) :
    Drained limit machine context next notes := by
  unfold drain at done
  split at done
  · next status =>
    obtain ⟨⟨drained, first, last⟩, processed, done⟩ := bind_eq_ok_iff.mp done
    dsimp only at done
    split at done
    · next failed =>
      cases done
      exact .failed status processed failed
    · next going =>
      split at done
      · next automatic =>
        obtain ⟨finished, finishedEq, done⟩ := bind_eq_ok_iff.mp done
        cases finished with
        | true =>
            cases done
            exact .finished status processed going automatic finishedEq
        | false =>
            cases done
            exact .rested status processed going fun _ => finishedEq
      · next manual =>
        obtain ⟨_, finishedEq, done⟩ := bind_eq_ok_iff.mp done
        cases finishedEq
        cases done
        exact .rested status processed going fun automatic => absurd automatic manual
  · next status =>
    cases done
    exact .ignored status

/-- The initial configuration has been entered, or an action failed meanwhile. -/
inductive Launched (limit : Nat) (machine : Machine δ γ) (context : γ) :
    Machine δ γ → List (Note γ) → Prop where
  | rested {effect : Effect δ γ Chart.Outcome} {leaf : StateId} {next : Machine δ γ}
      {later : List (Note γ)}
      (started : machine.chart.start machine.current machine.options.startEvent context
        machine.toWork = .ok effect)
      (rested : effect.result = .rested leaf)
      (drained : drain limit
        { machine with toWork := effect.work, current := leaf, status := .idle } context =
          .ok (next, later)) :
      Launched limit machine context next
        (effect.notes ++ [.logged (.started leaf), .notified (.started leaf context)] ++ later)
  | failed {effect : Effect δ γ Chart.Outcome} {error : MachineError}
      (started : machine.chart.start machine.current machine.options.startEvent context
        machine.toWork = .ok effect)
      (failed : effect.result = .failed error) :
      Launched limit machine context
        (fail { machine with toWork := effect.work } error machine.options.startEvent context).1
        (effect.notes ++ (fail { machine with toWork := effect.work } error
          machine.options.startEvent context).2)

theorem launched_of_launch (done : launch limit machine context = .ok (next, notes)) :
    Launched limit machine context next notes := by
  obtain ⟨effect, started, done⟩ := bind_eq_ok_iff.mp done
  cases result : effect.result with
  | rested leaf =>
      simp only [result] at done
      obtain ⟨⟨drained, later⟩, drainedEq, done⟩ := bind_eq_ok_iff.mp done
      cases done
      exact .rested started result drainedEq
  | failed error =>
      simp only [result] at done
      cases done
      exact .failed started result

inductive Enqueued (limit : Nat) (machine : Machine δ γ) (occurrence : Occurrence γ) :
    Response δ γ → Prop where
  | refused (ended : machine.status.isTerminal = true) :
      Enqueued limit machine occurrence
        ⟨machine, [], .error (.invalidStatus machine.status .fire)⟩
  | taken {next : Machine δ γ} {notes : List (Note γ)} (live : ¬machine.status.isTerminal = true)
      (drained : drain limit { machine with queue := machine.queue ++ [occurrence] }
        occurrence.context = .ok (next, notes)) :
      Enqueued limit machine occurrence ⟨next, .queued .caller occurrence :: notes, .ok ()⟩

theorem enqueued_of_enqueue (done : enqueue limit machine occurrence = .ok response) :
    Enqueued limit machine occurrence response := by
  unfold enqueue at done
  split at done
  · next ended =>
    cases done
    exact .refused ended
  · next live =>
    obtain ⟨⟨drained, later⟩, drainedEq, done⟩ := bind_eq_ok_iff.mp done
    cases done
    exact .taken live drainedEq

inductive Started (limit : Nat) (machine : Machine δ γ) (context : γ) : Response δ γ → Prop where
  | launched {next : Machine δ γ} {notes : List (Note γ)} (status : machine.status = .initialized)
      (launched : launch limit machine context = .ok (next, notes)) :
      Started limit machine context ⟨next, notes, .ok ()⟩
  | running (status : machine.status = .idle ∨ machine.status = .busy) :
      Started limit machine context ⟨machine, [], .ok ()⟩
  | refused (ended : machine.status.isTerminal = true) :
      Started limit machine context
        ⟨machine, [], .error (.invalidStatus machine.status .start)⟩

theorem started_of_start (done : start limit machine context = .ok response) :
    Started limit machine context response := by
  unfold start at done
  cases status : machine.status with
  | initialized =>
      rw [status] at done
      obtain ⟨⟨launched, later⟩, launchedEq, done⟩ := bind_eq_ok_iff.mp done
      cases done
      exact .launched status launchedEq
  | idle =>
      rw [status] at done
      cases done
      exact .running (Or.inl status)
  | busy =>
      rw [status] at done
      cases done
      exact .running (Or.inr status)
  | terminated =>
      rw [status] at done
      cases done
      rw [← status]
      exact .refused (by rw [status]; rfl)
  | error =>
      rw [status] at done
      cases done
      rw [← status]
      exact .refused (by rw [status]; rfl)

inductive Fired (limit : Nat) (machine : Machine δ γ) (event : EventId) (context : γ) :
    Response δ γ → Prop where
  | launched {launched : Machine δ γ} {first : List (Note γ)} {response : Response δ γ}
      (status : machine.status = .initialized) (automatic : machine.options.autoStart = true)
      (launchedEq : launch limit machine context = .ok (launched, first))
      (enqueued : enqueue limit launched ⟨event, context⟩ = .ok response) :
      Fired limit machine event context { response with notes := first ++ response.notes }
  | refused (status : machine.status = .initialized) (manual : ¬machine.options.autoStart = true) :
      Fired limit machine event context ⟨machine, [], .error .notRunning⟩
  | running {response : Response δ γ} (status : machine.status ≠ .initialized)
      (enqueued : enqueue limit machine ⟨event, context⟩ = .ok response) :
      Fired limit machine event context response

theorem fired_of_fire {event : EventId} (done : fire limit machine event context = .ok response) :
    Fired limit machine event context response := by
  unfold fire at done
  split at done
  · next status =>
    split at done
    · next automatic =>
      obtain ⟨⟨launched, first⟩, launchedEq, done⟩ := bind_eq_ok_iff.mp done
      obtain ⟨enqueued, enqueuedEq, done⟩ := bind_eq_ok_iff.mp done
      cases done
      exact .launched status automatic launchedEq enqueuedEq
    · next manual =>
      cases done
      exact .refused status manual
  · next status => exact .running status done

end Machine

end Statechart
