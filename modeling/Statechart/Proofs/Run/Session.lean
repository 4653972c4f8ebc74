import Statechart.Proofs.Run.Call

/-!
Sessions with a machine.

A session is a list of things done with a machine from outside.  Each of them consists of moves: the
machine is launched, takes an event, handles one, comes to rest, or is shut down.  What every move
keeps holds throughout every session, however many events are processed in it.
-/

namespace Statechart

variable {δ γ : Type}

inductive Act (δ γ : Type) where
  | ask (limit : Nat) (request : Request γ)
  | configure (options : Options)
  | observe
  | alter (data : δ)

namespace Machine

def act (machine : Machine δ γ) : Act δ γ → Except Interruption (Response δ γ)
  | .ask limit request => machine.answer limit request
  | .configure options => .ok ⟨{ machine with options }, [], .ok ()⟩
  | .observe => .ok ⟨machine.observe, [], .ok ()⟩
  | .alter data => .ok ⟨{ machine with data }, [], .ok ()⟩

def run (machine : Machine δ γ) : List (Act δ γ) → Except Interruption (Machine δ γ × List (Note γ))
  | [] => .ok (machine, [])
  | act :: rest => do
    let response ← machine.act act
    let (final, later) ← response.machine.run rest
    return (final, response.notes ++ later)

def launched (machine : Machine δ γ) (effect : Effect δ γ Chart.Outcome) (leaf : StateId) :
    Machine δ γ :=
  { machine with toWork := effect.work, current := leaf, status := .busy }

/-- One move of a machine, with what happens in it. -/
inductive Move : Machine δ γ → List (Note γ) → Machine δ γ → Prop where
  | launch {machine : Machine δ γ} {context : γ} {effect : Effect δ γ Chart.Outcome}
      {leaf : StateId} (status : machine.status = .initialized)
      (started : machine.chart.start machine.current machine.options.startEvent context
        machine.toWork = .ok effect)
      (rested : effect.result = .rested leaf) :
      Move machine
        (effect.notes ++ [.logged (.started leaf), .notified (.started leaf context)])
        (machine.launched effect leaf)
  | collapse {machine : Machine δ γ} {context : γ} {effect : Effect δ γ Chart.Outcome}
      {error : MachineError} (status : machine.status = .initialized)
      (started : machine.chart.start machine.current machine.options.startEvent context
        machine.toWork = .ok effect)
      (failed : effect.result = .failed error) :
      Move machine
        (effect.notes ++ (fail { machine with toWork := effect.work } error
          machine.options.startEvent context).2)
        (fail { machine with toWork := effect.work } error machine.options.startEvent context).1
  | take {machine : Machine δ γ} {occurrence : Occurrence γ}
      (status : machine.status = .idle ∨ machine.status = .busy) :
      Move machine [.queued .caller occurrence]
        { machine with queue := machine.queue ++ [occurrence], status := .busy }
  | handle {machine next : Machine δ γ} {occurrence : Occurrence γ}
      {queue : List (Occurrence γ)} {notes : List (Note γ)} (status : machine.status = .busy)
      (waiting : machine.queue = occurrence :: queue)
      (processed : process { machine with queue } occurrence = .ok (next, notes)) :
      Move machine notes next
  | settle {machine : Machine δ γ} (status : machine.status = .busy)
      (empty : machine.queue = []) : Move machine [] { machine with status := .idle }
  | shutdown {machine : Machine δ γ} {context : γ}
      (status : machine.status = .idle ∨ machine.status = .busy) :
      Move machine (machine.shutdown context).2 (machine.shutdown context).1
  | abandon {machine : Machine δ γ} (status : machine.status = .initialized) :
      Move machine [] { machine with status := .terminated }
  | adjust {machine : Machine δ γ} (options : Options) (observers : Nat) (data : δ) :
      Move machine [] { machine with options, observers, data }

inductive Moves : Machine δ γ → List (Note γ) → Machine δ γ → Prop where
  | refl {machine : Machine δ γ} : Moves machine [] machine
  | step {machine next final : Machine δ γ} {notes later : List (Note γ)}
      (move : Move machine notes next) (rest : Moves next later final) :
      Moves machine (notes ++ later) final

namespace Moves

variable {machine next final : Machine δ γ} {notes later : List (Note γ)}

theorem single (move : Move machine notes next) : Moves machine notes next := by
  rw [← List.append_nil notes]
  exact .step move .refl

theorem trans (first : Moves machine notes next) (second : Moves next later final) :
    Moves machine (notes ++ later) final := by
  induction first with
  | refl => exact second
  | step move _ ih =>
      rw [List.append_assoc]
      exact .step move (ih second)

theorem exists_move {before after : List (Note γ)} {note : Note γ}
    (moves : Moves machine (before ++ note :: after) final) :
    ∃ taken next first inner outer last, Moves machine first taken ∧
      Move taken (inner ++ note :: outer) next ∧ Moves next last final ∧
      before = first ++ inner ∧ after = outer ++ last := by
  generalize split : before ++ note :: after = notes at moves
  induction moves generalizing before with
  | refl => simp at split
  | @step machine next final notes later move rest ih =>
      have later_case {inner : List (Note γ)} (beforeEq : before = notes ++ inner)
          (laterEq : inner ++ note :: after = later) :
          ∃ taken next first inner outer last, Moves machine first taken ∧
            Move taken (inner ++ note :: outer) next ∧ Moves next last final ∧
            before = first ++ inner ∧ after = outer ++ last := by
        obtain ⟨taken, next, first, inner, outer, last, reached, found, rest, rfl, afterEq⟩ :=
          ih laterEq
        exact ⟨taken, next, notes ++ first, inner, outer, last, .step move reached, found, rest,
          by rw [beforeEq, List.append_assoc], afterEq⟩
      rcases List.append_eq_append_iff.mp split with ⟨inner, rfl, tail⟩ | ⟨inner, beforeEq, tail⟩
      · cases inner with
        | nil =>
            have beforeEq : before = before ++ [] ++ [] := by simp
            exact later_case beforeEq (by simpa using tail)
        | cons head outer =>
            obtain ⟨rfl, afterEq⟩ := List.cons.inj tail
            exact ⟨machine, next, [], before, outer, later, .refl, move, rest, rfl, afterEq⟩
      · exact later_case beforeEq tail.symm

end Moves

/-- A condition for each phase a machine goes through.  After a failure there is none. -/
def InPhase (machine : Machine δ γ) (unstarted active ended : Prop) : Prop :=
  match machine.status with
  | .initialized => unstarted
  | .idle | .busy => active
  | .terminated => ended
  | .error => True

section

variable {machine : Machine δ γ} {unstarted active ended : Prop}

theorem inPhase_of_initialized (status : machine.status = .initialized) :
    machine.InPhase unstarted active ended ↔ unstarted := by
  rw [InPhase, status]

theorem inPhase_of_active (status : machine.status = .idle ∨ machine.status = .busy) :
    machine.InPhase unstarted active ended ↔ active := by
  rcases status with idle | busy
  · rw [InPhase, idle]
  · rw [InPhase, busy]

theorem inPhase_of_terminated (status : machine.status = .terminated) :
    machine.InPhase unstarted active ended ↔ ended := by
  rw [InPhase, status]

theorem inPhase_of_error (status : machine.status = .error) :
    machine.InPhase unstarted active ended := by
  rw [InPhase, status]
  trivial

end

def tellOf (machine : Machine δ γ) (occurrence : Occurrence γ) (stage : Stage) : List (Note γ) :=
  machine.tell stage machine.current occurrence.event occurrence.context

variable {machine next : Machine δ γ} {occurrence : Occurrence γ} {notes : List (Note γ)}
  {context : γ}

inductive Handled (machine : Machine δ γ) (occurrence : Occurrence γ) :
    Machine δ γ → List (Note γ) → Prop where
  | declined
      (fired : machine.chart.fire machine.current machine.options.finishEvent occurrence
        machine.toWork = .ok none) :
      Handled machine occurrence machine
        (machine.tellOf occurrence .began ++ machine.tellOf occurrence .declined ++
          machine.tellOf occurrence .ended)
  | completed {effect : Effect δ γ Chart.Outcome} {leaf : StateId}
      (fired : machine.chart.fire machine.current machine.options.finishEvent occurrence
        machine.toWork = .ok (some effect))
      (rested : effect.result = .rested leaf) :
      Handled machine occurrence
        { machine with
          toWork := effect.work
          current := leaf
          log := machine.log.record ⟨machine.current, leaf, occurrence.event, ()⟩ }
        (machine.tellOf occurrence .began ++ effect.notes ++
          machine.tellOf occurrence (.completed leaf) ++ machine.tellOf occurrence .ended)
  | failed {effect : Effect δ γ Chart.Outcome} {error : MachineError}
      (fired : machine.chart.fire machine.current machine.options.finishEvent occurrence
        machine.toWork = .ok (some effect))
      (failed : effect.result = .failed error) :
      Handled machine occurrence
        { machine with toWork := effect.work, status := .error, lastError := some error }
        (machine.tellOf occurrence .began ++ effect.notes ++
          machine.tellOf occurrence (.failed error) ++ machine.tellOf occurrence .ended)

theorem handled_of_process (processed : machine.process occurrence = .ok (next, notes)) :
    Handled machine occurrence next notes := by
  obtain ⟨fired, firedEq, processed⟩ := bind_eq_ok_iff.mp processed
  cases fired with
  | none =>
      cases processed
      exact .declined firedEq
  | some effect =>
      cases result : effect.result with
      | rested leaf =>
          simp only [result] at processed
          cases processed
          exact .completed firedEq result
      | failed error =>
          simp only [result] at processed
          cases processed
          exact .failed firedEq result

theorem Handled.status_eq (handled : Handled machine occurrence next notes) :
    next.status = machine.status ∨ next.status = .error := by
  cases handled with
  | declined _ => exact Or.inl rfl
  | completed _ _ => exact Or.inl rfl
  | failed _ _ => exact Or.inr rfl

theorem Handled.chart_eq (handled : Handled machine occurrence next notes) :
    next.chart = machine.chart := by
  cases handled <;> rfl

theorem Move.chart_eq (move : Move machine notes next) : next.chart = machine.chart := by
  cases move with
  | handle _ _ processed => exact (handled_of_process processed).chart_eq
  | @shutdown context _ =>
      unfold Machine.shutdown
      dsimp only
      split <;> rfl
  | _ => rfl

theorem Moves.chart_eq (moves : Moves machine notes next) : next.chart = machine.chart := by
  induction moves with
  | refl => rfl
  | step move _ ih => exact ih.trans move.chart_eq

theorem startingIn_eq_ok {chart : Chart δ γ} {initial : StateId} {data : δ}
    (created : startingIn chart initial data = .ok machine) :
    chart.forest.contains initial = true ∧ machine = { data, chart, current := initial } := by
  unfold startingIn at created
  split at created
  · next known =>
    cases created
    exact ⟨known, rfl⟩
  · contradiction

theorem moves_of_processAll {limit : Nat} {last : γ} (status : machine.status = .busy)
    (done : processAll limit machine context = .ok (next, notes, last)) :
    Moves machine notes next ∧
      (next.status = .error ∨ next.status = .busy ∧ next.queue = []) := by
  induction limit generalizing machine notes context with
  | zero =>
      unfold processAll at done
      split at done
      · next empty =>
        cases done
        exact ⟨.refl, Or.inr ⟨status, empty⟩⟩
      · contradiction
  | succ limit ih =>
      unfold processAll at done
      split at done
      · next empty =>
        cases done
        exact ⟨.refl, Or.inr ⟨status, empty⟩⟩
      · next occurrence queue waiting =>
        obtain ⟨⟨middle, first⟩, processed, done⟩ := bind_eq_ok_iff.mp done
        have move : Move machine first middle := .handle status waiting processed
        dsimp only at done
        split at done
        · next failed =>
          cases done
          exact ⟨.single move, Or.inl failed⟩
        · next going =>
          obtain ⟨⟨final, later, last'⟩, rest, done⟩ := bind_eq_ok_iff.mp done
          cases done
          have middleStatus : middle.status = .busy := by
            rcases (handled_of_process processed).status_eq with same | failed
            · exact same.trans status
            · contradiction
          obtain ⟨moves, ending⟩ := ih middleStatus rest
          exact ⟨.step move moves, ending⟩

theorem status_shutdown (machine : Machine δ γ) (context : γ) :
    (machine.shutdown context).1.status = .terminated ∨
      (machine.shutdown context).1.status = .error := by
  unfold shutdown
  dsimp only
  split
  · exact Or.inl rfl
  · exact Or.inr rfl

theorem moves_of_drain {limit : Nat} (status : machine.status = .idle)
    (done : drain limit machine context = .ok (next, notes)) :
    Moves { machine with status := .busy } notes next ∧
      (next.status = .idle ∨ next.status.isTerminal = true) := by
  cases drained_of_drain done with
  | ignored active => contradiction
  | failed _ processed failed =>
      exact ⟨(moves_of_processAll rfl processed).1, Or.inr (by rw [failed]; rfl)⟩
  | @finished drained _ last _ processed going _ _ =>
      obtain ⟨moves, ending⟩ := moves_of_processAll rfl processed
      obtain ⟨busy, _⟩ := ending.resolve_left going
      refine ⟨moves.trans (.single (.shutdown (Or.inr busy))), Or.inr ?_⟩
      rcases status_shutdown drained last with same | same <;> rw [same] <;> rfl
  | rested _ processed going _ =>
      obtain ⟨moves, ending⟩ := moves_of_processAll rfl processed
      obtain ⟨busy, empty⟩ := ending.resolve_left going
      have settled := moves.trans (.single (.settle busy empty))
      rw [List.append_nil] at settled
      exact ⟨settled, Or.inl rfl⟩

theorem moves_of_launch {limit : Nat} (status : machine.status = .initialized)
    (done : launch limit machine context = .ok (next, notes)) :
    Moves machine notes next ∧ (next.status = .idle ∨ next.status.isTerminal = true) := by
  cases launched_of_launch done with
  | rested started rested drained =>
      obtain ⟨moves, settled⟩ := moves_of_drain rfl drained
      exact ⟨.step (.launch status started rested) moves, settled⟩
  | failed started failed => exact ⟨.single (.collapse status started failed), Or.inr rfl⟩

theorem moves_of_enqueue {limit : Nat} {response : Response δ γ}
    (started : machine.status ≠ .initialized)
    (done : enqueue limit machine occurrence = .ok response) :
    Moves machine response.notes response.machine := by
  cases enqueued_of_enqueue done with
  | refused _ => exact .refl
  | taken live drained =>
      cases status : machine.status with
      | initialized => contradiction
      | terminated => simp [status, Status.isTerminal] at live
      | error => simp [status, Status.isTerminal] at live
      | idle =>
          have waiting : { machine with queue := machine.queue ++ [occurrence] }.status = .idle :=
            status
          exact .step (.take (Or.inl status)) (moves_of_drain waiting drained).1
      | busy =>
          have move : Move machine [.queued .caller occurrence]
              { machine with queue := machine.queue ++ [occurrence], status := .busy } :=
            .take (Or.inr status)
          rw [← status] at move
          unfold drain at drained
          rw [if_neg (by simp [status])] at drained
          cases drained
          exact .single move

theorem moves_of_start {limit : Nat} {response : Response δ γ}
    (done : start limit machine context = .ok response) :
    Moves machine response.notes response.machine := by
  cases started_of_start done with
  | launched status launched => exact (moves_of_launch status launched).1
  | running _ => exact .refl
  | refused _ => exact .refl

theorem moves_of_fire {limit : Nat} {event : EventId} {response : Response δ γ}
    (done : fire limit machine event context = .ok response) :
    Moves machine response.notes response.machine := by
  cases fired_of_fire done with
  | @launched launched first enqueued status _ launchedEq enqueuedEq =>
      obtain ⟨moves, settled⟩ := moves_of_launch status launchedEq
      have started : launched.status ≠ .initialized := by
        rcases settled with idle | terminal
        · simp [idle]
        · intro same
          simp [same, Status.isTerminal] at terminal
      exact moves.trans (moves_of_enqueue started enqueuedEq)
  | refused _ _ => exact .refl
  | running started enqueued => exact moves_of_enqueue started enqueued

theorem moves_terminate (machine : Machine δ γ) (context : γ) :
    Moves machine (machine.terminate context).notes (machine.terminate context).machine := by
  unfold terminate
  split
  · exact .refl
  · exact .refl
  · next status => exact .single (.abandon status)
  · next status => exact .single (.shutdown (Or.inl status))
  · next status => exact .single (.shutdown (Or.inr status))

theorem moves_of_act {act : Act δ γ} {response : Response δ γ}
    (done : machine.act act = .ok response) :
    Moves machine response.notes response.machine := by
  cases act with
  | ask limit request =>
      cases request with
      | start context => exact moves_of_start done
      | fire event context => exact moves_of_fire done
      | terminate context =>
          cases done
          exact moves_terminate machine context
  | configure options =>
      cases done
      exact .single (.adjust options machine.observers machine.data)
  | observe =>
      cases done
      exact .single (.adjust machine.options (machine.observers + 1) machine.data)
  | alter data =>
      cases done
      exact .single (.adjust machine.options machine.observers data)

theorem moves_of_run {acts : List (Act δ γ)} (done : machine.run acts = .ok (next, notes)) :
    Moves machine notes next := by
  induction acts generalizing machine notes with
  | nil =>
      cases done
      exact .refl
  | cons act acts ih =>
      obtain ⟨response, acted, done⟩ := bind_eq_ok_iff.mp done
      obtain ⟨⟨final, later⟩, rest, done⟩ := bind_eq_ok_iff.mp done
      cases done
      exact (moves_of_act acted).trans (ih rest)

end Machine

end Statechart
