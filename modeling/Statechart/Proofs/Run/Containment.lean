import Statechart.Proofs.Run.Errand
import Statechart.Proofs.Run.Queue

namespace Statechart

variable {δ γ : Type}

@[simp] theorem Note.begun_append (notes later : List (Note γ)) :
    begun (notes ++ later) = begun notes ++ begun later :=
  List.filterMap_append

namespace Chart

variable {chart : Chart δ γ}

theorem descend_rest_ne (memory : Memory) (steps : Nat) (mode : History) (node : Node δ γ) :
    (chart.descend memory steps mode node).rest ≠ .error .tooManyEvents := by
  induction steps generalizing mode node with
  | zero => simp [descend]
  | succ steps ih =>
      unfold descend
      split
      · simp
      · split
        · simp
        · split
          · simp
          · exact ih _ _

theorem land_rest_ne (memory : Memory) (id : StateId) :
    (chart.land memory id).rest ≠ .error .tooManyEvents := by
  unfold land
  split
  · simp
  · exact descend_rest_ne _ _ _ _

theorem transitionPlan_rest_ne (memory : Memory) (current : StateId)
    (transition : Transition δ γ) :
    (chart.transitionPlan memory current transition).rest ≠ .error .tooManyEvents := by
  unfold transitionPlan
  split
  · nofun
  · exact land_rest_ne _ _

theorem carryOut_ne {scope : Scope γ} {plan : Plan δ γ} {work : Work δ γ}
    (lands : plan.rest ≠ .error .tooManyEvents) :
    chart.carryOut scope plan work ≠ .error .tooManyEvents := by
  unfold carryOut
  dsimp only
  split
  · nofun
  · intro interrupted
    cases rest : plan.rest with
    | error interruption =>
        rw [rest] at lands interrupted
        cases interrupted
        exact lands rfl
    | ok leaf =>
        rw [rest] at interrupted
        contradiction

theorem fire_ne {current : StateId} {finishEvent : EventId} {occurrence : Occurrence γ}
    {work : Work δ γ} :
    chart.fire current finishEvent occurrence work ≠ .error .tooManyEvents := by
  unfold fire
  split
  · nofun
  · next transition _ =>
    intro interrupted
    rcases bind_eq_error_iff.mp interrupted with carried | ⟨effect, _, finishes⟩
    · exact carryOut_ne (transitionPlan_rest_ne _ _ _) carried
    · split at finishes
      · contradiction
      · rcases bind_eq_error_iff.mp finishes with finishing | ⟨finished, _, done⟩
        · unfold Chart.finishes at finishing
          split at finishing
          · contradiction
          · split at finishing <;> cases finishing
        · split at done <;> contradiction

end Chart

namespace Machine

variable {machine next : Machine δ γ} {notes : List (Note γ)} {limit : Nat} {context : γ}

theorem process_ne (machine : Machine δ γ) (occurrence : Occurrence γ) :
    machine.process occurrence ≠ .error .tooManyEvents := by
  intro interrupted
  rcases bind_eq_error_iff.mp interrupted with fired | ⟨effect?, _, done⟩
  · exact Chart.fire_ne fired
  · cases effect? with
    | none => contradiction
    | some effect =>
        dsimp only at done
        split at done <;> contradiction

theorem isFinished_ne (machine : Machine δ γ) : machine.isFinished ≠ .error .tooManyEvents := by
  unfold isFinished
  split <;> nofun

theorem begun_of_handled {occurrence : Occurrence γ}
    (handled : Handled machine occurrence next notes) : 1 ≤ (Note.begun notes).length := by
  have began : Note.begun (machine.tellOf occurrence .began) = [occurrence] := by
    unfold tellOf tell
    dsimp only
    split <;> rfl
  cases handled <;> simp [Note.begun_append, began]

theorem Faultless.then_serves {middle : Machine δ γ} (first : Faultless machine notes middle)
    (rest : ∃ last served, Faultless middle served last ∧ limit ≤ (Note.begun served).length) :
    ∃ last served, Faultless machine served last ∧
      (Note.begun notes).length + limit ≤ (Note.begun served).length := by
  obtain ⟨last, served, faultless, enough⟩ := rest
  refine ⟨last, notes ++ served, first.trans faultless, ?_⟩
  rw [Note.begun_append, List.length_append]
  exact Nat.add_le_add_left enough _

theorem faultless_of_processAll (status : machine.status = .busy)
    (interrupted : processAll limit machine context = .error .tooManyEvents) :
    ∃ middle served, Faultless machine served middle ∧ limit ≤ (Note.begun served).length := by
  induction limit generalizing machine context with
  | zero => exact ⟨machine, [], .refl, Nat.zero_le _⟩
  | succ limit ih =>
      unfold processAll at interrupted
      split at interrupted
      · contradiction
      · next occurrence queue waiting =>
        rcases bind_eq_error_iff.mp interrupted with first | ⟨⟨middle, notes⟩, processed, rest⟩
        · exact absurd first (process_ne _ _)
        · have handled := handled_of_process processed
          dsimp only at rest
          split at rest
          · contradiction
          · next going =>
            have busy : middle.status = .busy :=
              (handled.status_eq.resolve_right going).trans status
            rcases bind_eq_error_iff.mp rest with later | ⟨_, _, done⟩
            · have move : Move machine notes middle := .handle status waiting processed
              obtain ⟨last, served, faultless, enough⟩ :=
                (Faultless.of_move move going).then_serves (ih busy later)
              have := begun_of_handled handled
              exact ⟨last, served, faultless, by omega⟩
            · contradiction

theorem faultless_of_drain (status : machine.status = .idle)
    (interrupted : drain limit machine context = .error .tooManyEvents) :
    ∃ middle served, Faultless { machine with status := .busy } served middle ∧
      limit ≤ (Note.begun served).length := by
  unfold drain at interrupted
  rw [if_pos status] at interrupted
  rcases bind_eq_error_iff.mp interrupted with first | ⟨⟨drained, notes, last⟩, _, rest⟩
  · exact faultless_of_processAll rfl first
  · dsimp only at rest
    split at rest
    · contradiction
    · split at rest
      · rcases bind_eq_error_iff.mp rest with finishing | ⟨finished, _, done⟩
        · exact absurd finishing (isFinished_ne _)
        · split at done <;> contradiction
      · contradiction

theorem faultless_of_launch (status : machine.status = .initialized)
    (interrupted : launch limit machine context = .error .tooManyEvents) :
    ∃ middle served, Faultless machine served middle ∧ limit ≤ (Note.begun served).length := by
  rcases bind_eq_error_iff.mp interrupted with start | ⟨effect, started, rest⟩
  · exact absurd start (Chart.carryOut_ne (Chart.land_rest_ne _ _))
  · dsimp only at rest
    split at rest
    · next leaf rested =>
      rcases bind_eq_error_iff.mp rest with drained | ⟨_, _, done⟩
      · have first := Faultless.of_move (.launch status started rested) nofun
        obtain ⟨last, served, faultless, enough⟩ :=
          first.then_serves (faultless_of_drain rfl drained)
        exact ⟨last, served, faultless, by omega⟩
      · contradiction
    · contradiction

theorem faultless_of_enqueue {occurrence : Occurrence γ}
    (interrupted : enqueue limit machine occurrence = .error .tooManyEvents) :
    ∃ middle served, Faultless machine served middle ∧ limit ≤ (Note.begun served).length := by
  unfold enqueue at interrupted
  split at interrupted
  · contradiction
  · rcases bind_eq_error_iff.mp interrupted with drained | ⟨_, _, done⟩
    · cases status : machine.status with
      | idle =>
          have waiting : { machine with queue := machine.queue ++ [occurrence] }.status = .idle :=
            status
          have first : Faultless machine [.queued .caller occurrence]
              { machine with queue := machine.queue ++ [occurrence], status := .busy } :=
            .of_move (.take (Or.inl status)) nofun
          obtain ⟨last, served, faultless, enough⟩ :=
            first.then_serves (faultless_of_drain waiting drained)
          exact ⟨last, served, faultless, by omega⟩
      | _ => simp [drain, status] at drained
    · contradiction

theorem faultless_of_start
    (interrupted : start limit machine context = .error .tooManyEvents) :
    ∃ middle served, Faultless machine served middle ∧ limit ≤ (Note.begun served).length := by
  unfold start at interrupted
  split at interrupted
  · next status =>
    rcases bind_eq_error_iff.mp interrupted with launched | ⟨_, _, done⟩
    · exact faultless_of_launch status launched
    · contradiction
  all_goals contradiction

theorem faultless_of_fire {event : EventId}
    (interrupted : fire limit machine event context = .error .tooManyEvents) :
    ∃ middle served, Faultless machine served middle ∧ limit ≤ (Note.begun served).length := by
  unfold fire at interrupted
  split at interrupted
  · next status =>
    split at interrupted
    · rcases bind_eq_error_iff.mp interrupted with first | ⟨⟨launched, notes⟩, started, rest⟩
      · exact faultless_of_launch status first
      · rcases bind_eq_error_iff.mp rest with enqueued | ⟨_, _, done⟩
        · -- A machine that could not be started refuses the event before any is processed.
          have healthy : launched.status ≠ .error := by
            intro failed
            simp [enqueue, failed, Status.isTerminal] at enqueued
          have first := (moves_of_launch status started).1.faultless healthy
          obtain ⟨last, served, faultless, enough⟩ :=
            first.then_serves (faultless_of_enqueue enqueued)
          exact ⟨last, served, faultless, by omega⟩
        · contradiction
    · contradiction
  · exact faultless_of_enqueue interrupted

theorem faultless_of_answer {request : Request γ}
    (interrupted : machine.answer limit request = .error .tooManyEvents) :
    ∃ middle served, Faultless machine served middle ∧ limit ≤ (Note.begun served).length := by
  cases request with
  | start context => exact faultless_of_start interrupted
  | fire event context => exact faultless_of_fire interrupted
  | terminate context => contradiction

/-- An event for which the machine would have to be started first, and starting it fails. -/
inductive LaunchFails (limit : Nat) (machine : Machine δ γ) :
    Request γ → Machine δ γ → List (Note γ) → Prop where
  | of_launch {event : EventId} {context : γ} {launched : Machine δ γ} {notes : List (Note γ)}
      (status : machine.status = .initialized)
      (launchEq : machine.launch limit context = .ok (launched, notes))
      (failed : launched.status = .error) :
      LaunchFails limit machine (.fire event context) launched notes

theorem result_of_enqueue {occurrence : Occurrence γ} {response : Response δ γ}
    (healthy : machine.status ≠ .error) (done : enqueue limit machine occurrence = .ok response)
    (failed : response.machine.status = .error) : response.result = .ok () := by
  cases enqueued_of_enqueue done with
  | refused _ => exact absurd failed healthy
  | taken _ _ => rfl

theorem result_of_start {response : Response δ γ} (healthy : machine.status ≠ .error)
    (done : start limit machine context = .ok response)
    (failed : response.machine.status = .error) : response.result = .ok () := by
  cases started_of_start done with
  | launched _ _ => rfl
  | running _ => rfl
  | refused _ => exact absurd failed healthy

theorem result_of_fire {event : EventId} {response : Response δ γ}
    (healthy : machine.status ≠ .error) (done : fire limit machine event context = .ok response)
    (failed : response.machine.status = .error) :
    (response.result = .ok () ∧
        ∀ launched notes, ¬LaunchFails limit machine (.fire event context) launched notes) ∨
      (LaunchFails limit machine (.fire event context) response.machine response.notes ∧
        response.result = .error (.invalidStatus .error .fire)) := by
  cases fired_of_fire done with
  | @launched launched first enqueued status _ launchedEq enqueuedEq =>
      by_cases ended : launched.status = .error
      · have refused : enqueued = ⟨launched, [], .error (.invalidStatus .error .fire)⟩ := by
          cases enqueued_of_enqueue enqueuedEq with
          | refused _ => rw [ended]
          | taken live _ => simp [ended, Status.isTerminal] at live
        subst refused
        rw [List.append_nil]
        exact Or.inr ⟨.of_launch status launchedEq ended, rfl⟩
      · have granted : enqueued.result = .ok () := result_of_enqueue ended enqueuedEq failed
        refine Or.inl ⟨granted, ?_⟩
        rintro launched' notes' ⟨_, again, failed'⟩
        cases again.symm.trans launchedEq
        exact ended failed'
  | refused _ _ => exact absurd failed healthy
  | running status enqueued =>
      refine Or.inl ⟨result_of_enqueue healthy enqueued failed, ?_⟩
      rintro launched notes ⟨unstarted, _, _⟩
      exact status unstarted

theorem result_of_failing {request : Request γ} {response : Response δ γ}
    (healthy : machine.status ≠ .error) (answered : machine.answer limit request = .ok response)
    (failed : response.machine.status = .error) :
    (response.result = .ok () ∧
        ∀ launched notes, ¬LaunchFails limit machine request launched notes) ∨
      (LaunchFails limit machine request response.machine response.notes ∧
        response.result = .error (.invalidStatus .error .fire)) := by
  cases request with
  | start context =>
      refine Or.inl ⟨result_of_start healthy answered failed, fun _ _ fails => ?_⟩
      cases fails
  | fire event context => exact result_of_fire healthy answered failed
  | terminate context =>
      refine Or.inl ⟨?_, fun _ _ fails => by cases fails⟩
      cases answered
      unfold terminate
      split <;> first | rfl | contradiction

/-- How far a session got before the request in which an action failed, and what came of it. -/
theorem faultless_or_fails_of_run {acts : List (Act δ γ)} {final : Machine δ γ}
    (healthy : machine.status ≠ .error) (done : machine.run acts = .ok (final, notes)) :
    Faultless machine notes final ∨
      ∃ before limit request after reached earlier response errand failure,
        acts = before ++ .ask limit request :: after ∧
        machine.run before = .ok (reached, earlier) ∧ Faultless machine earlier reached ∧
        reached.answer limit request = .ok response ∧
        Fails errand failure reached response.notes response.machine ∧
        (response.result = .ok () ∧
            (∀ launched later, ¬LaunchFails limit reached request launched later) ∨
          LaunchFails limit reached request response.machine response.notes ∧
            response.result = .error (.invalidStatus .error .fire)) ∧
        notes = earlier ++ response.notes ∧ Halted response.machine final := by
  induction acts generalizing machine notes with
  | nil =>
      cases done
      exact Or.inl .refl
  | cons act acts ih =>
      obtain ⟨response, acted, rest⟩ := bind_eq_ok_iff.mp done
      obtain ⟨⟨final, later⟩, ran, rest⟩ := bind_eq_ok_iff.mp rest
      cases rest
      have moves := moves_of_act acted
      by_cases failed : response.machine.status = .error
      · obtain ⟨errand, failure, fails⟩ := moves.fails healthy failed
        obtain ⟨rfl, halted⟩ := (moves_of_run ran).halted failed
        cases act with
        | ask limit request =>
            exact Or.inr ⟨[], limit, request, acts, machine, [], response, errand, failure, rfl,
              rfl, .refl, acted, fails, result_of_failing healthy acted failed, by simp, halted⟩
        | _ =>
            cases acted
            exact absurd failed healthy
      · have first := moves.faultless failed
        rcases ih failed ran with faultless | broken
        · exact Or.inl (first.trans faultless)
        · obtain ⟨before, limit, request, after, reached, earlier, last, errand, failure, rfl,
            ranBefore, faultless, answered, fails, result, rfl, halted⟩ := broken
          refine Or.inr ⟨act :: before, limit, request, after, reached, response.notes ++ earlier,
            last, errand, failure, rfl, ?_, first.trans faultless, answered, fails, result, ?_,
            halted⟩
          · exact bind_eq_ok_iff.mpr ⟨response, acted,
              bind_eq_ok_iff.mpr ⟨(reached, earlier), ranBefore, rfl⟩⟩
          · rw [List.append_assoc]

/--
Throughout a session, the first action that fails is the last thing that happens.  The machine stays
in the state in which it was, with the transitions completed so far and the events that were
waiting, and the request is granted, unless it is an event for which the machine could not be
started.  A request in which an action fails is not interrupted, if the limit suffices for the
events before.
-/
theorem run_contains_failure {chart : Chart δ γ} {initial : StateId} {data : δ}
    (created : startingIn chart initial data = .ok machine) :
    (∀ acts final notes, machine.run acts = .ok (final, notes) →
      Faultless machine notes final ∧ final.status ≠ .error ∨
      ∃ before limit request after reached earlier response errand failure,
        acts = before ++ .ask limit request :: after ∧
        machine.run before = .ok (reached, earlier) ∧ Faultless machine earlier reached ∧
        reached.answer limit request = .ok response ∧
        Fails errand failure reached response.notes response.machine ∧
        (response.result = .ok () ∧
            (∀ launched later, ¬LaunchFails limit reached request launched later) ∨
          LaunchFails limit reached request response.machine response.notes ∧
            response.result = .error (.invalidStatus .error .fire)) ∧
        notes = earlier ++ response.notes ∧ Halted response.machine final) ∧
    ∀ acts reached earlier limit request, machine.run acts = .ok (reached, earlier) →
      reached.answer limit request = .error .tooManyEvents →
      ∃ middle served, Faultless reached served middle ∧ limit ≤ (Note.begun served).length := by
  obtain ⟨_, rfl⟩ := startingIn_eq_ok created
  refine ⟨fun acts final notes done => ?_, fun _ _ _ _ _ _ => faultless_of_answer⟩
  have healthy : Status.initialized ≠ .error := nofun
  apply (faultless_or_fails_of_run healthy done).imp_left
  intro faultless
  exact ⟨faultless, faultless.status_ne healthy⟩

def fragile : Machine Unit Unit where
  data := ()
  current := ⟨"A"⟩
  chart :=
    { forest :=
        { nodes :=
            [{ id := ⟨"A"⟩ },
              { id := ⟨"B"⟩
                entry := ⟨[⟨.action ⟨0, fun _ data => ⟨data, [], some "stuck"⟩⟩, 0⟩]⟩ }] }
      table :=
        { groups := [⟨⟨"A"⟩, ⟨"go"⟩, [{ source := ⟨"A"⟩, target := ⟨"B"⟩, event := ⟨"go"⟩ }]⟩] }
      initial := none }

def fragileActs : List (Act Unit Unit) :=
  [⟨"go"⟩, ⟨"go"⟩].map fun event => .ask 5 (.fire event ())

theorem run_contains_failure_fragile :
    startingIn fragile.chart ⟨"A"⟩ () = .ok fragile ∧
      ∃ final notes, fragile.run fragileActs = .ok (final, notes) ∧ final.current = ⟨"A"⟩ ∧
        final.lastError = some (.actionFailure ⟨"B"⟩ ⟨"go"⟩ "stuck") ∧
        ∃ (reached : Machine Unit Unit) (response : Response Unit Unit) (errand : Errand Unit Unit)
            (failure : Failure Unit Unit),
          Fails errand failure reached response.notes response.machine ∧
            Halted response.machine final := by
  have created : startingIn fragile.chart ⟨"A"⟩ () = .ok fragile := rfl
  have session : (fragile.run fragileActs).map
      (fun ending => (ending.1.status, ending.1.current, ending.1.lastError)) =
      .ok (.error, ⟨"A"⟩, some (.actionFailure ⟨"B"⟩ ⟨"go"⟩ "stuck")) := by decide +kernel
  cases done : fragile.run fragileActs with
  | error interruption =>
      rw [done] at session
      contradiction
  | ok ending =>
      obtain ⟨final, notes⟩ := ending
      rw [done] at session
      obtain ⟨failed, rest⟩ := Prod.mk.inj (Except.ok.inj session)
      obtain ⟨current, lastError⟩ := Prod.mk.inj rest
      refine ⟨created, final, notes, rfl, current, lastError, ?_⟩
      rcases (run_contains_failure created).1 fragileActs final notes done with
        ⟨_, going⟩ | ⟨_, _, _, _, reached, _, response, errand, failure, _, _, _, _, fails, _, _,
          halted⟩
      · exact absurd failed going
      · exact ⟨reached, response, errand, failure, fails, halted⟩

end Machine

end Statechart
