import Statechart.Proofs.Run.Errand
import Statechart.Proofs.Run.Selection

namespace Statechart

variable {δ γ : Type}

namespace Note

variable {notes later : List (Note γ)}

def sent (notes : List (Note γ)) : List (Sender × Occurrence γ) :=
  notes.filterMap fun
    | .queued sender occurrence => some (sender, occurrence)
    | _ => none

@[simp] theorem sent_append (notes later : List (Note γ)) :
    sent (notes ++ later) = sent notes ++ sent later :=
  List.filterMap_append

theorem map_snd_sent (notes : List (Note γ)) : (sent notes).map Prod.snd = occurrences notes := by
  rw [sent, occurrences, List.map_filterMap]
  congr 1
  funext note
  cases note <;> rfl

theorem mem_sent {sender : Sender} {occurrence : Occurrence γ} :
    (sender, occurrence) ∈ sent notes ↔ .queued sender occurrence ∈ notes := by
  constructor
  · intro member
    obtain ⟨note, inNotes, same⟩ := List.mem_filterMap.mp member
    cases note <;> cases same
    exact inNotes
  · exact fun member => List.mem_filterMap.mpr ⟨_, member, rfl⟩

def ByActions (notes : List (Note γ)) : Prop :=
  ∀ sender occurrence, .queued sender occurrence ∈ notes → sender = .action

theorem ByActions.append (first : ByActions notes) (second : ByActions later) :
    ByActions (notes ++ later) := by
  intro sender occurrence member
  exact (List.mem_append.mp member).elim (first sender occurrence) (second sender occurrence)

theorem ByActions.of_calls (ofCalls : ∀ note ∈ notes, note.OfCalls) : ByActions notes := by
  intro sender occurrence member
  cases ofCalls _ member
  rfl

theorem ByActions.sent_eq (byActions : ByActions notes) :
    sent notes = (occurrences notes).map (Prod.mk .action) := by
  rw [← map_snd_sent, List.map_map]
  refine (List.map_id _).symm.trans (List.map_congr_left fun pair member => ?_)
  obtain ⟨sender, occurrence⟩ := pair
  cases byActions sender occurrence (mem_sent.mp member)
  rfl

end Note

theorem occurrences_runActions (scope : Scope γ) (state : StateId) (actions : ActionList δ γ)
    (work : Work δ γ) : Note.occurrences (runActions scope state actions work).notes =
      (actions.run scope work.data).invocations.flatMap Invocation.fired :=
  (List.append_cancel_left (accounted_runActions scope state actions work).queue_eq).symm

def firedInCalls (scope : Scope γ) : List (PlannedCall δ γ) → δ → List (Occurrence γ)
  | [], _ => []
  | call :: rest, data =>
    let performed := call.actions.run scope data
    performed.invocations.flatMap Invocation.fired ++
      if performed.failure.isSome then [] else firedInCalls scope rest performed.data

namespace Chart

variable {chart : Chart δ γ} {scope : Scope γ} {work : Work δ γ} {effect : Effect δ γ Outcome}
  {current : StateId} {transition : Transition δ γ} {occurrence : Occurrence γ}

theorem data_runCall (chart : Chart δ γ) (scope : Scope γ) (call : PlannedCall δ γ)
    (work : Work δ γ) :
    (chart.runCall scope call work).work.data = (call.actions.run scope work.data).data := by
  unfold runCall
  dsimp only
  split <;> rfl

theorem occurrences_runCalls (chart : Chart δ γ) (scope : Scope γ) (calls : List (PlannedCall δ γ))
    (work : Work δ γ) : Note.occurrences (chart.runCalls scope calls work).notes =
      firedInCalls scope calls work.data := by
  induction calls generalizing work with
  | nil => rfl
  | cons call calls ih =>
      have first : Note.occurrences (chart.runCall scope call work).notes =
          (call.actions.run scope work.data).invocations.flatMap Invocation.fired := by
        rw [notes_runCall]
        exact occurrences_runActions scope call.owner call.actions work
      have resultEq : (chart.runCall scope call work).result =
          (call.actions.run scope work.data).failure.map (.actionFailure call.owner scope.event) :=
        result_runCall chart scope call work
      rw [firedInCalls]
      cases failure : (call.actions.run scope work.data).failure with
      | some reason =>
          rw [failure] at resultEq
          rw [runCalls_cons_of_error resultEq, first]
          exact (List.append_nil _).symm
      | none =>
          rw [failure] at resultEq
          rw [runCalls_cons_of_none resultEq, Effect.notes_noting, Note.occurrences_append, first,
            ih, data_runCall]
          rfl

/-- Through the transition the machine came to rest in a final state inside another one. -/
structure Finishes (chart : Chart δ γ) (transition : Transition δ γ) (leaf : StateId) : Prop where
  moves : transition.kind ≠ .internal
  nested : ∃ node, chart.forest.node? leaf = some node ∧ node.isFinal = true ∧ node.isRoot = false

theorem finishes_iff {leaf : StateId} {answer : Bool}
    (answered : chart.finishes transition leaf = .ok answer) :
    answer = true ↔ chart.Finishes transition leaf := by
  unfold finishes at answered
  split at answered
  · next internal =>
    cases answered
    exact iff_of_false Bool.false_ne_true fun finishes => finishes.moves internal
  · next moves =>
    cases found : chart.forest.node? leaf with
    | none =>
        rw [found] at answered
        contradiction
    | some node =>
        rw [found] at answered
        cases answered
        rw [Bool.and_eq_true, Bool.not_eq_true']
        constructor
        · exact fun ⟨final, inside⟩ => ⟨moves, node, found, final, inside⟩
        · rintro ⟨_, other, otherFound, final, inside⟩
          cases found.symm.trans otherFound
          exact ⟨final, inside⟩

theorem sent_of_carryOut {plan : Plan δ γ}
    (done : chart.carryOut scope plan work = .ok effect) :
    Note.sent effect.notes = (firedInCalls scope plan.calls work.data).map (Prod.mk .action) := by
  have byActions := Note.ByActions.of_calls (ofCalls_carryOut done)
  rw [byActions.sent_eq, (carryOut_eq_ok done).2.1, occurrences_runCalls]

/-- The finish event comes behind what was fired, if the machine came to rest where it is due. -/
theorem sent_of_fire {finishEvent : EventId}
    (fired : chart.fire current finishEvent occurrence work = .ok (some effect))
    (selected : chart.select? current occurrence = some transition) :
    let occurrences := firedInCalls (scopeOf current transition occurrence)
      (chart.transitionPlan work.memory current transition).calls work.data
    ((∃ leaf, effect.result = .rested leaf ∧ chart.Finishes transition leaf) →
        Note.sent effect.notes = occurrences.map (Prod.mk .action) ++
          [(.machine, ⟨finishEvent, occurrence.context⟩)]) ∧
      (¬ (∃ leaf, effect.result = .rested leaf ∧ chart.Finishes transition leaf) →
        Note.sent effect.notes = occurrences.map (Prod.mk .action)) := by
  obtain ⟨taken, carried, takenEq, carriedEq, concluded⟩ := concluded_of_fire fired
  cases selected.symm.trans takenEq
  have sentEq := sent_of_carryOut carriedEq
  constructor
  · rintro ⟨leaf, rested, finishes⟩
    cases concluded with
    | failed failed =>
        rw [failed] at rested
        contradiction
    | finished _ _ =>
        rw [Note.sent_append, sentEq]
        rfl
    | rested rested' goesOn =>
        cases rested.symm.trans rested'
        exact absurd ((finishes_iff goesOn).mpr finishes) Bool.false_ne_true
  · intro notDue
    cases concluded with
    | failed _ => exact sentEq
    | finished rested finishes => exact absurd ⟨_, rested, (finishes_iff finishes).mp rfl⟩ notDue
    | rested _ _ => exact sentEq

theorem rest_of_final_target (wellFormed : chart.forest.WellFormed)
    (moves : transition.kind ≠ .internal) {target : Node δ γ}
    (found : chart.forest.node? transition.target = some target) (final : target.isFinal = true)
    (memory : Memory) :
    (chart.transitionPlan memory current transition).rest = .ok transition.target := by
  obtain ⟨steps, sizeEq⟩ : ∃ steps, chart.forest.size = steps + 1 := by
    have low := wellFormed.level_pos found
    have high := wellFormed.level_le_size found
    exact Nat.exists_eq_add_one.mpr (by omega)
  rw [transitionPlan_of_moves moves, landAfter, Plan.rest_after, land_eq_descend found, sizeEq,
    descend_of_rests (by rw [final, Bool.true_or]), Forest.id_of_node? found]

end Chart

namespace Machine

open Notification

variable {machine next final : Machine δ γ} {notes : List (Note γ)} {occurrence : Occurrence γ}

theorem sent_tell (machine : Machine δ γ) (stage : Stage) (origin : StateId) (event : EventId)
    (context : γ) : Note.sent (machine.tell stage origin event context) = [] := by
  rw [← List.map_eq_nil_iff (f := Prod.snd), Note.map_snd_sent, occurrences_tell]

@[simp] theorem sent_tellOf (machine : Machine δ γ) (occurrence : Occurrence γ) (stage : Stage) :
    Note.sent (machine.tellOf occurrence stage) = [] :=
  sent_tell ..

def finish (machine : Machine δ γ) (occurrence : Occurrence γ) : Occurrence γ :=
  ⟨machine.options.finishEvent, occurrence.context⟩

/--
Handling an event completes a transition that is not internal, and ends in a final state inside
another one.
-/
structure EndsComposite (machine : Machine δ γ) (occurrence : Occurrence γ) (next : Machine δ γ)
    (notes : List (Note γ)) : Prop where
  told_eq : Note.notifications notes =
    ofEvent machine.current occurrence (.completed next.current)
  finishes : ∃ transition, machine.chart.select? machine.current occurrence = some transition ∧
    machine.chart.Finishes transition next.current

def fired (machine : Machine δ γ) (occurrence : Occurrence γ) : List (Occurrence γ) :=
  match machine.chart.select? machine.current occurrence with
  | none => []
  | some transition =>
    firedInCalls (Chart.scopeOf machine.current transition occurrence)
      (machine.chart.transitionPlan machine.memory machine.current transition).calls machine.data

/-- What handling an event puts on the queue. -/
structure Sends (machine : Machine δ γ) (occurrence : Occurrence γ) (next : Machine δ γ)
    (notes : List (Note γ)) : Prop where
  queue_eq : next.queue = machine.queue ++ (Note.sent notes).map Prod.snd
  due : machine.EndsComposite occurrence next notes →
    Note.sent notes = (machine.fired occurrence).map (Prod.mk .action) ++
      [(.machine, machine.finish occurrence)]
  not_due : ¬ machine.EndsComposite occurrence next notes →
    Note.sent notes = (machine.fired occurrence).map (Prod.mk .action)

theorem sends_of_fire {effect : Effect δ γ Chart.Outcome}
    (firedEq : machine.chart.fire machine.current machine.options.finishEvent occurrence
      machine.toWork = .ok (some effect)) (queueEq : next.queue = effect.work.queue)
    (currentEq : ∀ leaf, effect.result = .rested leaf → next.current = leaf)
    (notesEq : notes = machine.tellOf occurrence .began ++ effect.notes ++
      machine.tellOf occurrence effect.result.stage ++ machine.tellOf occurrence .ended) :
    machine.Sends occurrence next notes := by
  have accounted := Chart.accounted_fire firedEq
  have sentEq : Note.sent notes = Note.sent effect.notes := by simp [notesEq]
  have toldEq : Note.notifications notes =
      ofEvent machine.current occurrence effect.result.stage := by
    simp [notesEq, ofEvent, accounted.quiet]
  obtain ⟨transition, _, selected, _⟩ := Chart.concluded_of_fire firedEq
  obtain ⟨due, notDue⟩ := Chart.sent_of_fire firedEq selected
  have ownFired : machine.fired occurrence =
      firedInCalls (Chart.scopeOf machine.current transition occurrence)
        (machine.chart.transitionPlan machine.memory machine.current transition).calls
        machine.data := by
    rw [fired, selected]
  have endsIff : machine.EndsComposite occurrence next notes ↔
      ∃ leaf, effect.result = .rested leaf ∧ machine.chart.Finishes transition leaf := by
    constructor
    · rintro ⟨completed, taken, takenEq, finishes⟩
      cases selected.symm.trans takenEq
      rw [toldEq] at completed
      cases result : effect.result with
      | rested leaf =>
          rw [currentEq leaf result] at finishes
          exact ⟨leaf, rfl, finishes⟩
      | failed error => simp [result, Chart.Outcome.stage, ofEvent] at completed
    · rintro ⟨leaf, rested, finishes⟩
      have arrived := currentEq leaf rested
      exact ⟨by rw [toldEq, rested, arrived]; rfl, transition, selected, arrived ▸ finishes⟩
  refine ⟨?_, fun ends => ?_, fun ends => ?_⟩
  · rw [queueEq, sentEq, Note.map_snd_sent]
    exact accounted.queue_eq
  · rw [sentEq, due (endsIff.mp ends), ownFired]
    rfl
  · rw [sentEq, notDue (mt endsIff.mpr ends), ownFired]

theorem Handled.sends (handled : Handled machine occurrence next notes) :
    machine.Sends occurrence next notes := by
  cases handled with
  | declined firedEq =>
      have none : machine.fired occurrence = [] := by
        rw [fired, Chart.fire_eq_ok_none firedEq]
      refine ⟨by simp, fun ends => ?_, fun _ => by simp [none]⟩
      have told := ends.told_eq
      simp [ofEvent] at told
  | completed firedEq rested =>
      refine sends_of_fire firedEq rfl (fun leaf rested' => ?_) (by rw [rested]; rfl)
      rw [rested] at rested'
      cases rested'
      rfl
  | failed firedEq failed =>
      refine sends_of_fire firedEq rfl (fun leaf rested => ?_) (by rw [failed]; rfl)
      rw [failed] at rested
      contradiction

theorem Handled.current_of_final_target (handled : Handled machine occurrence next notes)
    (wellFormed : machine.chart.forest.WellFormed) {transition : Transition δ γ}
    (selected : machine.chart.select? machine.current occurrence = some transition)
    (moves : transition.kind ≠ .internal) {target : Node δ γ}
    (found : machine.chart.forest.node? transition.target = some target)
    (isFinal : target.isFinal = true)
    (completed : Note.notifications notes =
      ofEvent machine.current occurrence (.completed next.current)) :
    next.current = transition.target := by
  cases handled with
  | declined fired => simp [ofEvent] at completed
  | completed fired rested =>
      obtain ⟨taken, takenEq, rests, _⟩ := Chart.fire_rested fired rested
      cases selected.symm.trans takenEq
      rw [Chart.rest_of_final_target wellFormed moves found isFinal] at rests
      cases rests
      rfl
  | failed fired failed =>
      simp [ofEvent, (Chart.accounted_fire fired).quiet] at completed

theorem byActions_fail (machine : Machine δ γ) (error : MachineError) (event : EventId)
    (context : γ) : Note.ByActions (machine.fail error event context).2 := by
  intro sender occurrence member
  have listed := Note.mem_sent.mpr member
  rw [fail, sent_tell] at listed
  exact absurd listed List.not_mem_nil

theorem byActions_shutdown (machine : Machine δ γ) (context : γ) :
    Note.ByActions (machine.shutdown context).2 := by
  have exits : Note.ByActions (machine.chart.terminate machine.current
      machine.options.terminateEvent context machine.toWork).notes :=
    .of_calls (Chart.ofCalls_runCalls _ _ _ _)
  unfold shutdown
  dsimp only
  split
  · exact exits.append (by simp [Note.ByActions])
  · exact exits.append (byActions_fail _ _ _ _)

theorem Move.handles_of_finish {finish : Occurrence γ} (move : Move machine notes next)
    (queued : .queued .machine finish ∈ notes) :
    ∃ occurrence queue, machine.status = .busy ∧ machine.queue = occurrence :: queue ∧
      process { machine with queue } occurrence = .ok (next, notes) := by
  have notByActions (byActions : Note.ByActions notes) : False :=
    Sender.noConfusion (byActions .machine finish queued)
  cases move with
  | handle status waiting processed => exact ⟨_, _, status, waiting, processed⟩
  | launch _ started _ =>
      have carried := Note.ByActions.of_calls (Chart.ofCalls_carryOut started)
      exact (notByActions (carried.append (by simp [Note.ByActions]))).elim
  | collapse _ started _ =>
      have carried := Note.ByActions.of_calls (Chart.ofCalls_carryOut started)
      exact (notByActions (carried.append (byActions_fail _ _ _ _))).elim
  | shutdown _ => exact (notByActions (byActions_shutdown _ _)).elim
  | _ => simp at queued

/--
Moves in the course of which an event is taken from the queue and ends a composite, whereupon the
machine puts its finish event on the queue.
-/
inductive FinishQueued (machine : Machine δ γ) :
    List (Note γ) → Occurrence γ → List (Note γ) → Machine δ γ → Prop where
  | intro {taken handled final : Machine δ γ} {occurrence : Occurrence γ}
      {queue : List (Occurrence γ)} {first inner outer last : List (Note γ)}
      (reached : Moves machine first taken) (status : taken.status = .busy)
      (waiting : taken.queue = occurrence :: queue)
      (processed : process { taken with queue } occurrence =
        .ok (handled, inner ++ .queued .machine (taken.finish occurrence) :: outer))
      (ends : EndsComposite { taken with queue } occurrence handled
        (inner ++ .queued .machine (taken.finish occurrence) :: outer))
      (onward : Moves handled last final) :
      FinishQueued machine (first ++ inner) (taken.finish occurrence) (outer ++ last) final

theorem Sends.ends_of_mem {finish : Occurrence γ}
    (sends : machine.Sends occurrence next notes) (queued : .queued .machine finish ∈ notes) :
    machine.EndsComposite occurrence next notes ∧ finish = machine.finish occurrence := by
  have listed := Note.mem_sent.mpr queued
  by_cases ends : machine.EndsComposite occurrence next notes
  · rw [sends.due ends] at listed
    exact ⟨ends, by simpa using listed⟩
  · rw [sends.not_due ends] at listed
    simp at listed

theorem Moves.finishQueued {before after : List (Note γ)} {finish : Occurrence γ}
    (moves : Moves machine (before ++ .queued .machine finish :: after) final) :
    machine.FinishQueued before finish after final := by
  obtain ⟨taken, handled, first, inner, outer, last, reached, move, onward, rfl, rfl⟩ :=
    moves.exists_move
  have queued : .queued .machine finish ∈ inner ++ .queued .machine finish :: outer := by simp
  obtain ⟨occurrence, queue, status, waiting, processed⟩ := move.handles_of_finish queued
  obtain ⟨ends, finishEq⟩ := (handled_of_process processed).sends.ends_of_mem queued
  obtain rfl : finish = taken.finish occurrence := finishEq
  exact .intro reached status waiting processed ends onward

/--
When an event is processed, the machine puts the finish event on the queue, with the context of that
event, just if a transition that is not internal completes and the machine comes to rest in a final
state that is not at the top.  It does so once and behind everything that actions fired.  A
transition to a final state comes to rest there.  Nothing else in a session has the machine put an
event on the queue.
-/
theorem finish_queued_when_due {chain : List (Layer δ γ)} {registry : Registry δ γ}
    (compiled : Chart.ofLayers chain registry = .ok machine.chart) :
    (∀ occurrence, ∃ next notes, machine.process occurrence = .ok (next, notes) ∧
      machine.Sends occurrence next notes ∧
      ∀ transition target, machine.chart.select? machine.current occurrence = some transition →
        transition.kind ≠ .internal →
        machine.chart.forest.node? transition.target = some target → target.isFinal = true →
        Note.notifications notes =
          ofEvent machine.current occurrence (.completed next.current) →
        next.current = transition.target) ∧
    ∀ acts final notes, machine.run acts = .ok (final, notes) →
      ∀ before finish after, notes = before ++ .queued .machine finish :: after →
        machine.FinishQueued before finish after final := by
  have wellFormed := Chart.wellFormed_of_ofLayers compiled
  constructor
  · intro occurrence
    obtain ⟨fired, firedEq⟩ := Chart.exists_fired wellFormed
      machine.options.finishEvent occurrence machine.toWork
    obtain ⟨next, notes, processed⟩ := exists_process_of_fire firedEq
    have handled := handled_of_process processed
    refine ⟨next, notes, processed, handled.sends, ?_⟩
    intro transition target selected moves found isFinal completed
    exact handled.current_of_final_target wellFormed.forest selected moves found isFinal completed
  · rintro acts final _ done before finish after rfl
    exact (moves_of_run done).finishQueued

def job : Layer Unit Nat where
  states :=
    [.mk ⟨"Job"⟩ {}
      [.mk ⟨"Running"⟩
          { exit := some [.direct ⟨0, fun _ data => ⟨data, [⟨⟨"note"⟩, 3⟩], none⟩⟩ 10] } [],
        .mk ⟨"Done"⟩ { isFinal := some true } [.mk ⟨"Rest"⟩ {} []]]]
  transitions := [{ source := ⟨"Running"⟩, target := some ⟨"Done"⟩, event := ⟨"complete"⟩ }]

theorem finish_queued_when_due_job :
    ∃ (chart : Chart Unit Nat) (machine next final : Machine Unit Nat)
      (notes later : List (Note Nat)),
      Chart.ofLayers [job] {} = .ok chart ∧ startingIn chart ⟨"Running"⟩ () = .ok machine ∧
      machine.process ⟨⟨"complete"⟩, 7⟩ = .ok (next, notes) ∧ next.current = ⟨"Done"⟩ ∧
      machine.EndsComposite ⟨⟨"complete"⟩, 7⟩ next notes ∧
      Note.sent notes = (machine.fired ⟨⟨"complete"⟩, 7⟩).map (Prod.mk .action) ++
        [(.machine, ⟨⟨"$Finish"⟩, 7⟩)] ∧
      next.queue = [⟨⟨"note"⟩, 3⟩, ⟨⟨"$Finish"⟩, 7⟩] ∧
      machine.run [.ask 5 (.fire ⟨"complete"⟩ 7)] = .ok (final, later) ∧
      ∃ before after, machine.FinishQueued before ⟨⟨"$Finish"⟩, 7⟩ after final := by
  have evaluated : ((Chart.ofLayers [job] {}).toOption.bind fun chart =>
      (startingIn chart ⟨"Running"⟩ ()).toOption.bind fun machine =>
        (machine.process ⟨⟨"complete"⟩, 7⟩).toOption.bind fun ending =>
          (machine.run [.ask 5 (.fire ⟨"complete"⟩ 7)]).toOption.bind fun session =>
            (machine.chart.select? machine.current ⟨⟨"complete"⟩, 7⟩).bind fun transition =>
              (machine.chart.forest.node? transition.target).map fun target =>
                decide (transition.kind ≠ .internal ∧ transition.target = ⟨"Done"⟩ ∧
                  target.isFinal = true ∧ target.isRoot = false ∧
                  Note.notifications ending.2 = ofEvent machine.current ⟨⟨"complete"⟩, 7⟩
                    (.completed ending.1.current) ∧
                  Note.sent ending.2 =
                    [(.action, ⟨⟨"note"⟩, 3⟩), (.machine, ⟨⟨"$Finish"⟩, 7⟩)] ∧
                  (Note.sent session.2).getLast? = some (.machine, ⟨⟨"$Finish"⟩, 7⟩))) =
      some true := by
    simp only [Chart.ofLayers, Layer.compile, Layer.build, Table.declare_empty]
    decide +kernel
  obtain ⟨chart, compiled, evaluated⟩ := Option.bind_eq_some_iff.mp evaluated
  obtain ⟨machine, started, evaluated⟩ := Option.bind_eq_some_iff.mp evaluated
  obtain ⟨⟨next, notes⟩, processed, evaluated⟩ := Option.bind_eq_some_iff.mp evaluated
  obtain ⟨⟨final, later⟩, done, evaluated⟩ := Option.bind_eq_some_iff.mp evaluated
  obtain ⟨transition, selected, evaluated⟩ := Option.bind_eq_some_iff.mp evaluated
  obtain ⟨target, found, evaluated⟩ := Option.map_eq_some_iff.mp evaluated
  rw [toOption_eq_some_iff] at compiled started processed done
  obtain ⟨moves, targetEq, isFinal, inside, told, sentEq, lastSent⟩ := of_decide_eq_true evaluated
  have built : Chart.ofLayers [job] {} = .ok machine.chart := by
    rw [(startingIn_eq_ok started).2, compiled]
  obtain ⟨processes, queues⟩ := finish_queued_when_due built
  obtain ⟨_, _, processed', sends, lands⟩ := processes ⟨⟨"complete"⟩, 7⟩
  cases processed.symm.trans processed'
  have arrived := lands transition target selected moves found isFinal told
  have ends : EndsComposite _ ⟨⟨"complete"⟩, 7⟩ next notes :=
    ⟨told, transition, selected, moves, target, arrived ▸ found, isFinal, inside⟩
  obtain ⟨before, after, laterEq⟩ :=
    List.append_of_mem (Note.mem_sent.mp (List.mem_of_getLast? lastSent))
  have finishEq : machine.finish ⟨⟨"complete"⟩, 7⟩ = ⟨⟨"$Finish"⟩, 7⟩ := by
    rw [(startingIn_eq_ok started).2]
    rfl
  refine ⟨chart, machine, next, final, notes, later, compiled, started, processed,
    arrived.trans targetEq, ends, finishEq ▸ sends.due ends, ?_, done, before, after, ?_⟩
  · rw [sends.queue_eq, sentEq, (startingIn_eq_ok started).2]
    rfl
  · exact queues _ _ _ done before _ after laterEq

end Machine

end Statechart
