import Statechart.Proofs.Run.Session
import Statechart.Proofs.Run.Step

namespace Statechart

variable {δ γ : Type}

namespace Note

def begun (notes : List (Note γ)) : List (Occurrence γ) :=
  notes.filterMap fun
    | .notified (.step .began _ event context) => some ⟨event, context⟩
    | _ => none

def ended (notes : List (Note γ)) : List (Occurrence γ) :=
  notes.filterMap fun
    | .notified (.step .ended _ event context) => some ⟨event, context⟩
    | _ => none

end Note

/-- The events that wait, and the one that is being handled. -/
structure Desk (γ : Type) where
  waiting : List (Occurrence γ)
  handled : Option (Occurrence γ) := none

def Note.movesDesk : Note γ → Bool
  | .queued _ _ => true
  | .notified (.step .began _ _ _) => true
  | .notified (.step .ended _ _ _) => true
  | _ => false

theorem Note.lists_of_stays {note : Note γ} (notes : List (Note γ))
    (stays : note.movesDesk = false) :
    Note.occurrences (note :: notes) = Note.occurrences notes ∧
      Note.begun (note :: notes) = Note.begun notes ∧
      Note.ended (note :: notes) = Note.ended notes := by
  cases note with
  | queued sender occurrence => contradiction
  | notified notification =>
      cases notification with
      | step stage origin event context =>
          cases stage with
          | began => contradiction
          | ended => contradiction
          | completed target => exact ⟨rfl, rfl, rfl⟩
          | declined => exact ⟨rfl, rfl, rfl⟩
          | failed error => exact ⟨rfl, rfl, rfl⟩
      | started state context => exact ⟨rfl, rfl, rfl⟩
      | terminated state context => exact ⟨rfl, rfl, rfl⟩
  | called call => exact ⟨rfl, rfl, rfl⟩
  | ran handler => exact ⟨rfl, rfl, rfl⟩
  | logged record => exact ⟨rfl, rfl, rfl⟩

/--
Notes in which every event is handled in its turn: whatever is put on the queue waits behind the
others, and the first one is taken when the one before has been handled to the end.
-/
inductive InTurn : Desk γ → List (Note γ) → Desk γ → Prop where
  | nil {desk : Desk γ} : InTurn desk [] desk
  | queued {waiting : List (Occurrence γ)} {handled : Option (Occurrence γ)} {sender : Sender}
      {occurrence : Occurrence γ} {notes : List (Note γ)} {final : Desk γ}
      (rest : InTurn ⟨waiting ++ [occurrence], handled⟩ notes final) :
      InTurn ⟨waiting, handled⟩ (.queued sender occurrence :: notes) final
  | began {waiting : List (Occurrence γ)} {origin : StateId} {event : EventId} {context : γ}
      {notes : List (Note γ)} {final : Desk γ}
      (rest : InTurn ⟨waiting, some ⟨event, context⟩⟩ notes final) :
      InTurn ⟨⟨event, context⟩ :: waiting, none⟩
        (.notified (.step .began origin event context) :: notes) final
  | ended {waiting : List (Occurrence γ)} {origin : StateId} {event : EventId} {context : γ}
      {notes : List (Note γ)} {final : Desk γ} (rest : InTurn ⟨waiting, none⟩ notes final) :
      InTurn ⟨waiting, some ⟨event, context⟩⟩
        (.notified (.step .ended origin event context) :: notes) final
  | other {desk : Desk γ} {note : Note γ} {notes : List (Note γ)} {final : Desk γ}
      (stays : note.movesDesk = false) (rest : InTurn desk notes final) :
      InTurn desk (note :: notes) final

namespace InTurn

variable {desk middle final : Desk γ} {notes later : List (Note γ)}

theorem append (first : InTurn desk notes middle) (second : InTurn middle later final) :
    InTurn desk (notes ++ later) final := by
  induction first with
  | nil => exact second
  | queued _ ih => exact .queued (ih second)
  | began _ ih => exact .began (ih second)
  | ended _ ih => exact .ended (ih second)
  | other stays _ ih => exact .other stays (ih second)

theorem exists_middle (whole : InTurn desk (notes ++ later) final) :
    ∃ middle, InTurn desk notes middle ∧ InTurn middle later final := by
  induction notes generalizing desk with
  | nil => exact ⟨desk, .nil, whole⟩
  | cons note notes ih =>
      cases whole with
      | queued rest =>
          obtain ⟨middle, first, second⟩ := ih rest
          exact ⟨middle, .queued first, second⟩
      | began rest =>
          obtain ⟨middle, first, second⟩ := ih rest
          exact ⟨middle, .began first, second⟩
      | ended rest =>
          obtain ⟨middle, first, second⟩ := ih rest
          exact ⟨middle, .ended first, second⟩
      | other stays rest =>
          obtain ⟨middle, first, second⟩ := ih rest
          exact ⟨middle, .other stays first, second⟩

theorem occurrences_eq (inTurn : InTurn desk notes final) :
    desk.waiting ++ Note.occurrences notes = Note.begun notes ++ final.waiting := by
  induction inTurn with
  | nil => exact List.append_nil _
  | queued _ ih =>
      rw [List.append_assoc] at ih
      exact ih
  | began _ ih => exact congrArg (List.cons _) ih
  | ended _ ih => exact ih
  | other stays _ ih =>
      obtain ⟨occurrencesEq, begunEq, _⟩ := Note.lists_of_stays _ stays
      rw [occurrencesEq, begunEq, ih]

theorem ended_eq (inTurn : InTurn desk notes final) :
    desk.handled.toList ++ Note.begun notes = Note.ended notes ++ final.handled.toList := by
  induction inTurn with
  | nil => exact List.append_nil _
  | queued _ ih => exact ih
  | began _ ih => exact ih
  | ended _ ih => exact congrArg (List.cons _) ih
  | other stays _ ih =>
      obtain ⟨_, begunEq, endedEq⟩ := Note.lists_of_stays _ stays
      rw [begunEq, endedEq, ih]

theorem of_began {before after : List (Note γ)} {origin : StateId} {event : EventId} {context : γ}
    (inTurn : InTurn desk (before ++ .notified (.step .began origin event context) :: after)
      final) :
    desk.handled.toList ++ Note.begun before = Note.ended before ∧
      ∃ waiting, desk.waiting ++ Note.occurrences before =
        Note.begun before ++ ⟨event, context⟩ :: waiting := by
  obtain ⟨middle, first, second⟩ := inTurn.exists_middle
  have accounted := first.occurrences_eq
  have handledEq := first.ended_eq
  cases second with
  | began rest =>
      rw [Option.toList_none, List.append_nil] at handledEq
      exact ⟨handledEq, _, accounted⟩
  | other stays rest => contradiction

theorem of_quiet {waiting : List (Occurrence γ)} {handled : Option (Occurrence γ)}
    (quiet : Note.notifications notes = []) :
    InTurn ⟨waiting, handled⟩ notes ⟨waiting ++ Note.occurrences notes, handled⟩ := by
  induction notes generalizing waiting with
  | nil =>
      rw [Note.occurrences, List.filterMap_nil, List.append_nil]
      exact .nil
  | cons note notes ih =>
      cases note with
      | queued sender occurrence =>
          have rest : InTurn ⟨waiting ++ [occurrence], handled⟩ notes
              ⟨waiting ++ [occurrence] ++ Note.occurrences notes, handled⟩ := ih quiet
          rw [List.append_assoc] at rest
          exact .queued rest
      | notified notification => contradiction
      | called call => exact .other rfl (ih quiet)
      | ran handler => exact .other rfl (ih quiet)
      | logged record => exact .other rfl (ih quiet)

variable {machine next : Machine δ γ} {occurrence : Occurrence γ}

theorem of_tellOf {stage : Stage}
    (told : InTurn desk [.notified
      (.step stage machine.current occurrence.event occurrence.context)] final) :
    InTurn desk (machine.tellOf occurrence stage) final := by
  unfold Machine.tellOf Machine.tell
  dsimp only
  split <;> split
  · exact .other rfl told
  · contradiction
  · exact .other rfl told
  · exact told

theorem of_handled {waiting : List (Occurrence γ)} (queueEq : machine.queue = waiting)
    (handled : Machine.Handled machine occurrence next notes) :
    InTurn ⟨occurrence :: waiting, none⟩ notes ⟨next.queue, none⟩ := by
  have began : InTurn ⟨occurrence :: waiting, none⟩ (machine.tellOf occurrence .began)
      ⟨waiting, some occurrence⟩ := of_tellOf (.began .nil)
  have ended (waiting : List (Occurrence γ)) : InTurn ⟨waiting, some occurrence⟩
      (machine.tellOf occurrence .ended) ⟨waiting, none⟩ := of_tellOf (.ended .nil)
  have told (waiting : List (Occurrence γ)) {stage : Stage}
      (stays : ∀ origin event (context : γ),
        (Note.notified (.step stage origin event context)).movesDesk = false) :
      InTurn ⟨waiting, some occurrence⟩ (machine.tellOf occurrence stage)
        ⟨waiting, some occurrence⟩ := of_tellOf (.other (stays _ _ _) .nil)
  have stepped {effect : Effect δ γ Chart.Outcome} (accounted : effect.Accounted machine.toWork) :
      InTurn ⟨waiting, some occurrence⟩ effect.notes ⟨effect.work.queue, some occurrence⟩ := by
    rw [accounted.queue_eq, queueEq]
    exact of_quiet accounted.quiet
  cases handled with
  | declined fired =>
      rw [queueEq]
      exact (began.append (told waiting fun _ _ _ => rfl)).append (ended waiting)
  | completed fired rested =>
      have step := stepped (Chart.accounted_fire fired)
      exact ((began.append step).append (told _ fun _ _ _ => rfl)).append (ended _)
  | failed fired failed =>
      have step := stepped (Chart.accounted_fire fired)
      exact ((began.append step).append (told _ fun _ _ _ => rfl)).append (ended _)

theorem of_accounted {α : Type} {work : Work δ γ} {effect : Effect δ γ α}
    (accounted : effect.Accounted work) :
    InTurn ⟨work.queue, none⟩ effect.notes ⟨effect.work.queue, none⟩ := by
  rw [accounted.queue_eq]
  exact of_quiet accounted.quiet

theorem tell_failed (machine : Machine δ γ) (error : MachineError) (event : EventId) (context : γ) :
    InTurn desk (machine.tell (.failed error) machine.current event context) desk :=
  .other rfl (.other rfl .nil)

theorem of_shutdown (machine : Machine δ γ) (context : γ) :
    InTurn ⟨machine.queue, none⟩ (machine.shutdown context).2
      ⟨(machine.shutdown context).1.queue, none⟩ := by
  have step : InTurn ⟨machine.queue, none⟩ _ _ :=
    of_accounted (Chart.accounted_terminate machine.chart machine.current
      machine.options.terminateEvent context machine.toWork)
  unfold Machine.shutdown
  dsimp only
  split
  · exact step.append (.other rfl (.other rfl .nil))
  · exact step.append (tell_failed _ _ _ _)

theorem of_move (move : Machine.Move machine notes next) :
    InTurn ⟨machine.queue, none⟩ notes ⟨next.queue, none⟩ := by
  cases move with
  | launch status started rested =>
      exact (of_accounted (Chart.accounted_carryOut started)).append
        (.other rfl (.other rfl .nil))
  | collapse status started failed =>
      exact (of_accounted (Chart.accounted_carryOut started)).append (tell_failed _ _ _ _)
  | take status => exact .queued .nil
  | handle status waiting processed =>
      rw [waiting]
      exact of_handled rfl (Machine.handled_of_process processed)
  | settle status empty => exact .nil
  | shutdown status => exact of_shutdown machine _
  | abandon status => exact .nil
  | adjust options observers data => exact .nil

theorem of_moves (moves : Machine.Moves machine notes next) :
    InTurn ⟨machine.queue, none⟩ notes ⟨next.queue, none⟩ := by
  induction moves with
  | refl => exact .nil
  | step move _ ih => exact (of_move move).append ih

end InTurn

namespace Machine

variable {machine next : Machine δ γ} {notes : List (Note γ)}

/-- A machine that is not started yet or has come to rest has nothing left to handle. -/
def CaughtUp (machine : Machine δ γ) : Prop :=
  machine.status = .initialized ∨ machine.status = .idle → machine.queue = []

theorem caughtUp_of_move (move : Move machine notes next) (caughtUp : machine.CaughtUp) :
    next.CaughtUp := by
  intro resting
  cases move with
  | launch status started rested => simp [launched] at resting
  | collapse status started failed => simp [fail] at resting
  | take status => simp at resting
  | handle status waiting processed =>
      rcases (handled_of_process processed).status_eq with same | failed
      · rw [same] at resting
        simp [status] at resting
      · simp [failed] at resting
  | settle status empty => exact empty
  | @shutdown context status =>
      rcases status_shutdown machine context with ended | failed
      · simp [ended] at resting
      · simp [failed] at resting
  | abandon status => simp at resting
  | adjust options observers data => exact caughtUp resting

theorem caughtUp_of_moves (moves : Moves machine notes next) (caughtUp : machine.CaughtUp) :
    next.CaughtUp := by
  induction moves with
  | refl => exact caughtUp
  | step move _ ih => exact ih (caughtUp_of_move move caughtUp)

theorem launch_handles_all {limit : Nat} {context : γ} (unstarted : machine.status = .initialized)
    (empty : machine.queue = []) (done : launch limit machine context = .ok (next, notes))
    (idle : next.status = .idle) :
    Note.begun notes = Note.occurrences notes ∧ Note.ended notes = Note.occurrences notes := by
  have moves := (moves_of_launch unstarted done).1
  have inTurn := InTurn.of_moves moves
  rw [empty, caughtUp_of_moves moves (fun _ => empty) (Or.inr idle)] at inTurn
  have accounted := inTurn.occurrences_eq
  have handled := inTurn.ended_eq
  rw [List.nil_append, List.append_nil] at accounted
  rw [Option.toList_none, List.nil_append, List.append_nil] at handled
  exact ⟨accounted.symm, by rw [← handled, accounted]⟩

theorem fire_of_unstarted {limit : Nat} {event : EventId} {context : γ} {response : Response δ γ}
    (unstarted : machine.status = .initialized)
    (fired : machine.fire limit event context = .ok response)
    (accepted : response.result = .ok ()) :
    ∃ launched first later, machine.launch limit context = .ok (launched, first) ∧
      launched.status = .idle ∧
      response.notes = first ++ .queued .caller ⟨event, context⟩ :: later := by
  cases fired_of_fire fired with
  | launched _ _ launchedEq enqueuedEq =>
      cases enqueued_of_enqueue enqueuedEq with
      | refused _ => contradiction
      | taken live _ =>
          have idle := (moves_of_launch unstarted launchedEq).2.resolve_right live
          exact ⟨_, _, _, launchedEq, idle, rfl⟩
  | refused _ _ => contradiction
  | running started _ => contradiction

/--
Throughout a session events are handled in the order in which they were put on the queue.  All that
were put there have been taken or still wait; a machine that has not started or has come to rest has
handled them all.  When one is taken, all before have been handled to the end.  What is fired while
a machine is started by an event is handled before that event is put on the queue.
-/
theorem run_handles_in_turn {chart : Chart δ γ} {initial : StateId} {data : δ}
    (created : startingIn chart initial data = .ok machine) {acts : List (Act δ γ)}
    (done : machine.run acts = .ok (next, notes)) :
    Note.occurrences notes = Note.begun notes ++ next.queue ∧
    (next.status = .initialized ∨ next.status = .idle → next.queue = []) ∧
    (∀ before after origin event context,
      notes = before ++ .notified (.step .began origin event context) :: after →
      Note.begun before = Note.ended before ∧
        ∃ waiting, Note.occurrences before = Note.begun before ++ ⟨event, context⟩ :: waiting) ∧
    ∀ limit event context response, next.status = .initialized →
      next.fire limit event context = .ok response → response.result = .ok () →
      ∃ launched first later,
        next.launch limit context = .ok (launched, first) ∧
        response.notes = first ++ .queued .caller ⟨event, context⟩ :: later ∧
        Note.begun first = Note.occurrences first ∧ Note.ended first = Note.occurrences first := by
  obtain ⟨_, rfl⟩ := startingIn_eq_ok created
  have moves := moves_of_run done
  have inTurn := InTurn.of_moves moves
  have caughtUp : next.CaughtUp := caughtUp_of_moves moves fun _ => rfl
  refine ⟨inTurn.occurrences_eq, caughtUp, ?_, ?_⟩
  · rintro before after origin event context rfl
    exact inTurn.of_began
  · intro limit event context response unstarted fired accepted
    obtain ⟨launched, first, later, launchedEq, idle, notesEq⟩ :=
      fire_of_unstarted unstarted fired accepted
    have handled := launch_handles_all unstarted (caughtUp (Or.inl unstarted)) launchedEq idle
    exact ⟨launched, first, later, launchedEq, notesEq, handled⟩

/-- `A` fires `go` when it is entered; `go` leads from `A` to `B` and back. -/
def relay : Machine Unit Unit where
  data := ()
  current := ⟨"A"⟩
  chart :=
    { forest :=
        { nodes :=
            [{ id := ⟨"A"⟩
               entry := ⟨[⟨.action ⟨0, fun _ data => ⟨data, [⟨⟨"go"⟩, ()⟩], none⟩⟩, 0⟩]⟩ },
              { id := ⟨"B"⟩ }] }
      table :=
        { groups :=
            [⟨⟨"A"⟩, ⟨"go"⟩, [{ source := ⟨"A"⟩, target := ⟨"B"⟩, event := ⟨"go"⟩ }]⟩,
              ⟨⟨"B"⟩, ⟨"go"⟩, [{ source := ⟨"B"⟩, target := ⟨"A"⟩, event := ⟨"go"⟩ }]⟩] }
      initial := none }

theorem run_handles_in_turn_relay :
    startingIn relay.chart ⟨"A"⟩ () = .ok relay ∧
      ∃ next notes, relay.run [.ask 5 (.fire ⟨"stop"⟩ ())] = .ok (next, notes) ∧
        next.status = .idle ∧ Note.begun notes = [⟨⟨"go"⟩, ()⟩, ⟨⟨"stop"⟩, ()⟩] ∧
        Note.occurrences notes = Note.begun notes ++ next.queue ∧ next.queue = [] := by
  have created : startingIn relay.chart ⟨"A"⟩ () = .ok relay := rfl
  have answered : (relay.run [.ask 5 (.fire ⟨"stop"⟩ ())]).map
      (fun ending => (ending.1.status, Note.begun ending.2)) =
      .ok (.idle, [⟨⟨"go"⟩, ()⟩, ⟨⟨"stop"⟩, ()⟩]) := by decide +kernel
  cases done : relay.run [.ask 5 (.fire ⟨"stop"⟩ ())] with
  | error interruption =>
      rw [done] at answered
      contradiction
  | ok ending =>
      obtain ⟨next, notes⟩ := ending
      rw [done] at answered
      obtain ⟨idle, begun⟩ := Prod.mk.inj (Except.ok.inj answered)
      obtain ⟨accounted, caughtUp, _, _⟩ := run_handles_in_turn created done
      exact ⟨created, next, notes, rfl, idle, begun, accounted, caughtUp (Or.inr idle)⟩

end Machine

end Statechart
