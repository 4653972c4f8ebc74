import Statechart.Proofs.Run.Queue

namespace Statechart

variable {δ γ : Type}

namespace Notification

def ofEvent (origin : StateId) (occurrence : Occurrence γ) (outcome : Stage) :
    List (Notification γ) :=
  [.step .began origin occurrence.event occurrence.context,
    .step outcome origin occurrence.event occurrence.context,
    .step .ended origin occurrence.event occurrence.context]

def isFailure : Notification γ → Bool
  | .step (.failed _) _ _ _ => true
  | _ => false

def isTermination : Notification γ → Bool
  | .terminated _ _ => true
  | _ => false

inductive Handlings (first : StateId) : List (Notification γ) → StateId → Prop where
  | none : Handlings first [] first
  | completed {told : List (Notification γ)} {origin : StateId}
      (before : Handlings first told origin) (occurrence : Occurrence γ) (target : StateId) :
      Handlings first (told ++ ofEvent origin occurrence (.completed target)) target
  | declined {told : List (Notification γ)} {origin : StateId}
      (before : Handlings first told origin) (occurrence : Occurrence γ) :
      Handlings first (told ++ ofEvent origin occurrence .declined) origin

/-- All that has been told when a machine has a status and a current state. -/
inductive Told (initial : StateId) : Status → StateId → List (Notification γ) → Prop where
  | silent : Told initial .initialized initial []
  | abandoned : Told initial .terminated initial []
  | collapsed (error : MachineError) (event : EventId) (context : γ) :
      Told initial .error initial [.step (.failed error) initial event context]
  | running {status : Status} {leaf current : StateId} {told : List (Notification γ)}
      (active : status = .idle ∨ status = .busy) (context : γ)
      (handled : Handlings leaf told current) :
      Told initial status current (.started leaf context :: told)
  | terminated {leaf current : StateId} {told : List (Notification γ)} (context : γ)
      (handled : Handlings leaf told current) (last : γ) :
      Told initial .terminated current
        (.started leaf context :: told ++ [.terminated current last])
  | brokenEvent {leaf current : StateId} {told : List (Notification γ)} (context : γ)
      (handled : Handlings leaf told current) (occurrence : Occurrence γ) (error : MachineError) :
      Told initial .error current
        (.started leaf context :: told ++ ofEvent current occurrence (.failed error))
  | brokenEnd {leaf current : StateId} {told : List (Notification γ)} (context : γ)
      (handled : Handlings leaf told current) (error : MachineError) (event : EventId) (last : γ) :
      Told initial .error current
        (.started leaf context :: told ++ [.step (.failed error) current event last])

theorem Handlings.calm {first current : StateId} {told : List (Notification γ)}
    (handled : Handlings first told current) :
    told.any isFailure = false ∧ told.any isTermination = false := by
  induction handled with
  | none => exact ⟨rfl, rfl⟩
  | completed _ _ _ ih =>
      rw [List.any_append, List.any_append, ih.1, ih.2]
      exact ⟨rfl, rfl⟩
  | declined _ _ ih =>
      rw [List.any_append, List.any_append, ih.1, ih.2]
      exact ⟨rfl, rfl⟩

namespace Told

variable {initial current : StateId} {status : Status} {word : List (Notification γ)}

theorem of_unstarted (told : Told initial status current word) (unstarted : status = .initialized) :
    current = initial ∧ word = [] := by
  cases told with
  | silent => exact ⟨rfl, rfl⟩
  | running active _ _ => simp [unstarted] at active
  | _ => contradiction

theorem of_active (told : Told initial status current word)
    (active : status = .idle ∨ status = .busy) :
    ∃ leaf context groups, word = .started leaf context :: groups ∧
      Handlings leaf groups current := by
  cases told with
  | running _ context handled => exact ⟨_, context, _, rfl, handled⟩
  | _ => simp at active

theorem failed_iff (told : Told initial status current word) :
    word.any isFailure = true ↔ status = .error := by
  cases told with
  | running active context handled =>
      rw [List.any_cons, handled.calm.1]
      rcases active with rfl | rfl <;> simp [isFailure]
  | terminated context handled last => simp [isFailure, handled.calm.1]
  | brokenEvent context handled occurrence error => simp [ofEvent, isFailure]
  | _ => simp [isFailure]

theorem ends_of_terminated (told : Told initial status current word)
    (ended : status = .terminated) :
    word = [] ∨ ∃ context, word.getLast? = some (.terminated current context) := by
  cases told with
  | abandoned => exact Or.inl rfl
  | terminated context handled last => exact Or.inr ⟨last, List.getLast?_concat⟩
  | running active _ _ => simp [ended] at active
  | _ => contradiction

theorem calm_of_idle (told : Told initial status current word) (idle : status = .idle) :
    (∃ leaf context rest, word = .started leaf context :: rest) ∧
      word.any isFailure = false ∧ word.any isTermination = false := by
  obtain ⟨leaf, context, groups, rfl, handled⟩ := told.of_active (Or.inl idle)
  exact ⟨⟨leaf, context, groups, rfl⟩, handled.calm⟩

end Told

end Notification

open Notification

namespace Note

@[simp] theorem notifications_nil : notifications ([] : List (Note γ)) = [] :=
  rfl

@[simp] theorem notifications_queued (sender : Sender) (occurrence : Occurrence γ)
    (notes : List (Note γ)) : notifications (.queued sender occurrence :: notes) =
      notifications notes :=
  rfl

@[simp] theorem notifications_logged (record : LogRecord) (notes : List (Note γ)) :
    notifications (.logged record :: notes) = notifications notes :=
  rfl

@[simp] theorem notifications_notified (notification : Notification γ) (notes : List (Note γ)) :
    notifications (.notified notification :: notes) = notification :: notifications notes :=
  rfl

end Note

namespace Machine

variable {machine next final : Machine δ γ} {notes : List (Note γ)} {occurrence : Occurrence γ}
  {initial : StateId} {word : List (Notification γ)}

@[simp] theorem notifications_tell (machine : Machine δ γ) (stage : Stage) (origin : StateId)
    (event : EventId) (context : γ) :
    Note.notifications (machine.tell stage origin event context) =
      [.step stage origin event context] := by
  unfold tell
  dsimp only
  split <;> split <;> rfl

@[simp] theorem notifications_tellOf (machine : Machine δ γ) (occurrence : Occurrence γ)
    (stage : Stage) :
    Note.notifications (machine.tellOf occurrence stage) =
      [.step stage machine.current occurrence.event occurrence.context] :=
  notifications_tell ..

theorem Handled.notifications_eq (handled : Handled machine occurrence next notes) :
    ∃ outcome, Note.notifications notes = ofEvent machine.current occurrence outcome ∧
      (outcome = .completed next.current ∧ next.status = machine.status ∨
        outcome = .declined ∧ next = machine ∨
        ∃ error, outcome = .failed error ∧ next.status = .error ∧
          next.current = machine.current) := by
  cases handled with
  | declined _ =>
      refine ⟨.declined, ?_, Or.inr (Or.inl ⟨rfl, rfl⟩)⟩
      simp [ofEvent]
  | @completed effect leaf fired _ =>
      refine ⟨.completed leaf, ?_, Or.inl ⟨rfl, rfl⟩⟩
      simp [ofEvent, (Chart.accounted_fire fired).quiet]
  | @failed effect error fired _ =>
      refine ⟨.failed error, ?_, Or.inr (Or.inr ⟨error, rfl, rfl, rfl⟩)⟩
      simp [ofEvent, (Chart.accounted_fire fired).quiet]

theorem told_of_handled (handled : Handled machine occurrence next notes)
    (status : machine.status = .busy) (told : Told initial machine.status machine.current word) :
    Told initial next.status next.current (word ++ Note.notifications notes) := by
  obtain ⟨leaf, context, groups, rfl, before⟩ := told.of_active (Or.inr status)
  obtain ⟨outcome, toldEq, ending⟩ := handled.notifications_eq
  rw [toldEq, List.cons_append]
  rcases ending with ⟨rfl, statusEq⟩ | ⟨rfl, rfl⟩ | ⟨error, rfl, statusEq, currentEq⟩
  · exact .running (Or.inr (statusEq.trans status)) context (before.completed occurrence _)
  · exact .running (Or.inr status) context (before.declined occurrence)
  · rw [statusEq, currentEq]
    exact .brokenEvent context before occurrence error

theorem notifications_shutdown (machine : Machine δ γ) (last : γ) :
    ((machine.shutdown last).1.status = .terminated ∧
        Note.notifications (machine.shutdown last).2 = [.terminated machine.current last] ∨
      ∃ error event, (machine.shutdown last).1.status = .error ∧
        Note.notifications (machine.shutdown last).2 =
          [.step (.failed error) machine.current event last]) ∧
    (machine.shutdown last).1.current = machine.current := by
  have quiet := (Chart.accounted_terminate machine.chart machine.current
    machine.options.terminateEvent last machine.toWork).quiet
  unfold shutdown fail
  dsimp only
  split
  · exact ⟨Or.inl ⟨rfl, by simp [quiet]⟩, rfl⟩
  · next error _ =>
    exact ⟨Or.inr ⟨error, machine.options.terminateEvent, rfl, by simp [quiet]⟩, rfl⟩

theorem told_of_shutdown (status : machine.status = .idle ∨ machine.status = .busy)
    (told : Told initial machine.status machine.current word) (last : γ) :
    Told initial (machine.shutdown last).1.status (machine.shutdown last).1.current
      (word ++ Note.notifications (machine.shutdown last).2) := by
  obtain ⟨leaf, context, groups, rfl, before⟩ := told.of_active status
  obtain ⟨⟨statusEq, toldEq⟩ | ⟨error, event, statusEq, toldEq⟩, currentEq⟩ :=
    machine.notifications_shutdown last
  · rw [statusEq, toldEq, currentEq]
    exact .terminated context before last
  · rw [statusEq, toldEq, currentEq]
    exact .brokenEnd context before error event last

theorem told_of_move (move : Move machine notes next)
    (told : Told initial machine.status machine.current word) :
    Told initial next.status next.current (word ++ Note.notifications notes) := by
  cases move with
  | @launch context effect leaf status started rested =>
      obtain ⟨_, rfl⟩ := told.of_unstarted status
      rw [Note.notifications_append, (Chart.accounted_carryOut started).quiet]
      exact .running (Or.inr rfl) context .none
  | @collapse context effect error status started failed =>
      obtain ⟨currentEq, rfl⟩ := told.of_unstarted status
      unfold fail
      rw [Note.notifications_append, (Chart.accounted_carryOut started).quiet, notifications_tell]
      exact currentEq ▸ .collapsed error machine.options.startEvent context
  | take status =>
      obtain ⟨leaf, context, groups, rfl, before⟩ := told.of_active status
      exact .running (Or.inr rfl) context (by simpa using before)
  | handle status waiting processed =>
      exact told_of_handled (handled_of_process processed) status told
  | settle status empty =>
      obtain ⟨leaf, context, groups, rfl, before⟩ := told.of_active (Or.inr status)
      exact .running (Or.inl rfl) context (by simpa using before)
  | @shutdown last status => exact told_of_shutdown status told last
  | abandon status =>
      obtain ⟨currentEq, rfl⟩ := told.of_unstarted status
      exact currentEq ▸ .abandoned
  | adjust options observers data => simpa using told

theorem told_of_moves (moves : Moves machine notes next)
    (told : Told initial machine.status machine.current word) :
    Told initial next.status next.current (word ++ Note.notifications notes) := by
  induction moves generalizing word with
  | refl =>
      rw [Note.notifications_nil, List.append_nil]
      exact told
  | step move _ ih =>
      rw [Note.notifications_append, ← List.append_assoc]
      exact ih (told_of_move move told)

/-- What a move tells that does not handle an event. -/
inductive Announces (machine : Machine δ γ) : List (Notification γ) → Prop where
  | nothing : Announces machine []
  | started {context : γ} {effect : Effect δ γ Chart.Outcome} {leaf : StateId}
      (status : machine.status = .initialized)
      (started : machine.chart.start machine.current machine.options.startEvent context
        machine.toWork = .ok effect)
      (rested : effect.result = .rested leaf) : Announces machine [.started leaf context]
  | failed (error : MachineError) (event : EventId) (context : γ) :
      Announces machine [.step (.failed error) machine.current event context]
  | terminated (context : γ) : Announces machine [.terminated machine.current context]

theorem announces_shutdown (machine : Machine δ γ) (last : γ) :
    machine.Announces (Note.notifications (machine.shutdown last).2) := by
  obtain ⟨⟨_, toldEq⟩ | ⟨error, event, _, toldEq⟩, _⟩ := machine.notifications_shutdown last
  · rw [toldEq]
    exact .terminated last
  · rw [toldEq]
    exact .failed error event last

theorem log_shutdown (machine : Machine δ γ) (last : γ) :
    (machine.shutdown last).1.log = machine.log := by
  unfold shutdown
  dsimp only
  split <;> rfl

/-- A move handles an event, or else leaves the log alone and tells of one thing at most. -/
theorem Move.handles_or_announces (move : Move machine notes next) :
    (∃ occurrence queue, machine.status = .busy ∧ machine.queue = occurrence :: queue ∧
      process { machine with queue } occurrence = .ok (next, notes)) ∨
    machine.Announces (Note.notifications notes) ∧ next.log = machine.log := by
  cases move with
  | handle status waiting processed => exact Or.inl ⟨_, _, status, waiting, processed⟩
  | launch status started rested =>
      refine Or.inr ⟨?_, rfl⟩
      rw [Note.notifications_append, (Chart.accounted_carryOut started).quiet]
      exact .started status started rested
  | @collapse context effect error status started failed =>
      refine Or.inr ⟨?_, rfl⟩
      unfold fail
      rw [Note.notifications_append, (Chart.accounted_carryOut started).quiet, notifications_tell]
      exact .failed error machine.options.startEvent context
  | @shutdown last status =>
      exact Or.inr ⟨announces_shutdown machine last, log_shutdown machine last⟩
  | _ => exact Or.inr ⟨.nothing, rfl⟩

theorem Move.handles_of_began {origin : StateId} {event : EventId} {context : γ}
    (move : Move machine notes next)
    (began : .step .began origin event context ∈ Note.notifications notes) :
    ∃ occurrence queue, machine.status = .busy ∧ machine.queue = occurrence :: queue ∧
      process { machine with queue } occurrence = .ok (next, notes) := by
  rcases move.handles_or_announces with handles | ⟨announces, _⟩
  · exact handles
  · generalize Note.notifications notes = word at announces began
    cases announces <;> simp at began

theorem began_of_ofEvent {origin current : StateId} {event : EventId} {context : γ}
    {outcome : Stage} {before after : List (Notification γ)} (proceeds : outcome ≠ .began)
    (split : before ++ .step .began origin event context :: after =
      ofEvent current occurrence outcome) :
    before = [] ∧ origin = current ∧ ⟨event, context⟩ = occurrence := by
  cases before with
  | nil =>
      cases split
      exact ⟨rfl, rfl, rfl⟩
  | cons _ before =>
      have later : .step .began origin event context ∈
          [Notification.step outcome current occurrence.event occurrence.context,
            .step .ended current occurrence.event occurrence.context] := by
        rw [← (List.cons.inj split).2]
        simp
      simp [proceeds.symm] at later

/-- Moves in the course of which an event is taken from the queue in a state, after something has
been told, and is handled as a whole. -/
inductive HandledDuring (machine : Machine δ γ) (told : List (Notification γ)) (origin : StateId)
    (occurrence : Occurrence γ) : List (Note γ) → Machine δ γ → Prop where
  | intro {taken handled final : Machine δ γ} {queue : List (Occurrence γ)}
      {first during rest : List (Note γ)} {outcome : Stage} (reached : Moves machine first taken)
      (toldEq : Note.notifications first = told) (status : taken.status = .busy)
      (currentEq : taken.current = origin) (waiting : taken.queue = occurrence :: queue)
      (processed : process { taken with queue } occurrence = .ok (handled, during))
      (duringEq : Note.notifications during = ofEvent origin occurrence outcome)
      (arrived : ∀ target, outcome = .completed target → handled.current = target)
      (onward : Moves handled rest final) :
      HandledDuring machine told origin occurrence (first ++ during ++ rest) final

theorem Moves.handledDuring {before after : List (Note γ)} {origin : StateId} {event : EventId}
    {context : γ}
    (moves : Moves machine (before ++ .notified (.step .began origin event context) :: after)
      final) :
    HandledDuring machine (Note.notifications before) origin ⟨event, context⟩
      (before ++ .notified (.step .began origin event context) :: after) final := by
  obtain ⟨taken, handled, first, inner, outer, rest, reached, move, onward, rfl, rfl⟩ :=
    moves.exists_move
  have began : .step .began origin event context ∈ Note.notifications
      (inner ++ .notified (.step .began origin event context) :: outer) := by simp
  obtain ⟨occurrence, queue, status, waiting, processed⟩ := move.handles_of_began began
  obtain ⟨outcome, duringEq, ending⟩ := (handled_of_process processed).notifications_eq
  have proceeds : outcome ≠ .began := by
    rcases ending with ⟨rfl, _⟩ | ⟨rfl, _⟩ | ⟨_, rfl, _⟩ <;> simp
  have arrived (target : StateId) (completed : outcome = .completed target) :
      handled.current = target := by
    rcases ending with ⟨rfl, _⟩ | ⟨rfl, _⟩ | ⟨_, rfl, _⟩
    · exact Stage.completed.inj completed
    · contradiction
    · contradiction
  -- The event is the one that was taken, since nothing is told before its beginning.
  have split := duringEq
  rw [Note.notifications_append, Note.notifications_notified] at split
  obtain ⟨silent, rfl, rfl⟩ := began_of_ofEvent proceeds split
  have toldEq : Note.notifications first = Note.notifications (first ++ inner) := by
    rw [Note.notifications_append, silent, List.append_nil]
  have whole := HandledDuring.intro reached toldEq status rfl waiting processed duringEq arrived
    onward
  simpa using whole

/--
An observer that is attached before anything is done with a machine is told by a fixed protocol, in
every session.  The status of the machine can be read off from what was told.  Whenever an event is
told to begin, it has just been taken from the queue, in the state that is told, and the
notifications that follow up to its end are of this event.
-/
theorem run_follows_protocol {chart : Chart δ γ} {initial : StateId} {data : δ}
    (created : startingIn chart initial data = .ok machine) {acts : List (Act δ γ)}
    (done : machine.observe.run acts = .ok (next, notes)) :
    Told initial next.status next.current (Note.notifications notes) ∧
    ((Note.notifications notes).any isFailure = true ↔ next.status = .error) ∧
    (next.status = .terminated → Note.notifications notes = [] ∨
      ∃ context, (Note.notifications notes).getLast? = some (.terminated next.current context)) ∧
    (next.status = .idle →
      (∃ leaf context rest, Note.notifications notes = .started leaf context :: rest) ∧
      (Note.notifications notes).any isFailure = false ∧
      (Note.notifications notes).any isTermination = false) ∧
    ∀ before origin event context after,
      notes = before ++ .notified (.step .began origin event context) :: after →
      HandledDuring machine.observe (Note.notifications before) origin ⟨event, context⟩ notes
        next := by
  obtain ⟨_, rfl⟩ := startingIn_eq_ok created
  have moves := moves_of_run done
  have told : Told initial next.status next.current ([] ++ Note.notifications notes) :=
    told_of_moves moves .silent
  rw [List.nil_append] at told
  refine ⟨told, told.failed_iff, told.ends_of_terminated, told.calm_of_idle, ?_⟩
  rintro before origin event context after rfl
  exact moves.handledDuring

theorem run_follows_protocol_relay :
    startingIn relay.chart ⟨"A"⟩ () = .ok relay ∧
      ∃ next notes,
        relay.observe.run [.ask 5 (.fire ⟨"stop"⟩ ()), .ask 5 (.terminate ())] =
          .ok (next, notes) ∧
        Note.notifications notes = .started ⟨"A"⟩ () ::
          ofEvent ⟨"A"⟩ ⟨⟨"go"⟩, ()⟩ (.completed ⟨"B"⟩) ++ ofEvent ⟨"B"⟩ ⟨⟨"stop"⟩, ()⟩ .declined ++
            [.terminated ⟨"B"⟩ ()] ∧
        Told ⟨"A"⟩ next.status next.current (Note.notifications notes) ∧ next.status ≠ .error := by
  have created : startingIn relay.chart ⟨"A"⟩ () = .ok relay := rfl
  have answered :
      (relay.observe.run [.ask 5 (.fire ⟨"stop"⟩ ()), .ask 5 (.terminate ())]).map
        (fun ending => Note.notifications ending.2) =
      .ok (.started ⟨"A"⟩ () ::
        ofEvent ⟨"A"⟩ ⟨⟨"go"⟩, ()⟩ (.completed ⟨"B"⟩) ++ ofEvent ⟨"B"⟩ ⟨⟨"stop"⟩, ()⟩ .declined ++
          [.terminated ⟨"B"⟩ ()]) := by decide +kernel
  cases done : relay.observe.run [.ask 5 (.fire ⟨"stop"⟩ ()), .ask 5 (.terminate ())] with
  | error interruption =>
      rw [done] at answered
      contradiction
  | ok ending =>
      obtain ⟨next, notes⟩ := ending
      rw [done] at answered
      have toldEq := Except.ok.inj answered
      obtain ⟨told, failed, _, _, _⟩ := run_follows_protocol created done
      refine ⟨created, next, notes, rfl, toldEq, told, fun error => ?_⟩
      have failure := failed.mpr error
      rw [show Note.notifications notes = _ from toldEq] at failure
      contradiction

end Machine

end Statechart
