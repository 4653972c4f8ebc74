import Statechart.Proofs.Run.Protocol

/-!
What is logged, and what observers are told.

A machine that traces logs whatever an observer is told, in the same order, and warnings besides.
A session with tracing and the same session without it go on in lockstep: they differ in the records
of the steps, and in nothing else.
-/

namespace Statechart

variable {δ γ : Type}

namespace LogRecord

def isWarning : LogRecord → Bool
  | .unhandled _ _ => true
  | _ => false

/-- Whether the record is about a step of a transition that did not fail. -/
def isTrace : LogRecord → Bool
  | .step (.failed _) _ _ => false
  | .step _ _ _ => true
  | _ => false

end LogRecord

namespace Notification

def record : Notification γ → LogRecord
  | .started state _ => .started state
  | .terminated state _ => .terminated state
  | .step stage origin event _ => .step stage origin event

/-- The level and the words in which the log speaks of a notification. -/
def headline : Notification γ → Level × String
  | .started _ _ => (.debug, "machine started")
  | .terminated _ _ => (.debug, "machine terminated")
  | .step .began _ _ _ => (.debug, "transition began")
  | .step (.completed _) _ _ _ => (.debug, "transition completed")
  | .step .declined _ _ _ => (.debug, "transition declined")
  | .step .ended _ _ _ => (.debug, "transition ended")
  | .step (.failed _) _ _ _ => (.error, "machine failed")

theorem headline_eq (notification : Notification γ) :
    (notification.record.level, notification.record.message) = notification.headline := by
  cases notification with
  | step stage origin event context => cases stage <;> rfl
  | _ => rfl

end Notification

namespace Note

def reported (notes : List (Note γ)) : List LogRecord :=
  (records notes).filter (!·.isWarning)

def isTrace : Note γ → Bool
  | .logged record => record.isTrace
  | _ => false

def withoutTrace (notes : List (Note γ)) : List (Note γ) :=
  notes.filter (!·.isTrace)

def Quiet (notes : List (Note γ)) : Prop :=
  ∀ note ∈ notes, match note with
    | .logged record => record.isWarning = true
    | .notified _ => False
    | _ => True

variable {notes later : List (Note γ)}

theorem Quiet.of_calls (ofCalls : ∀ note ∈ notes, note.OfCalls) : Quiet notes := by
  intro note member
  cases ofCalls note member with
  | warned => rfl
  | called | ran | fired => trivial

theorem Quiet.append (first : Quiet notes) (second : Quiet later) : Quiet (notes ++ later) :=
  fun note member => (List.mem_append.mp member).elim (first note) (second note)

theorem Quiet.notifications_eq (quiet : Quiet notes) : notifications notes = [] := by
  refine List.filterMap_eq_nil_iff.mpr fun note member => ?_
  have silent := quiet note member
  cases note <;> first | rfl | exact silent.elim

theorem Quiet.reported_eq (quiet : Quiet notes) : reported notes = [] := by
  refine List.filter_eq_nil_iff.mpr fun record member => ?_
  obtain ⟨note, member, recordEq⟩ := List.mem_filterMap.mp member
  have silent := quiet note member
  cases note with
  | logged logged =>
      cases recordEq
      simp_all
  | _ => contradiction

theorem Quiet.withoutTrace_eq (quiet : Quiet notes) : withoutTrace notes = notes := by
  refine List.filter_eq_self.mpr fun note member => ?_
  have silent := quiet note member
  cases note with
  | logged record =>
      cases record with
      | unhandled name event => rfl
      | _ => contradiction
  | _ => rfl

/-- The notes of a machine that traces, and those of one that does not but does the same. -/
structure Echoes (traced plain : List (Note γ)) : Prop where
  plain_eq : plain = withoutTrace traced
  told : reported traced = (notifications traced).map Notification.record

namespace Echoes

variable {traced traced' plain plain' : List (Note γ)}

theorem append (first : Echoes traced plain) (second : Echoes traced' plain') :
    Echoes (traced ++ traced') (plain ++ plain') := by
  constructor
  · rw [first.plain_eq, second.plain_eq, withoutTrace, withoutTrace, withoutTrace,
      List.filter_append]
  · have firstTold := first.told
    have secondTold := second.told
    rw [reported] at firstTold secondTold ⊢
    rw [records_append, List.filter_append, notifications_append, List.map_append, firstTold,
      secondTold]

theorem of_quiet (quiet : Quiet notes) : Echoes notes notes :=
  ⟨quiet.withoutTrace_eq.symm, by rw [quiet.reported_eq, quiet.notifications_eq]; rfl⟩

theorem nil : Echoes ([] : List (Note γ)) [] :=
  ⟨rfl, rfl⟩

theorem started (state : StateId) (context : γ) :
    Echoes [.logged (.started state), .notified (.started state context)]
      [.logged (.started state), .notified (.started state context)] :=
  ⟨rfl, rfl⟩

theorem terminated (state : StateId) (context : γ) :
    Echoes [.logged (.terminated state), .notified (.terminated state context)]
      [.logged (.terminated state), .notified (.terminated state context)] :=
  ⟨rfl, rfl⟩

end Echoes

end Note

open Note

namespace Chart

variable {chart : Chart δ γ} {work : Work δ γ} {effect : Effect δ γ Outcome}

theorem quiet_fire {current : StateId} {finishEvent : EventId} {occurrence : Occurrence γ}
    (fired : chart.fire current finishEvent occurrence work = .ok (some effect)) :
    Quiet effect.notes := by
  obtain ⟨_, _, _, _, carried, _, _, notesEq⟩ := fire_eq_ok_some fired
  rw [notesEq]
  refine (Quiet.of_calls (ofCalls_carryOut carried)).append fun note member => ?_
  obtain ⟨_, _, rfl⟩ := List.mem_map.mp member
  trivial

end Chart

/-- Two computations are interrupted alike, or return related results. -/
inductive InStep {α β : Type} (related : α → β → Prop) :
    Except Interruption α → Except Interruption β → Prop where
  | interrupted (interruption : Interruption) :
      InStep related (.error interruption) (.error interruption)
  | returned {a : α} {b : β} (results : related a b) : InStep related (.ok a) (.ok b)

namespace InStep

variable {α α' β β' : Type} {related : α → β → Prop} {related' : α' → β' → Prop}

theorem bind {first : Except Interruption α} {second : Except Interruption β}
    {rest : α → Except Interruption α'} {rest' : β → Except Interruption β'}
    (inStep : InStep related first second)
    (onward : ∀ a b, related a b → InStep related' (rest a) (rest' b)) :
    InStep related' (first >>= rest) (second >>= rest') := by
  cases inStep with
  | interrupted interruption => exact .interrupted interruption
  | returned results => exact onward _ _ results

theorem same (first : Except Interruption α) {rest : α → Except Interruption α'}
    {rest' : α → Except Interruption β'}
    (onward : ∀ a, first = .ok a → InStep related' (rest a) (rest' a)) :
    InStep related' (first >>= rest) (first >>= rest') := by
  cases first with
  | error interruption => exact .interrupted interruption
  | ok a => exact onward a rfl

theorem eq_map {first : Except Interruption α} {second : Except Interruption β} {f : α → β}
    (inStep : InStep (fun a b => b = f a) first second) : second = first.map f := by
  cases inStep with
  | interrupted interruption => rfl
  | returned results => exact congrArg Except.ok results

theorem exists_returned {a : α} {second : Except Interruption β}
    (inStep : InStep related (.ok a) second) : ∃ b, second = .ok b ∧ related a b := by
  cases inStep with
  | returned results => exact ⟨_, rfl, results⟩

end InStep

def Options.tracing (options : Options) (on : Bool) : Options :=
  { options with debugTrace := on }

def Act.tracing (on : Bool) : Act δ γ → Act δ γ
  | .configure options => .configure (options.tracing on)
  | act => act

namespace Machine

def tracing (machine : Machine δ γ) (on : Bool) : Machine δ γ :=
  { machine with options := machine.options.tracing on }

/-- A machine that traces and one that does not, each with what has happened meanwhile. -/
structure Alike (traced plain : Machine δ γ × List (Note γ)) : Prop where
  tracing : traced.1.options.debugTrace = true
  machine_eq : plain.1 = traced.1.tracing false
  echoes : Echoes traced.2 plain.2

variable {machine : Machine δ γ}

theorem echoes_tell (tracing : machine.options.debugTrace = true) (stage : Stage)
    (origin : StateId) (event : EventId) (context : γ) :
    Echoes (machine.tell stage origin event context)
      ((machine.tracing false).tell stage origin event context) := by
  have plain : (machine.tracing false).options.debugTrace = false := rfl
  cases stage <;> simp only [tell, tracing, plain] <;> exact ⟨rfl, rfl⟩

theorem alike_fail (tracing : machine.options.debugTrace = true) (error : MachineError)
    (event : EventId) (context : γ) :
    Alike (machine.fail error event context) ((machine.tracing false).fail error event context) :=
  ⟨tracing, rfl, echoes_tell tracing (.failed error) machine.current event context⟩

theorem alike_process (tracing : machine.options.debugTrace = true) (occurrence : Occurrence γ) :
    InStep Alike (machine.process occurrence) ((machine.tracing false).process occurrence) := by
  have tell (stage : Stage) := echoes_tell tracing stage machine.current occurrence.event
    occurrence.context
  refine InStep.same (machine.chart.fire machine.current machine.options.finishEvent occurrence
    machine.toWork) fun fired firedEq => ?_
  cases fired with
  | none =>
      exact .returned
        ⟨tracing, rfl, ((tell .began).append (tell .declined)).append (tell .ended)⟩
  | some effect =>
      have quiet := Echoes.of_quiet (Chart.quiet_fire firedEq)
      obtain ⟨work, notes, result⟩ := effect
      cases result with
      | rested leaf =>
          exact .returned ⟨tracing, rfl,
            (((tell .began).append quiet).append (tell (.completed leaf))).append (tell .ended)⟩
      | failed error =>
          exact .returned ⟨tracing, rfl,
            (((tell .began).append quiet).append (tell (.failed error))).append (tell .ended)⟩

theorem alike_processAll (tracing : machine.options.debugTrace = true) (limit : Nat)
    (context : γ) :
    InStep (fun traced plain =>
        Alike (traced.1, traced.2.1) (plain.1, plain.2.1) ∧ plain.2.2 = traced.2.2)
      (processAll limit machine context) (processAll limit (machine.tracing false) context) := by
  induction limit generalizing machine context with
  | zero =>
      unfold processAll
      rw [show (machine.tracing false).queue = machine.queue from rfl]
      cases machine.queue with
      | nil => exact .returned ⟨⟨tracing, rfl, .nil⟩, rfl⟩
      | cons occurrence queue => exact .interrupted _
  | succ limit ih =>
      unfold processAll
      rw [show (machine.tracing false).queue = machine.queue from rfl]
      cases machine.queue with
      | nil => exact .returned ⟨⟨tracing, rfl, .nil⟩, rfl⟩
      | cons occurrence queue =>
          have taken : ({ machine with queue } : Machine δ γ).options.debugTrace = true := tracing
          refine (alike_process taken occurrence).bind ?_
          rintro ⟨traced, notes⟩ ⟨plain, plainNotes⟩ ⟨tracing, machineEq, echoes⟩
          obtain rfl : plain = traced.tracing false := machineEq
          dsimp only at tracing ⊢
          rw [show (traced.tracing false).status = traced.status from rfl]
          split
          · exact .returned ⟨⟨tracing, rfl, echoes⟩, rfl⟩
          · refine (ih tracing occurrence.context).bind ?_
            rintro ⟨final, later, last⟩ ⟨plain, plainLater, plainLast⟩ ⟨alike, lastEq⟩
            exact .returned
              ⟨⟨alike.tracing, alike.machine_eq, echoes.append alike.echoes⟩, lastEq⟩

theorem alike_shutdown (tracing : machine.options.debugTrace = true) (context : γ) :
    Alike (machine.shutdown context) ((machine.tracing false).shutdown context) := by
  have quiet : Quiet (machine.chart.terminate machine.current machine.options.terminateEvent
      context machine.toWork).notes := .of_calls (Chart.ofCalls_runCalls _ _ _ _)
  unfold shutdown
  dsimp only [Machine.tracing, Options.tracing]
  generalize machine.chart.terminate machine.current machine.options.terminateEvent context
    machine.toWork = effect at quiet ⊢
  obtain ⟨work, notes, result⟩ := effect
  cases result with
  | none => exact ⟨tracing, rfl, (Echoes.of_quiet quiet).append (.terminated _ _)⟩
  | some error =>
      have entered : ({ machine with toWork := work } : Machine δ γ).options.debugTrace = true :=
        tracing
      obtain ⟨tracing, machineEq, echoes⟩ :=
        alike_fail entered error machine.options.terminateEvent context
      exact ⟨tracing, machineEq, (Echoes.of_quiet quiet).append echoes⟩

theorem alike_drain (tracing : machine.options.debugTrace = true) (limit : Nat) (context : γ) :
    InStep Alike (machine.drain limit context) ((machine.tracing false).drain limit context) := by
  unfold drain
  rw [show (machine.tracing false).status = machine.status from rfl]
  split
  · have busy : ({ machine with status := .busy } : Machine δ γ).options.debugTrace = true :=
      tracing
    refine (alike_processAll busy limit context).bind ?_
    rintro ⟨traced, notes, last⟩ ⟨plain, plainNotes, plainLast⟩
      ⟨⟨tracing, machineEq, echoes⟩, lastEq⟩
    obtain rfl : plain = traced.tracing false := machineEq
    obtain rfl : plainLast = last := lastEq
    dsimp only at tracing ⊢
    rw [show (traced.tracing false).status = traced.status from rfl]
    split
    · exact .returned ⟨tracing, rfl, echoes⟩
    · have ending (finished : Bool) : InStep Alike
          (if finished = true then
            .ok ((traced.shutdown plainLast).1, notes ++ (traced.shutdown plainLast).2)
          else .ok ({ traced with status := .idle }, notes))
          (if finished = true then
            .ok (((traced.tracing false).shutdown plainLast).1,
              plainNotes ++ ((traced.tracing false).shutdown plainLast).2)
          else .ok ({ traced.tracing false with status := .idle }, plainNotes)) := by
        cases finished with
        | true =>
            obtain ⟨tracing, machineEq, echoes'⟩ := alike_shutdown tracing plainLast
            exact .returned ⟨tracing, machineEq, echoes.append echoes'⟩
        | false => exact .returned ⟨tracing, rfl, echoes⟩
      rw [show (traced.tracing false).options.autoTerminate = traced.options.autoTerminate from rfl]
      split
      · exact InStep.same traced.isFinished fun finished _ => ending finished
      · exact ending false
  · exact .returned ⟨tracing, rfl, .nil⟩

theorem alike_launch (tracing : machine.options.debugTrace = true) (limit : Nat) (context : γ) :
    InStep Alike (machine.launch limit context)
      ((machine.tracing false).launch limit context) := by
  refine InStep.same (machine.chart.start machine.current machine.options.startEvent context
    machine.toWork) fun effect started => ?_
  have quiet := Echoes.of_quiet (.of_calls (Chart.ofCalls_carryOut started))
  obtain ⟨work, notes, result⟩ := effect
  cases result with
  | rested leaf =>
      have entered : ({ machine with toWork := work, current := leaf, status := .idle } :
          Machine δ γ).options.debugTrace = true := tracing
      refine (alike_drain entered limit context).bind ?_
      rintro ⟨traced, later⟩ ⟨plain, plainLater⟩ ⟨tracing, machineEq, echoes⟩
      exact .returned ⟨tracing, machineEq, (quiet.append (.started leaf context)).append echoes⟩
  | failed error =>
      have entered : ({ machine with toWork := work } : Machine δ γ).options.debugTrace = true :=
        tracing
      obtain ⟨tracing, machineEq, echoes⟩ :=
        alike_fail entered error machine.options.startEvent context
      exact .returned ⟨tracing, machineEq, quiet.append echoes⟩

structure Echoed (traced plain : Response δ γ) : Prop where
  alike : Alike (traced.machine, traced.notes) (plain.machine, plain.notes)
  result_eq : plain.result = traced.result

theorem Echoed.idle (tracing : machine.options.debugTrace = true)
    (result : Except MachineError Unit) :
    Echoed ⟨machine, [], result⟩ ⟨machine.tracing false, [], result⟩ :=
  ⟨⟨tracing, rfl, .nil⟩, rfl⟩

theorem echoed_enqueue (tracing : machine.options.debugTrace = true) (limit : Nat)
    (occurrence : Occurrence γ) :
    InStep Echoed (machine.enqueue limit occurrence)
      ((machine.tracing false).enqueue limit occurrence) := by
  unfold enqueue
  rw [show (machine.tracing false).status = machine.status from rfl]
  split
  · exact .returned (.idle tracing _)
  · have taken : ({ machine with queue := machine.queue ++ [occurrence] } :
        Machine δ γ).options.debugTrace = true := tracing
    have queued : Quiet [Note.queued .caller occurrence] := by simp [Quiet]
    refine (alike_drain taken limit occurrence.context).bind ?_
    rintro ⟨traced, notes⟩ ⟨plain, plainNotes⟩ ⟨tracing, machineEq, echoes⟩
    exact .returned ⟨⟨tracing, machineEq, (Echoes.of_quiet queued).append echoes⟩, rfl⟩

theorem echoed_start (tracing : machine.options.debugTrace = true) (limit : Nat) (context : γ) :
    InStep Echoed (machine.start limit context) ((machine.tracing false).start limit context) := by
  unfold start
  rw [show (machine.tracing false).status = machine.status from rfl]
  cases machine.status with
  | initialized =>
      refine (alike_launch tracing limit context).bind ?_
      rintro ⟨traced, notes⟩ ⟨plain, plainNotes⟩ alike
      exact .returned ⟨alike, rfl⟩
  | _ => exact .returned (.idle tracing _)

theorem echoed_fire (tracing : machine.options.debugTrace = true) (limit : Nat) (event : EventId)
    (context : γ) :
    InStep Echoed (machine.fire limit event context)
      ((machine.tracing false).fire limit event context) := by
  unfold fire
  rw [show (machine.tracing false).status = machine.status from rfl,
    show (machine.tracing false).options.autoStart = machine.options.autoStart from rfl]
  split
  · split
    · refine (alike_launch tracing limit context).bind ?_
      rintro ⟨traced, notes⟩ ⟨plain, plainNotes⟩ ⟨tracing, machineEq, echoes⟩
      obtain rfl : plain = traced.tracing false := machineEq
      refine (echoed_enqueue tracing limit ⟨event, context⟩).bind ?_
      rintro response plain ⟨⟨tracing, machineEq, echoes'⟩, resultEq⟩
      exact .returned ⟨⟨tracing, machineEq, echoes.append echoes'⟩, resultEq⟩
    · exact .returned (.idle tracing _)
  · exact echoed_enqueue tracing limit ⟨event, context⟩

theorem echoed_terminate (tracing : machine.options.debugTrace = true) (context : γ) :
    Echoed (machine.terminate context) ((machine.tracing false).terminate context) := by
  unfold terminate
  rw [show (machine.tracing false).status = machine.status from rfl]
  cases machine.status with
  | initialized => exact ⟨⟨tracing, rfl, .nil⟩, rfl⟩
  | terminated => exact .idle tracing _
  | error => exact .idle tracing _
  | _ => exact ⟨alike_shutdown tracing context, rfl⟩

theorem echoed_act (tracing : machine.options.debugTrace = true) (act : Act δ γ) :
    InStep Echoed (machine.act (act.tracing true))
      ((machine.tracing false).act (act.tracing false)) := by
  cases act with
  | ask limit request =>
      cases request with
      | start context => exact echoed_start tracing limit context
      | fire event context => exact echoed_fire tracing limit event context
      | terminate context => exact .returned (echoed_terminate tracing context)
  | configure options => exact .returned ⟨⟨rfl, rfl, .nil⟩, rfl⟩
  | observe => exact .returned ⟨⟨tracing, rfl, .nil⟩, rfl⟩
  | alter data => exact .returned ⟨⟨tracing, rfl, .nil⟩, rfl⟩

def transcript (machine : Machine δ γ) :
    List (Act δ γ) → Except Interruption (List (Response δ γ))
  | [] => .ok []
  | act :: rest => do
    let response ← machine.act act
    let later ← response.machine.transcript rest
    return response :: later

end Machine

def Response.withoutTrace (response : Response δ γ) : Response δ γ :=
  ⟨response.machine.tracing false, Note.withoutTrace response.notes, response.result⟩

namespace Machine

variable {machine : Machine δ γ}

theorem alike_run (tracing : machine.options.debugTrace = true) (acts : List (Act δ γ)) :
    InStep Alike (machine.run (acts.map (Act.tracing true)))
      ((machine.tracing false).run (acts.map (Act.tracing false))) := by
  induction acts generalizing machine with
  | nil => exact .returned ⟨tracing, rfl, .nil⟩
  | cons act acts ih =>
      refine (echoed_act tracing act).bind ?_
      rintro ⟨traced, notes, result⟩ ⟨plain, plainNotes, plainResult⟩
        ⟨⟨tracing, machineEq, echoes⟩, _⟩
      obtain rfl : plain = traced.tracing false := machineEq
      refine (ih tracing).bind ?_
      rintro ⟨final, later⟩ ⟨plain, plainLater⟩ ⟨tracing, machineEq, echoes'⟩
      exact .returned ⟨tracing, machineEq, echoes.append echoes'⟩

theorem transcript_withoutTrace (tracing : machine.options.debugTrace = true)
    (acts : List (Act δ γ)) :
    (machine.tracing false).transcript (acts.map (Act.tracing false)) =
      (machine.transcript (acts.map (Act.tracing true))).map (List.map Response.withoutTrace) := by
  apply InStep.eq_map
  induction acts generalizing machine with
  | nil => exact .returned rfl
  | cons act acts ih =>
      refine (echoed_act tracing act).bind ?_
      rintro ⟨traced, notes, result⟩ ⟨plain, plainNotes, plainResult⟩
        ⟨⟨tracing, machineEq, echoes⟩, resultEq⟩
      obtain rfl : plain = traced.tracing false := machineEq
      obtain rfl : plainResult = result := resultEq
      obtain rfl : plainNotes = Note.withoutTrace notes := echoes.plain_eq
      refine (ih tracing).bind ?_
      rintro later plainLater rfl
      exact .returned rfl

end Machine

namespace Note

theorem notifications_withoutTrace (notes : List (Note γ)) :
    notifications (withoutTrace notes) = notifications notes := by
  rw [notifications, withoutTrace, List.filterMap_filter]
  congr 1
  funext note
  cases note <;> simp [isTrace]

theorem records_withoutTrace (notes : List (Note γ)) :
    records (withoutTrace notes) = (records notes).filter (!·.isTrace) := by
  rw [records, withoutTrace, List.filterMap_filter, records, List.filter_filterMap]
  congr 1
  funext note
  cases note <;> simp [isTrace, Option.filter]

end Note

namespace Machine

/--
With tracing on, what is logged in a session apart from warnings is what an observer is told, record
by record, and worded accordingly.  Without tracing, the same session goes the same way: every call
leaves the same machine and gives the same result, and all that is missing are the records of the
steps that did not fail.
-/
theorem run_logs_as_told (machine : Machine δ γ) (acts : List (Act δ γ)) :
    (machine.observe.tracing false).transcript (acts.map (Act.tracing false)) =
      ((machine.observe.tracing true).transcript (acts.map (Act.tracing true))).map
        (List.map Response.withoutTrace) ∧
    ∀ final notes,
      (machine.observe.tracing true).run (acts.map (Act.tracing true)) = .ok (final, notes) →
      Note.reported notes = (Note.notifications notes).map Notification.record ∧
      (Note.reported notes).map (fun record => (record.level, record.message)) =
        (Note.notifications notes).map Notification.headline ∧
      ∃ plainNotes,
        (machine.observe.tracing false).run (acts.map (Act.tracing false)) =
          .ok (final.tracing false, plainNotes) ∧
        Note.records plainNotes = (Note.records notes).filter (!·.isTrace) ∧
        Note.notifications plainNotes = Note.notifications notes := by
  have tracing : (machine.observe.tracing true).options.debugTrace = true := rfl
  refine ⟨transcript_withoutTrace tracing acts, fun final notes done => ?_⟩
  have inStep : InStep Alike ((machine.observe.tracing true).run (acts.map (Act.tracing true)))
      ((machine.observe.tracing false).run (acts.map (Act.tracing false))) :=
    alike_run tracing acts
  rw [done] at inStep
  obtain ⟨⟨plain, plainNotes⟩, plainDone, _, machineEq, echoes⟩ := inStep.exists_returned
  obtain rfl : plain = final.tracing false := machineEq
  obtain rfl : plainNotes = Note.withoutTrace notes := echoes.plain_eq
  have told : Note.reported notes = (Note.notifications notes).map Notification.record :=
    echoes.told
  refine ⟨told, ?_, _, plainDone, Note.records_withoutTrace notes,
    Note.notifications_withoutTrace notes⟩
  rw [told, List.map_map]
  exact List.map_congr_left fun notification _ => notification.headline_eq

/-- No action is registered as `greet`, which runs on entry to `A`; the exit from `B` fails. -/
def chatty : Machine Unit Unit where
  data := ()
  current := ⟨"A"⟩
  chart :=
    { forest :=
        { nodes :=
            [{ id := ⟨"A"⟩, entry := ⟨[⟨.standIn "greet" none, 0⟩]⟩ },
              { id := ⟨"B"⟩
                exit := ⟨[⟨.action ⟨0, fun _ data => ⟨data, [], some "stuck"⟩⟩, 0⟩]⟩ }] }
      table :=
        { groups :=
            [⟨⟨"A"⟩, ⟨"go"⟩, [{ source := ⟨"A"⟩, target := ⟨"B"⟩, event := ⟨"go"⟩ }]⟩,
              ⟨⟨"B"⟩, ⟨"back"⟩, [{ source := ⟨"B"⟩, target := ⟨"A"⟩, event := ⟨"back"⟩ }]⟩] }
      initial := none }

def chattyActs : List (Act Unit Unit) :=
  [⟨"stop"⟩, ⟨"go"⟩, ⟨"back"⟩].map fun event => .ask 5 (.fire event ())

theorem run_logs_as_told_chatty :
    ∃ final notes plainNotes,
      (chatty.observe.tracing true).run (chattyActs.map (Act.tracing true)) = .ok (final, notes) ∧
      (chatty.observe.tracing false).run (chattyActs.map (Act.tracing false)) =
        .ok (final.tracing false, plainNotes) ∧
      final.status = .error ∧ (Note.records notes).length = 11 ∧
      Note.reported notes = (Note.notifications notes).map Notification.record ∧
      Note.records plainNotes =
        [.unhandled "greet" ⟨"$Start"⟩, .started ⟨"A"⟩,
          .step (.failed (.actionFailure ⟨"B"⟩ ⟨"back"⟩ "stuck")) ⟨"B"⟩ ⟨"back"⟩] := by
  have session : ((chatty.observe.tracing true).run (chattyActs.map (Act.tracing true))).map
      (fun ending => (ending.1.status, (Note.records ending.2).length,
        (Note.records ending.2).filter (!·.isTrace))) =
      .ok (.error, 11,
        [.unhandled "greet" ⟨"$Start"⟩, .started ⟨"A"⟩,
          .step (.failed (.actionFailure ⟨"B"⟩ ⟨"back"⟩ "stuck")) ⟨"B"⟩ ⟨"back"⟩]) := by decide +kernel
  cases done : (chatty.observe.tracing true).run (chattyActs.map (Act.tracing true)) with
  | error interruption =>
      rw [done] at session
      contradiction
  | ok ending =>
      obtain ⟨final, notes⟩ := ending
      rw [done] at session
      obtain ⟨failed, rest⟩ := Prod.mk.inj (Except.ok.inj session)
      obtain ⟨length, kept⟩ := Prod.mk.inj rest
      obtain ⟨told, _, plainNotes, plainDone, plainRecords, _⟩ :=
        (run_logs_as_told chatty chattyActs).2 final notes done
      exact ⟨final, notes, plainNotes, rfl, plainDone, failed, length, told,
        plainRecords.trans kept⟩

end Machine

end Statechart
