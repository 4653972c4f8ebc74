import Statechart.Run.Effect
import Statechart.Run.Itinerary
import Statechart.Run.Options

/-!
A running instance of a chart.

Events wait in a queue and are processed one at a time; events fired by actions join the same queue.
A failing action moves the machine to the status `error`, in which nothing is processed any more.

A machine may keep itself busy for ever.  Calls therefore take a limit on the number of events that
are processed, and are interrupted if it does not suffice.
-/

namespace Statechart

variable {δ γ : Type}

structure Machine (δ γ : Type) extends Work δ γ where
  chart : Chart δ γ
  options : Options := {}
  /-- The current leaf; the initial state until the machine is started. -/
  current : StateId
  status : Status := .initialized
  log : Itinerary Unit := {}
  lastError : Option MachineError := none
  /-- How many observers are attached; each is told every notification. -/
  observers : Nat := 0

structure Response (δ γ : Type) where
  machine : Machine δ γ
  notes : List (Note γ)
  result : Except MachineError Unit

namespace Machine

def startingIn (chart : Chart δ γ) (initial : StateId) (data : δ) :
    Except BuildError (Machine δ γ) :=
  if chart.forest.contains initial then
    .ok { data, chart, current := initial }
  else
    .error (.unknownState initial .machineInitial)

def create (chart : Chart δ γ) (data : δ) : Except BuildError (Machine δ γ) :=
  match chart.initial with
  | none => .error (.configuration .noInitialState)
  | some initial => startingIn chart initial data

def observe (machine : Machine δ γ) : Machine δ γ :=
  { machine with observers := machine.observers + 1 }

/-- What is told of a stage of handling an event; all but failures are logged only on request. -/
def tell (machine : Machine δ γ) (stage : Stage) (origin : StateId) (event : EventId)
    (context : γ) : List (Note γ) :=
  let logged :=
    match stage with
    | .failed _ => true
    | _ => machine.options.debugTrace
  (if logged then [.logged (.step stage origin event)] else []) ++
    [.notified (.step stage origin event context)]

def fail (machine : Machine δ γ) (error : MachineError) (event : EventId) (context : γ) :
    Machine δ γ × List (Note γ) :=
  ({ machine with status := .error, lastError := some error },
    machine.tell (.failed error) machine.current event context)

def process (machine : Machine δ γ) (occurrence : Occurrence γ) :
    Except Interruption (Machine δ γ × List (Note γ)) := do
  let origin := machine.current
  let tell (stage : Stage) := machine.tell stage origin occurrence.event occurrence.context
  let fired ←
    machine.chart.fire origin machine.options.finishEvent occurrence machine.toWork
  match fired with
  | none => return (machine, tell .began ++ tell .declined ++ tell .ended)
  | some effect =>
    let machine := { machine with toWork := effect.work }
    match effect.result with
    | .rested leaf =>
      let machine :=
        { machine with
          current := leaf
          log := machine.log.record ⟨origin, leaf, occurrence.event, ()⟩ }
      return (machine, tell .began ++ effect.notes ++ tell (.completed leaf) ++ tell .ended)
    | .failed error =>
      let (machine, notes) := machine.fail error occurrence.event occurrence.context
      return (machine, tell .began ++ effect.notes ++ notes ++ tell .ended)

def shutdown (machine : Machine δ γ) (context : γ) : Machine δ γ × List (Note γ) :=
  let event := machine.options.terminateEvent
  let effect := machine.chart.terminate machine.current event context machine.toWork
  let machine := { machine with toWork := effect.work }
  match effect.result with
  | none =>
    ({ machine with status := .terminated },
      effect.notes ++
        [.logged (.terminated machine.current), .notified (.terminated machine.current context)])
  | some error =>
    let (machine, notes) := machine.fail error event context
    (machine, effect.notes ++ notes)

/--
Processes events until the queue is empty or an action fails.  Also returns the context of the last
event.
-/
def processAll : Nat → Machine δ γ → γ →
    Except Interruption (Machine δ γ × List (Note γ) × γ)
  | limit, machine, context =>
    match machine.queue with
    | [] => .ok (machine, [], context)
    | occurrence :: queue =>
      match limit with
      | 0 => .error .tooManyEvents
      | limit + 1 => do
        let (machine, notes) ← process { machine with queue } occurrence
        if machine.status = .error then
          return (machine, notes, occurrence.context)
        else
          let (machine, later, last) ← processAll limit machine occurrence.context
          return (machine, notes ++ later, last)

def isFinished (machine : Machine δ γ) : Except Interruption Bool :=
  match machine.chart.forest.node? machine.current with
  | none => .error (.unknownState machine.current)
  | some node => .ok (node.isFinal && node.isRoot)

/--
Processes the queue of an idle machine, and terminates it if it comes to rest in a final top-level
state.
-/
def drain (limit : Nat) (machine : Machine δ γ) (context : γ) :
    Except Interruption (Machine δ γ × List (Note γ)) :=
  if machine.status = .idle then do
    let (machine, notes, last) ← processAll limit { machine with status := .busy } context
    if machine.status = .error then
      return (machine, notes)
    else
      let finished ← if machine.options.autoTerminate then machine.isFinished else pure false
      if finished then
        let (machine, later) := machine.shutdown last
        return (machine, notes ++ later)
      else
        return ({ machine with status := .idle }, notes)
  else
    .ok (machine, [])

def launch (limit : Nat) (machine : Machine δ γ) (context : γ) :
    Except Interruption (Machine δ γ × List (Note γ)) := do
  let event := machine.options.startEvent
  let effect ← machine.chart.start machine.current event context machine.toWork
  let machine := { machine with toWork := effect.work }
  match effect.result with
  | .rested leaf =>
    let machine := { machine with current := leaf, status := .idle }
    let (machine, later) ← machine.drain limit context
    return (machine, effect.notes ++
      [.logged (.started leaf), .notified (.started leaf context)] ++ later)
  | .failed error =>
    let (machine, notes) := machine.fail error event context
    return (machine, effect.notes ++ notes)

/-- Starts the machine; nothing happens if it is running already. -/
def start (limit : Nat) (machine : Machine δ γ) (context : γ) :
    Except Interruption (Response δ γ) := do
  match machine.status with
  | .initialized =>
    let (machine, notes) ← machine.launch limit context
    return ⟨machine, notes, .ok ()⟩
  | .idle | .busy => return ⟨machine, [], .ok ()⟩
  | status => return ⟨machine, [], .error (.invalidStatus status .start)⟩

/-- Ends the machine; nothing happens if it has ended already. -/
def terminate (machine : Machine δ γ) (context : γ) : Response δ γ :=
  match machine.status with
  | .terminated => ⟨machine, [], .ok ()⟩
  | .error => ⟨machine, [], .error (.invalidStatus .error .terminate)⟩
  | .initialized => ⟨{ machine with status := .terminated }, [], .ok ()⟩
  | .idle | .busy =>
    let (machine, notes) := machine.shutdown context
    ⟨machine, notes, .ok ()⟩

def enqueue (limit : Nat) (machine : Machine δ γ) (occurrence : Occurrence γ) :
    Except Interruption (Response δ γ) :=
  if machine.status.isTerminal then
    .ok ⟨machine, [], .error (.invalidStatus machine.status .fire)⟩
  else do
    let (machine, notes) ←
      drain limit { machine with queue := machine.queue ++ [occurrence] } occurrence.context
    return ⟨machine, .queued .caller occurrence :: notes, .ok ()⟩

/-- Fires an event; a machine that is not started yet is started first, if its options allow. -/
def fire (limit : Nat) (machine : Machine δ γ) (event : EventId) (context : γ) :
    Except Interruption (Response δ γ) :=
  if machine.status = .initialized then
    if machine.options.autoStart then do
      let (machine, notes) ← machine.launch limit context
      let response ← machine.enqueue limit ⟨event, context⟩
      return { response with notes := notes ++ response.notes }
    else
      .ok ⟨machine, [], .error .notRunning⟩
  else
    machine.enqueue limit ⟨event, context⟩

end Machine

end Statechart
