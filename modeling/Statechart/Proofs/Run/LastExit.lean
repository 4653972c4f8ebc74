import Statechart.Proofs.Run.History
import Statechart.Proofs.Run.Safety

namespace Statechart

variable {δ γ : Type}

def Stage.fails : Stage → Bool
  | .failed _ => true
  | _ => false

namespace Note

/-- Whether a call, given what happens next, is broken off by a failure of one of its actions. -/
def breaksOff : List (Note γ) → Bool
  | [] => false
  | .called _ :: _ => false
  | .notified (.step (.failed _) _ _ _) :: _ => true
  | .notified _ :: _ => false
  | _ :: notes => breaksOff notes

def exited : List (Note γ) → List StateId
  | [] => []
  | .called (.exit state) :: notes =>
    if breaksOff notes then exited notes else state :: exited notes
  | _ :: notes => exited notes

variable {notes : List (Note γ)}

theorem breaksOff_append (silent : calls notes = []) (quiet : notifications notes = [])
    (later : List (Note γ)) : breaksOff (notes ++ later) = breaksOff later := by
  induction notes with
  | nil => rfl
  | cons note notes ih =>
      cases note with
      | called call => contradiction
      | notified notification => contradiction
      | ran handler => exact ih silent quiet
      | queued sender occurrence => exact ih silent quiet
      | logged record => exact ih silent quiet

theorem exited_append (silent : calls notes = []) (later : List (Note γ)) :
    exited (notes ++ later) = exited later := by
  induction notes with
  | nil => rfl
  | cons note notes ih =>
      cases note with
      | called call => contradiction
      | notified notification => exact ih silent
      | ran handler => exact ih silent
      | queued sender occurrence => exact ih silent
      | logged record => exact ih silent

end Note

namespace Forest

variable {forest : Forest δ γ} {composite state : StateId}

def parts (forest : Forest δ γ) (composite state : StateId) : Bool :=
  (forest.node? state).any fun node => node.parent = some composite && !node.isFinal

theorem parts_iff : forest.parts composite state = true ↔
    ∃ node, forest.node? state = some node ∧ node.parent = some composite ∧
      node.isFinal = false := by
  simp [parts, Option.any_eq_true]

/-- The last of these states that is a child of a composite, and not a final one. -/
def lastPart? (forest : Forest δ γ) (composite : StateId) (states : List StateId) :
    Option StateId :=
  (states.filter (forest.parts composite)).getLast?

theorem parts_of_lastPart? {states : List StateId} {child : StateId}
    (last : forest.lastPart? composite states = some child) :
    forest.parts composite child = true :=
  (List.mem_filter.mp (List.mem_of_getLast? last)).2

/-- The composite keeps history itself, or lies below a state with deep history. -/
def Tracks (forest : Forest δ γ) (composite : StateId) : Prop :=
  (∃ node, forest.node? composite = some node ∧ node.history ≠ .none) ∨
    ∃ outer node, outer ∈ forest.ancestors composite ∧ outer ≠ composite ∧
      forest.node? outer = some node ∧ node.history = .deep

end Forest

namespace Chart

variable {chart : Chart δ γ} {memory : Memory} {composite state : StateId}

def rememberExit (chart : Chart δ γ) (memory : Memory) (state : StateId) : Memory :=
  (chart.forest.node? state).elim memory fun node => chart.rememberCall memory (.exit node)

theorem child?_rememberExit : (chart.rememberExit memory state).child? composite =
    if chart.forest.tracksHistory composite ∧ chart.forest.parts composite state then some state
    else memory.child? composite := by
  unfold rememberExit Forest.parts
  cases found : chart.forest.node? state with
  | none => simp
  | some node =>
      cases Forest.id_of_node? found
      cases final : node.isFinal with
      | true => simp [rememberCall, final]
      | false =>
          by_cases parent : node.parent = some composite
          · by_cases tracked : chart.forest.tracksHistory composite = true
            · simp [child?_rememberCall_exit final parent tracked, tracked, parent, final]
            · simp [rememberCall, remember, final, parent, tracked]
          · have kept : (chart.rememberCall memory (.exit node)).child? composite =
                memory.child? composite :=
              child?_rememberCall_of_ne fun other same => by
                cases same
                exact parent
            simp [kept, parent]

theorem child?_foldl_rememberExit (states : List StateId) :
    (states.foldl chart.rememberExit memory).child? composite =
      if chart.forest.tracksHistory composite then
        (chart.forest.lastPart? composite states).or (memory.child? composite)
      else memory.child? composite := by
  unfold Forest.lastPart?
  induction states generalizing memory with
  | nil => simp
  | cons state states ih =>
      rw [List.foldl_cons, ih, child?_rememberExit]
      by_cases tracked : chart.forest.tracksHistory composite = true
      · by_cases listed : chart.forest.parts composite state = true
        · cases last : (states.filter (chart.forest.parts composite)).getLast? <;>
            simp [tracked, listed, List.getLast?_cons, last]
        · simp [tracked, listed]
      · simp [tracked]

theorem tracksHistory_iff (wellFormed : chart.forest.WellFormed) :
    chart.forest.tracksHistory composite = true ↔ chart.forest.Tracks composite := by
  constructor
  · intro tracked
    cases found : chart.forest.node? composite with
    | none =>
        rw [Forest.tracksHistory, Forest.lineage_of_unknown found] at tracked
        contradiction
    | some node =>
        have up := wellFormed.ascends_lineage composite
        have lineageEq := wellFormed.lineage_eq_cons found
        rw [lineageEq] at up
        simp only [Forest.tracksHistory, lineageEq, Bool.or_eq_true, bne_iff_ne,
          List.any_eq_true, beq_iff_eq] at tracked
        rcases tracked with keeps | ⟨outer, above, deep⟩
        · exact Or.inl ⟨node, found, keeps⟩
        · refine Or.inr ⟨outer.id, outer, ?_, ?_, up.tail.found_of_mem above, deep⟩
          · rw [Forest.ancestors, lineageEq]
            exact List.mem_map_of_mem (List.mem_cons_of_mem node above)
          · have apart := up.ids_nodup
            rw [List.map_cons, List.nodup_cons, Forest.id_of_node? found] at apart
            exact fun same => apart.1 (same ▸ List.mem_map_of_mem above)
  · rintro (⟨node, found, keeps⟩ | ⟨outer, node, around, _, found, deep⟩)
    · exact tracksHistory_of_keeps wellFormed found keeps
    · cases Forest.id_of_node? found
      exact tracksHistory_of_deep wellFormed found deep around

end Chart

namespace Chart

variable {chart : Chart δ γ} {memory : Memory} {composite : StateId}

/-- Nothing that is remembered is passed over when a composite with history is entered. -/
def Unfiltered (chart : Chart δ γ) (memory : Memory) : Prop :=
  ∀ mode node, mode ≠ .none → chart.forest.node? node.id = some node →
    chart.remembered? memory mode node = memory.child? node.id

theorem child?_of_exits (states : List StateId) :
    (states.foldl chart.rememberExit {}).child? composite =
      if chart.forest.tracksHistory composite then chart.forest.lastPart? composite states
      else none := by
  rw [child?_foldl_rememberExit]
  split
  · exact Option.or_none
  · rfl

theorem unfiltered_of_exits (wellFormed : chart.forest.WellFormed) (states : List StateId) :
    chart.Unfiltered (states.foldl chart.rememberExit {}) := by
  intro mode node keeps found
  unfold remembered?
  split
  · contradiction
  · cases remembered : (states.foldl chart.rememberExit {}).child? node.id with
    | none => rfl
    | some child =>
        rw [child?_of_exits] at remembered
        split at remembered
        · obtain ⟨below, belowFound, parent, _⟩ :=
            Forest.parts_iff.mp (Forest.parts_of_lastPart? remembered)
          have listed : child ∈ node.children :=
            (wellFormed.mem_children_iff found).mpr ⟨below, belowFound, parent⟩
          simp [listed, Forest.contains_of_node? belowFound]
        · contradiction

end Chart

/-- These are the exits that completed in a step, if a failure is told next where one is to be
told; and they account for the memory. -/
structure Effect.Leaves {α : Type} (effect : Effect δ γ α) (chart : Chart δ γ) (work : Work δ γ)
    (fails : Bool) (states : List StateId) : Prop where
  memory_eq : effect.work.memory = states.foldl chart.rememberExit work.memory
  exited_eq : ∀ later, Note.breaksOff later = fails →
    Note.exited (effect.notes ++ later) = states ++ Note.exited later

namespace Chart

variable {chart : Chart δ γ} {scope : Scope γ} {work : Work δ γ}

theorem memory_runCall_of_some {call : PlannedCall δ γ} {error : MachineError}
    (failed : (chart.runCall scope call work).result = some error) :
    (chart.runCall scope call work).work.memory = work.memory := by
  rw [result_runCall] at failed
  unfold runCall
  simp only [Effect.result_noting, failed]
  rfl

def exitOf : PlannedCall δ γ → List StateId
  | .exit node => [node.id]
  | _ => []

theorem rememberCall_of_holds {call : PlannedCall δ γ} (held : chart.forest.Holds call)
    (memory : Memory) :
    chart.rememberCall memory call = (exitOf call).foldl chart.rememberExit memory := by
  cases call with
  | exit node =>
      have found : chart.forest.node? node.id = some node := held
      simp [exitOf, rememberExit, found]
  | perform transition => rfl
  | enter node => rfl

theorem foldl_rememberCall_of_held {calls : List (PlannedCall δ γ)}
    (held : ∀ call ∈ calls, chart.forest.Holds call) (memory : Memory) :
    calls.foldl chart.rememberCall memory =
      (calls.flatMap exitOf).foldl chart.rememberExit memory := by
  induction calls generalizing memory with
  | nil => rfl
  | cons call calls ih =>
      rw [List.foldl_cons, ih fun call member => held call (List.mem_cons_of_mem _ member),
        rememberCall_of_holds (held call List.mem_cons_self), List.flatMap_cons, List.foldl_append]

/-- What is looked up on landing has been left by exits, those of the same step included. -/
theorem unfiltered_of_landing (wellFormed : chart.forest.WellFormed) (states : List StateId)
    {calls : List (PlannedCall δ γ)} (held : ∀ call ∈ calls, chart.forest.Holds call) :
    chart.Unfiltered (calls.foldl chart.rememberCall (states.foldl chart.rememberExit {})) := by
  rw [foldl_rememberCall_of_held held, ← List.foldl_append]
  exact unfiltered_of_exits wellFormed _

def approach (chart : Chart δ γ) (current : StateId) (transition : Transition δ γ) :
    List (PlannedCall δ γ) :=
  chart.unwind current transition.source ++
    passage transition (chart.forest.lineage transition.source)
      (chart.forest.lineage transition.target)

theorem transitionPlan_eq_landAfter {current : StateId} {transition : Transition δ γ}
    {memory : Memory} (moves : transition.kind ≠ .internal) :
    chart.transitionPlan memory current transition =
      chart.landAfter memory (chart.approach current transition) transition.target :=
  transitionPlan_of_moves moves

theorem held_of_approach (wellFormed : chart.WellFormed) {current : StateId}
    {occurrence : Occurrence γ} {transition : Transition δ γ}
    (selected : chart.select? current occurrence = some transition)
    (moves : transition.kind ≠ .internal) :
    ∀ call ∈ chart.approach current transition, chart.forest.Holds call := by
  intro call member
  apply (grounded_transitionPlan wellFormed selected {}).held
  rw [transitionPlan_eq_landAfter moves, landAfter, Plan.calls_after]
  exact List.mem_append_left _ member

theorem exited_called {call : PlannedCall δ γ} {later : List (Note γ)} :
    Note.exited (.called call.named :: later) =
      (if Note.breaksOff later then [] else exitOf call) ++ Note.exited later := by
  cases call with
  | exit node =>
      by_cases breaks : Note.breaksOff later <;>
        simp [Note.exited, exitOf, Call.named, breaks]
  | perform transition => simp [Note.exited, exitOf, Call.named]
  | enter node => simp [Note.exited, exitOf, Call.named]

theorem exited_runCall (call : PlannedCall δ γ) (later : List (Note γ)) :
    Note.exited ((chart.runCall scope call work).notes ++ later) =
      (if Note.breaksOff later then [] else exitOf call) ++ Note.exited later := by
  have silent := calls_runActions scope call.owner call.actions work
  have quiet := (accounted_runActions scope call.owner call.actions work).quiet
  rw [notes_runCall, List.cons_append, exited_called, Note.breaksOff_append silent quiet,
    Note.exited_append silent]

theorem breaksOff_runCall (call : PlannedCall δ γ) (later : List (Note γ)) :
    Note.breaksOff ((chart.runCall scope call work).notes ++ later) = false := by
  rw [notes_runCall]
  rfl

theorem breaksOff_runCalls {calls : List (PlannedCall δ γ)} {later : List (Note γ)}
    (breaks : Note.breaksOff later = (chart.runCalls scope calls work).result.isSome) :
    Note.breaksOff ((chart.runCalls scope calls work).notes ++ later) = false := by
  cases calls with
  | nil => exact breaks
  | cons call calls =>
      cases result : (chart.runCall scope call work).result with
      | some error =>
          rw [runCalls_cons_of_error result]
          exact breaksOff_runCall call later
      | none =>
          rw [runCalls_cons_of_none result, Effect.notes_noting, List.append_assoc]
          exact breaksOff_runCall call _

theorem exists_leaves_runCalls {calls : List (PlannedCall δ γ)}
    (held : ∀ call ∈ calls, chart.forest.Holds call) :
    ∃ states, (chart.runCalls scope calls work).Leaves chart work
      (chart.runCalls scope calls work).result.isSome states := by
  induction calls generalizing work with
  | nil => exact ⟨[], rfl, fun _ _ => rfl⟩
  | cons call calls ih =>
      cases result : (chart.runCall scope call work).result with
      | some error =>
          rw [runCalls_cons_of_error result, result]
          -- A call that fails is noted like any other; what is told next makes the difference.
          refine ⟨[], memory_runCall_of_some result, fun later breaks => ?_⟩
          rw [exited_runCall, breaks]
          rfl
      | none =>
          obtain ⟨states, leaves⟩ := @ih (chart.runCall scope call work).work
            fun call member => held call (List.mem_cons_of_mem _ member)
          rw [runCalls_cons_of_none result]
          refine ⟨exitOf call ++ states, ?_, fun later breaks => ?_⟩
          · rw [Effect.work_noting, leaves.memory_eq, memory_runCall call work result,
              rememberCall_of_holds (held call List.mem_cons_self), List.foldl_append]
          · rw [Effect.notes_noting, List.append_assoc, exited_runCall,
              leaves.exited_eq later breaks, breaksOff_runCalls breaks, List.append_assoc]
            rfl

def Outcome.fails : Outcome → Bool
  | .rested _ => false
  | .failed _ => true

variable {plan : Plan δ γ} {effect : Effect δ γ Outcome}

theorem exists_leaves_carryOut (held : ∀ call ∈ plan.calls, chart.forest.Holds call)
    (done : chart.carryOut scope plan work = .ok effect) :
    ∃ states, effect.Leaves chart work effect.result.fails states := by
  obtain ⟨states, leaves⟩ : ∃ states, (chart.runCalls scope plan.calls work).Leaves chart work
      (chart.runCalls scope plan.calls work).result.isSome states := exists_leaves_runCalls held
  refine ⟨states, ?_⟩
  unfold carryOut at done
  dsimp only at done
  split at done
  · next error failed =>
    cases done
    rw [failed] at leaves
    exact ⟨leaves.memory_eq, leaves.exited_eq⟩
  · next succeeds =>
    rw [succeeds] at leaves
    cases rest : plan.rest with
    | error interruption =>
        rw [rest] at done
        contradiction
    | ok leaf =>
        rw [rest] at done
        cases done
        exact ⟨leaves.memory_eq, leaves.exited_eq⟩

theorem exists_leaves_start (wellFormed : chart.forest.WellFormed) {current : StateId}
    (known : chart.forest.contains current = true) {event : EventId} {context : γ}
    (started : chart.start current event context work = .ok effect) :
    ∃ states, effect.Leaves chart work effect.result.fails states :=
  exists_leaves_carryOut (grounded_startPlan wellFormed known work.memory).held started

theorem exists_leaves_terminate (wellFormed : chart.forest.WellFormed) (current : StateId)
    (event : EventId) (context : γ) :
    ∃ states, (chart.terminate current event context work).Leaves chart work
      (chart.terminate current event context work).result.isSome states :=
  exists_leaves_runCalls fun _ member =>
    held_of_ascends (wellFormed.ascends_lineage current) (Or.inl member)

theorem exists_leaves_fire (wellFormed : chart.WellFormed) {current : StateId}
    {finishEvent : EventId} {occurrence : Occurrence γ}
    (fired : chart.fire current finishEvent occurrence work = .ok (some effect)) :
    ∃ states, effect.Leaves chart work effect.result.fails states := by
  obtain ⟨transition, carried, finish, selected, carriedEq, resultEq, workEq, notesEq⟩ :=
    fire_eq_ok_some fired
  have held := (grounded_transitionPlan wellFormed selected work.memory).held
  obtain ⟨states, leaves⟩ := exists_leaves_carryOut held carriedEq
  have silent : Note.calls (finish.map (Note.queued .machine)) = [] := calls_queued _ finish
  have quiet : Note.notifications (finish.map (Note.queued .machine)) = [] := by
    simp [Note.notifications, List.filterMap_map]
  refine ⟨states, by rw [workEq]; exact leaves.memory_eq, fun later breaks => ?_⟩
  rw [notesEq, List.append_assoc, leaves.exited_eq, Note.exited_append silent]
  rw [Note.breaksOff_append silent quiet, breaks, resultEq]

end Chart

namespace Machine

variable {machine next : Machine δ γ} {notes : List (Note γ)} {occurrence : Occurrence γ}

/-- Exits account for what a machine remembers after something has happened. -/
structure Remembers (machine : Machine δ γ) (notes : List (Note γ)) (next : Machine δ γ) :
    Prop where
  memory_eq : next.memory = (Note.exited notes).foldl machine.chart.rememberExit machine.memory
  exited_append : ∀ later, Note.exited (notes ++ later) = Note.exited notes ++ Note.exited later

theorem remembers_of_states {states : List StateId}
    (memoryEq : next.memory = states.foldl machine.chart.rememberExit machine.memory)
    (exitedEq : ∀ later, Note.exited (notes ++ later) = states ++ Note.exited later) :
    Remembers machine notes next := by
  have statesEq : Note.exited notes = states := by
    have alone := exitedEq []
    rwa [List.append_nil, Note.exited, List.append_nil] at alone
  exact ⟨statesEq ▸ memoryEq, statesEq ▸ exitedEq⟩

theorem remembers_of_silent (memoryEq : next.memory = machine.memory)
    (silent : Note.calls notes = []) : Remembers machine notes next := by
  have nothing : next.memory = [].foldl machine.chart.rememberExit machine.memory := memoryEq
  exact remembers_of_states nothing (Note.exited_append silent)

@[simp] theorem exited_tell (machine : Machine δ γ) (stage : Stage) (origin : StateId)
    (event : EventId) (context : γ) (later : List (Note γ)) :
    Note.exited (machine.tell stage origin event context ++ later) = Note.exited later :=
  Note.exited_append (calls_tell machine stage origin event context) later

@[simp] theorem breaksOff_tell (machine : Machine δ γ) (stage : Stage) (origin : StateId)
    (event : EventId) (context : γ) (later : List (Note γ)) :
    Note.breaksOff (machine.tell stage origin event context ++ later) = stage.fails := by
  unfold tell
  cases stage <;> dsimp only <;> split <;> rfl

theorem Handled.remembers (wellFormed : machine.chart.WellFormed)
    (handled : Handled machine occurrence next notes) : Remembers machine notes next := by
  cases handled with
  | declined fired => exact remembers_of_silent rfl (by simp)
  | @completed effect leaf fired rested =>
      obtain ⟨states, leaves⟩ := Chart.exists_leaves_fire wellFormed fired
      refine remembers_of_states leaves.memory_eq fun later => ?_
      simp only [tellOf, List.append_assoc, exited_tell]
      rw [leaves.exited_eq, exited_tell, exited_tell]
      rw [breaksOff_tell, rested]
      rfl
  | @failed effect error fired failed =>
      obtain ⟨states, leaves⟩ := Chart.exists_leaves_fire wellFormed fired
      refine remembers_of_states leaves.memory_eq fun later => ?_
      simp only [tellOf, List.append_assoc, exited_tell]
      rw [leaves.exited_eq, exited_tell, exited_tell]
      rw [breaksOff_tell, failed]
      rfl

theorem remembers_shutdown (placed : machine.Placed) (context : γ) :
    Remembers machine (machine.shutdown context).2 (machine.shutdown context).1 := by
  obtain ⟨states, leaves⟩ : ∃ states, (machine.chart.terminate machine.current
      machine.options.terminateEvent context machine.toWork).Leaves machine.chart machine.toWork
      _ states := Chart.exists_leaves_terminate placed.wellFormed.forest machine.current _ context
  unfold shutdown
  dsimp only
  split
  · next succeeds =>
    refine remembers_of_states leaves.memory_eq fun later => ?_
    rw [List.append_assoc, leaves.exited_eq]
    · rfl
    · rw [succeeds]
      rfl
  · next error failed =>
    refine remembers_of_states leaves.memory_eq fun later => ?_
    unfold fail
    rw [List.append_assoc, leaves.exited_eq, exited_tell]
    rw [breaksOff_tell, failed]
    rfl

theorem Move.remembers (placed : machine.Placed) (move : Move machine notes next) :
    Remembers machine notes next := by
  cases move with
  | launch status started rested =>
      obtain ⟨states, leaves⟩ :=
        Chart.exists_leaves_start placed.wellFormed.forest placed.known started
      refine remembers_of_states leaves.memory_eq fun later => ?_
      rw [List.append_assoc, leaves.exited_eq]
      · rfl
      · rw [rested]
        rfl
  | collapse status started failed =>
      obtain ⟨states, leaves⟩ :=
        Chart.exists_leaves_start placed.wellFormed.forest placed.known started
      refine remembers_of_states leaves.memory_eq fun later => ?_
      unfold fail
      rw [List.append_assoc, leaves.exited_eq, exited_tell]
      rw [breaksOff_tell, failed]
      rfl
  | @handle _ occurrence queue _ status waiting processed =>
      have taken : Remembers { machine with queue } notes next :=
        (handled_of_process processed).remembers placed.wellFormed
      exact ⟨taken.memory_eq, taken.exited_append⟩
  | @shutdown context status => exact remembers_shutdown placed context
  | _ => exact remembers_of_silent rfl rfl

theorem Remembers.trans {final : Machine δ γ} {later : List (Note γ)}
    (first : Remembers machine notes next) (rest : Remembers next later final)
    (chartEq : next.chart = machine.chart) : Remembers machine (notes ++ later) final where
  memory_eq := by
    rw [rest.memory_eq, first.memory_eq, chartEq, first.exited_append, List.foldl_append]
  exited_append last := by
    rw [List.append_assoc, first.exited_append, rest.exited_append, first.exited_append,
      List.append_assoc]

theorem Moves.remembers (placed : machine.Placed) (moves : Moves machine notes next) :
    Remembers machine notes next := by
  induction moves with
  | refl => exact remembers_of_silent rfl rfl
  | step move _ ih => exact (move.remembers placed).trans (ih (placed.of_move move)) move.chart_eq

theorem unfiltered_of_moves {chart : Chart δ γ} {initial : StateId} {data : δ}
    (placed : Placed { data, chart, current := initial })
    (moves : Moves { data, chart, current := initial } notes machine) :
    chart.Unfiltered machine.memory ∧
    ∀ occurrence transition, chart.select? machine.current occurrence = some transition →
      transition.kind ≠ .internal →
      chart.Unfiltered
        ((chart.approach machine.current transition).foldl chart.rememberCall machine.memory) := by
  have wellFormed : chart.WellFormed := placed.wellFormed
  have memoryEq : machine.memory = (Note.exited notes).foldl chart.rememberExit {} :=
    (moves.remembers placed).memory_eq
  rw [memoryEq]
  refine ⟨Chart.unfiltered_of_exits wellFormed.forest _, ?_⟩
  intro occurrence transition selected moves
  exact Chart.unfiltered_of_landing wellFormed.forest _
    (Chart.held_of_approach wellFormed selected moves)

/--
What a machine remembers of a composite is the child of it whose exit completed last, final ones
apart, provided that the composite tracks history.  It is one that the composite still has, so that
it is never passed over when a step lands on the composite or goes down through it.
-/
theorem run_remembers_last_exit {chain : List (Layer δ γ)} {registry : Registry δ γ}
    {chart : Chart δ γ} (compiled : Chart.ofLayers chain registry = .ok chart) {initial : StateId}
    {data : δ} (created : startingIn chart initial data = .ok machine) {acts : List (Act δ γ)}
    (done : machine.run acts = .ok (next, notes)) :
    (∀ composite child, next.memory.child? composite = some child ↔
      chart.forest.Tracks composite ∧
        chart.forest.lastPart? composite (Note.exited notes) = some child) ∧
    (∀ composite child, next.memory.child? composite = some child →
      ∃ outer node, chart.forest.node? composite = some outer ∧
        chart.forest.node? child = some node ∧ child ∈ outer.children ∧
        node.parent = some composite ∧ node.isFinal = false) ∧
    ∀ told middle, Moves machine told middle →
      chart.Unfiltered middle.memory ∧
      ∀ occurrence transition, chart.select? middle.current occurrence = some transition →
        transition.kind ≠ .internal →
        chart.Unfiltered
          ((chart.approach middle.current transition).foldl chart.rememberCall middle.memory) := by
  have wellFormed := Chart.wellFormed_of_ofLayers compiled
  obtain ⟨known, rfl⟩ := startingIn_eq_ok created
  have placed : Placed { data, chart, current := initial } := ⟨wellFormed, known⟩
  have memoryEq : next.memory = (Note.exited notes).foldl chart.rememberExit {} :=
    ((moves_of_run done).remembers placed).memory_eq
  have remembered (composite child : StateId) : next.memory.child? composite = some child ↔
      chart.forest.Tracks composite ∧
        chart.forest.lastPart? composite (Note.exited notes) = some child := by
    rw [memoryEq, Chart.child?_of_exits, ← Chart.tracksHistory_iff wellFormed.forest]
    split <;> simp [*]
  refine ⟨remembered, fun composite child found => ?_, fun told middle moves =>
    unfiltered_of_moves placed moves⟩
  obtain ⟨_, last⟩ := (remembered composite child).mp found
  obtain ⟨node, nodeFound, parent, notFinal⟩ :=
    Forest.parts_iff.mp (Forest.parts_of_lastPart? last)
  obtain ⟨outer, outerFound, _⟩ := wellFormed.forest.level_of_parent nodeFound parent
  have listed : child ∈ outer.children :=
    (wellFormed.forest.mem_children_iff outerFound).mpr ⟨node, nodeFound, parent⟩
  exact ⟨outer, node, outerFound, nodeFound, listed, parent, notFinal⟩

def snag : Layer Unit Unit where
  states :=
    [.mk ⟨"A"⟩ {} [],
      .mk ⟨"P"⟩ { history := some .shallow }
        [.mk ⟨"C"⟩ {} [],
          .mk ⟨"D"⟩
            { exit := some [.direct ⟨0, fun _ data => ⟨data, [], some "stuck"⟩⟩ .normal] } []]]
  transitions :=
    [{ source := ⟨"A"⟩, target := some ⟨"P"⟩, event := ⟨"x"⟩ },
      { source := ⟨"C"⟩, target := some ⟨"D"⟩, event := ⟨"y"⟩ },
      { source := ⟨"P"⟩, target := some ⟨"A"⟩, event := ⟨"x"⟩ }]

theorem run_remembers_last_exit_snag :
    ∃ chart machine next notes, Chart.ofLayers [snag] {} = .ok chart ∧
      startingIn chart ⟨"A"⟩ () = .ok machine ∧ machine.run errandActs = .ok (next, notes) ∧
      next.status = .error ∧ Note.exited notes = [⟨"A"⟩, ⟨"C"⟩] ∧
      next.memory.child? ⟨"P"⟩ = some ⟨"C"⟩ ∧ chart.forest.Tracks ⟨"P"⟩ ∧
      chart.Unfiltered next.memory := by
  have session : ((Chart.ofLayers [snag] {}).toOption.bind fun chart =>
      (startingIn chart ⟨"A"⟩ ()).toOption.bind fun machine =>
        (machine.run errandActs).toOption.map fun ending =>
          (ending.1.status, Note.exited ending.2, ending.1.memory.child? ⟨"P"⟩)) =
      some (.error, [⟨"A"⟩, ⟨"C"⟩], some ⟨"C"⟩) := by
    simp only [Chart.ofLayers, Layer.compile, Layer.build, Table.declare_empty]
    decide +kernel
  obtain ⟨chart, machine, next, notes, compiled, created, done, ending⟩ := exists_session session
  simp only [Prod.mk.injEq] at ending
  obtain ⟨failed, exitedEq, kept⟩ := ending
  obtain ⟨remembered, _, restored⟩ := run_remembers_last_exit compiled created done
  obtain ⟨tracks, _⟩ := (remembered ⟨"P"⟩ ⟨"C"⟩).mp kept
  exact ⟨chart, machine, next, notes, compiled, created, done, failed, exitedEq, kept, tracks,
    (restored notes next (moves_of_run done)).1⟩

end Machine

end Statechart
