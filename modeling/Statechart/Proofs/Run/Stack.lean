import Statechart.Proofs.Chart.Compiled
import Statechart.Proofs.Run.Firing
import Statechart.Proofs.Run.Session

namespace Statechart

variable {δ γ : Type}

namespace Forest

/-- Makes a call on the stack of active states, if it fits the stack. -/
def replayCall (forest : Forest δ γ) (stack : List StateId) :
    Call StateId StateId → Option (List StateId)
  | .enter state =>
    if (forest.node? state).map Node.parent = some stack.head? then some (state :: stack) else none
  | .exit state => if stack.head? = some state then some stack.tail else none
  | .perform _ => some stack

/-- Makes calls in order, as long as they fit the stack. -/
def replay (forest : Forest δ γ) (stack : List StateId) (calls : List (Call StateId StateId)) :
    Option (List StateId) :=
  calls.foldlM forest.replayCall stack

variable {forest : Forest δ γ} {stack final : List StateId}
  {calls later : List (Call StateId StateId)} {above : List (Node δ γ)}

@[simp] theorem replay_nil : forest.replay stack [] = some stack :=
  rfl

theorem replay_cons {call : Call StateId StateId} :
    forest.replay stack (call :: calls) =
      (forest.replayCall stack call).bind fun middle => forest.replay middle calls :=
  rfl

theorem replayCall_exit (state : StateId) :
    forest.replayCall (state :: stack) (.exit state) = some stack :=
  if_pos rfl

theorem replay_append :
    forest.replay stack (calls ++ later) =
      (forest.replay stack calls).bind fun middle => forest.replay middle later :=
  List.foldlM_append

theorem replay_of_prefix (whole : forest.replay stack (calls ++ later) = some final) :
    ∃ middle, forest.replay stack calls = some middle := by
  rw [replay_append] at whole
  obtain ⟨middle, first, _⟩ := Option.bind_eq_some_iff.mp whole
  exact ⟨middle, first⟩

theorem replay_exits (exits : List (Node δ γ)) :
    forest.replay ((exits ++ above).map Node.id) (exits.map fun node => .exit node.id) =
      some (above.map Node.id) := by
  induction exits with
  | nil => rfl
  | cons node exits ih =>
      rw [List.cons_append, List.map_cons, List.map_cons, replay_cons, replayCall_exit,
        Option.bind_some, ih]

theorem replay_ancestors (forest : Forest δ γ) (id : StateId) :
    forest.replay (forest.ancestors id) ((forest.ancestors id).map .exit) = some [] := by
  have whole : forest.replay ((forest.lineage id ++ []).map Node.id)
      ((forest.lineage id).map fun node => .exit node.id) = some [] :=
    replay_exits (forest.lineage id)
  rw [List.append_nil] at whole
  rw [ancestors, List.map_map]
  exact whole

theorem replay_enters {enters : List (Node δ γ)} (up : forest.Ascends (enters ++ above)) :
    forest.replay (above.map Node.id) (enters.reverse.map fun node => .enter node.id) =
      some ((enters ++ above).map Node.id) := by
  induction enters with
  | nil => rfl
  | cons node enters ih =>
      rw [List.cons_append] at up ⊢
      have fits : (forest.node? node.id).map Node.parent =
          some ((enters ++ above).map Node.id).head? := by
        rw [up.found_of_mem List.mem_cons_self, Option.map_some, up.parent_eq, List.head?_map]
      rw [List.reverse_cons, List.map_append, replay_append, ih up.tail, Option.bind_some,
        List.map_singleton, replay_cons, replayCall, if_pos fits, Option.bind_some, replay_nil,
        List.map_cons]

end Forest

namespace Chart

variable {chart : Chart δ γ} {scope : Scope γ} {plan : Plan δ γ} {work : Work δ γ}
  {effect : Effect δ γ Outcome}

/-- What fits the stack as a whole still does if it is broken off. -/
theorem replay_carryOut {stack final : List StateId}
    (whole : chart.forest.replay stack (plan.calls.map Call.named) = some final)
    (done : chart.carryOut scope plan work = .ok effect) :
    ∃ reached, chart.forest.replay stack (Note.calls effect.notes) = some reached ∧
      ∀ leaf, effect.result = .rested leaf → reached = final ∧ plan.rest = .ok leaf := by
  obtain ⟨made, left, split, callsEq, complete⟩ := calls_carryOut done
  rw [split, List.map_append] at whole
  obtain ⟨reached, reachedEq⟩ := Forest.replay_of_prefix whole
  rw [callsEq]
  refine ⟨reached, reachedEq, fun leaf rested => ?_⟩
  obtain ⟨rfl, rests, _⟩ := complete leaf rested
  rw [List.map_nil, List.append_nil, reachedEq] at whole
  exact ⟨Option.some.inj whole, rests⟩

theorem replay_start (wellFormed : chart.forest.WellFormed) {initial : StateId}
    (known : chart.forest.contains initial = true) {event : EventId} {context : γ}
    (started : chart.start initial event context work = .ok effect) :
    ∃ reached, chart.forest.replay [] (Note.calls effect.notes) = some reached ∧
      ∀ leaf, effect.result = .rested leaf →
        reached = chart.forest.ancestors leaf ∧ chart.forest.contains leaf = true := by
  obtain ⟨descent, leaf, planEq, ⟨node, found, _⟩, lineageEq⟩ :=
    startPlan_eq wellFormed work.memory known
  have up := wellFormed.ascends_lineage leaf
  rw [← List.append_nil (chart.forest.lineage leaf)] at up
  have entered := Forest.replay_enters up
  rw [List.append_nil, List.map_nil] at entered
  have whole : chart.forest.replay []
      ((chart.startPlan work.memory initial).calls.map Call.named) =
      some (chart.forest.ancestors leaf) := by
    rw [planEq, Forest.ancestors, ← entered, lineageEq]
    simp [Function.comp_def, Call.named]
  obtain ⟨reached, reachedEq, complete⟩ := replay_carryOut whole started
  refine ⟨reached, reachedEq, fun leaf' rested => ?_⟩
  obtain ⟨rfl, rests⟩ := complete leaf' rested
  rw [planEq] at rests
  cases rests
  exact ⟨rfl, Forest.contains_of_node? found⟩

theorem replay_route (wellFormed : chart.forest.WellFormed) {current leaf : StateId}
    {transition : Transition δ γ} {exits enters descent : List (Node δ γ)}
    (route : chart.Route current transition exits enters descent leaf) :
    chart.forest.replay (chart.forest.ancestors current)
        ((routeCalls transition exits enters descent).map Call.named) =
      some (chart.forest.ancestors leaf) := by
  have up := wellFormed.ascends_lineage leaf
  rw [route.leaf_eq, route.target_eq, ← List.append_assoc] at up
  have entered := Forest.replay_enters up
  have exited : chart.forest.replay ((exits ++ transition.outside chart.forest).map Node.id)
      (exits.map fun node => .exit node.id) =
        some ((transition.outside chart.forest).map Node.id) :=
    Forest.replay_exits exits
  rw [List.append_assoc, ← route.target_eq, ← route.leaf_eq] at entered
  rw [← route.current_eq] at exited
  have callsEq : (routeCalls transition exits enters descent).map Call.named =
      (exits.map fun node => .exit node.id) ++ .perform transition.source ::
        (descent.reverse ++ enters).reverse.map fun node => .enter node.id := by
    simp [routeCalls, Function.comp_def, Call.named]
  rw [callsEq, Forest.replay_append, Forest.ancestors, exited, Option.bind_some,
    Forest.replay_cons, Forest.replayCall, Option.bind_some, entered, Forest.ancestors]

theorem replay_fire (wellFormed : chart.WellFormed) {current : StateId} {finishEvent : EventId}
    {occurrence : Occurrence γ}
    (fired : chart.fire current finishEvent occurrence work = .ok (some effect)) :
    ∃ reached,
      chart.forest.replay (chart.forest.ancestors current) (Note.calls effect.notes) =
        some reached ∧
      ∀ leaf, effect.result = .rested leaf →
        reached = chart.forest.ancestors leaf ∧ chart.forest.contains leaf = true := by
  obtain ⟨transition, carried, finish, selected, carriedEq, resultEq, _, notesEq⟩ :=
    fire_eq_ok_some fired
  obtain ⟨around, targetKnown, _, _⟩ := wellFormed.select?_eq_some selected
  have callsEq : Note.calls effect.notes = Note.calls carried.notes := by
    rw [notesEq, Note.calls_append, calls_queued, List.append_nil]
  rw [callsEq, resultEq]
  have planned : ∃ leaf, chart.forest.replay (chart.forest.ancestors current)
        ((chart.transitionPlan work.memory current transition).calls.map Call.named) =
        some (chart.forest.ancestors leaf) ∧
      (chart.transitionPlan work.memory current transition).rest = .ok leaf ∧
      chart.forest.contains leaf = true := by
    by_cases internal : transition.kind = .internal
    · obtain ⟨node, found⟩ := Forest.known_of_mem_ancestors around
      rw [transitionPlan_of_internal internal]
      exact ⟨current, rfl, rfl, Forest.contains_of_node? found⟩
    · obtain ⟨exits, enters, descent, leaf, route, planEq⟩ :=
        exists_route wellFormed.forest work.memory around targetKnown internal
      obtain ⟨node, found, _⟩ := route.rests
      rw [planEq]
      exact ⟨leaf, replay_route wellFormed.forest route, rfl, Forest.contains_of_node? found⟩
  obtain ⟨leaf, whole, rests, known⟩ := planned
  obtain ⟨reached, reachedEq, complete⟩ := replay_carryOut whole carriedEq
  refine ⟨reached, reachedEq, fun leaf' rested => ?_⟩
  obtain ⟨rfl, rests'⟩ := complete leaf' rested
  cases rests.symm.trans rests'
  exact ⟨rfl, known⟩

theorem calls_terminate (chart : Chart δ γ) (current : StateId) (event : EventId) (context : γ)
    (work : Work δ γ) :
    ∃ made left, (chart.forest.ancestors current).map .exit = made ++ left ∧
      Note.calls (chart.terminate current event context work).notes = made ∧
      ((chart.terminate current event context work).result = none → left = []) := by
  obtain ⟨made, left, split, callsEq, complete⟩ :=
    calls_runCalls chart ⟨some current, none, event, context⟩ (chart.terminatePlan current) work
  refine ⟨made.map Call.named, left.map Call.named, ?_, callsEq, fun succeeds => ?_⟩
  · rw [← List.map_append, ← split, terminatePlan, Forest.ancestors, List.map_map, List.map_map]
    rfl
  · rw [complete succeeds, List.map_nil]

end Chart

namespace Machine

variable {machine next : Machine δ γ} {notes : List (Note γ)}

def Keeps (machine : Machine δ γ) (stack : List StateId) : Prop :=
  machine.InPhase (stack = [] ∧ machine.chart.forest.contains machine.current = true)
    (stack = machine.chart.forest.ancestors machine.current ∧
      machine.chart.forest.contains machine.current = true)
    (stack = [])

@[simp] theorem calls_tell (machine : Machine δ γ) (stage : Stage) (origin : StateId)
    (event : EventId) (context : γ) :
    Note.calls (machine.tell stage origin event context) = [] := by
  unfold tell
  dsimp only
  split <;> split <;> rfl

@[simp] theorem calls_tellOf (machine : Machine δ γ) (occurrence : Occurrence γ) (stage : Stage) :
    Note.calls (machine.tellOf occurrence stage) = [] :=
  calls_tell machine stage machine.current occurrence.event occurrence.context

theorem replay_of_handled {occurrence : Occurrence γ}
    (handled : Handled machine occurrence next notes) (wellFormed : machine.chart.WellFormed)
    (status : machine.status = .busy)
    (known : machine.chart.forest.contains machine.current = true) :
    ∃ reached, machine.chart.forest.replay (machine.chart.forest.ancestors machine.current)
        (Note.calls notes) = some reached ∧ next.Keeps reached := by
  cases handled with
  | declined fired =>
      refine ⟨machine.chart.forest.ancestors machine.current, by simp, ?_⟩
      exact (inPhase_of_active (Or.inr status)).mpr ⟨rfl, known⟩
  | completed fired rested =>
      obtain ⟨reached, reachedEq, complete⟩ := Chart.replay_fire wellFormed fired
      refine ⟨reached, by simpa using reachedEq, ?_⟩
      exact (inPhase_of_active (Or.inr status)).mpr (complete _ rested)
  | failed fired failed =>
      obtain ⟨reached, reachedEq, _⟩ := Chart.replay_fire wellFormed fired
      exact ⟨reached, by simpa using reachedEq, inPhase_of_error rfl⟩

theorem calls_shutdown (machine : Machine δ γ) (context : γ) :
    ∃ made left, (machine.chart.forest.ancestors machine.current).map .exit = made ++ left ∧
      Note.calls (machine.shutdown context).2 = made ∧
      ((machine.shutdown context).1.status = .terminated → left = []) := by
  obtain ⟨made, left, split, callsEq, complete⟩ :=
    Chart.calls_terminate machine.chart machine.current machine.options.terminateEvent context
      machine.toWork
  refine ⟨made, left, split, ?_⟩
  unfold shutdown
  dsimp only
  split
  · next succeeds => exact ⟨by simpa [Note.calls] using callsEq, fun _ => complete succeeds⟩
  · next error failed =>
    refine ⟨by simpa [fail] using callsEq, fun ended => ?_⟩
    simp [fail] at ended

theorem replay_of_move (move : Move machine notes next) (wellFormed : machine.chart.WellFormed)
    {stack : List StateId} (keeps : machine.Keeps stack) :
    ∃ reached, machine.chart.forest.replay stack (Note.calls notes) = some reached ∧
      next.Keeps reached := by
  cases move with
  | launch status started rested =>
      obtain ⟨rfl, known⟩ := (inPhase_of_initialized status).mp keeps
      obtain ⟨reached, reachedEq, complete⟩ := Chart.replay_start wellFormed.forest known started
      refine ⟨reached, by simpa [Note.calls] using reachedEq, ?_⟩
      exact (inPhase_of_active (Or.inr rfl)).mpr (complete _ rested)
  | collapse status started failed =>
      obtain ⟨rfl, known⟩ := (inPhase_of_initialized status).mp keeps
      obtain ⟨reached, reachedEq, _⟩ := Chart.replay_start wellFormed.forest known started
      exact ⟨reached, by simpa [fail] using reachedEq, inPhase_of_error rfl⟩
  | take status =>
      have active := (inPhase_of_active status).mp keeps
      exact ⟨stack, rfl, (inPhase_of_active (Or.inr rfl)).mpr active⟩
  | handle status waiting processed =>
      obtain ⟨rfl, known⟩ := (inPhase_of_active (Or.inr status)).mp keeps
      have step := replay_of_handled (handled_of_process processed) wellFormed status known
      exact step
  | settle status empty =>
      have active := (inPhase_of_active (Or.inr status)).mp keeps
      exact ⟨stack, rfl, (inPhase_of_active (Or.inl rfl)).mpr active⟩
  | @shutdown context status =>
      obtain ⟨rfl, known⟩ := (inPhase_of_active status).mp keeps
      obtain ⟨made, left, split, callsEq, complete⟩ := calls_shutdown machine context
      have whole := Forest.replay_ancestors machine.chart.forest machine.current
      rw [split] at whole
      obtain ⟨reached, reachedEq⟩ := Forest.replay_of_prefix whole
      refine ⟨reached, by rw [callsEq, reachedEq], ?_⟩
      rcases status_shutdown machine context with ended | failed
      · rw [complete ended, List.append_nil, reachedEq] at whole
        exact (inPhase_of_terminated ended).mpr (Option.some.inj whole)
      · exact inPhase_of_error failed
  | abandon status =>
      obtain ⟨nothing, _⟩ := (inPhase_of_initialized status).mp keeps
      exact ⟨stack, rfl, (inPhase_of_terminated rfl).mpr nothing⟩
  | adjust options observers data => exact ⟨stack, rfl, keeps⟩

theorem replay_of_moves (moves : Moves machine notes next) (wellFormed : machine.chart.WellFormed)
    {stack : List StateId} (keeps : machine.Keeps stack) :
    ∃ reached, machine.chart.forest.replay stack (Note.calls notes) = some reached ∧
      next.Keeps reached := by
  induction moves generalizing stack with
  | refl => exact ⟨stack, rfl, keeps⟩
  | step move _ ih =>
      obtain ⟨middle, first, middleKeeps⟩ := replay_of_move move wellFormed keeps
      have chartEq := move.chart_eq
      obtain ⟨reached, rest, keeps'⟩ := ih (chartEq ▸ wellFormed) middleKeeps
      rw [chartEq] at rest
      refine ⟨reached, ?_, keeps'⟩
      rw [Note.calls_append, Forest.replay_append, first, Option.bind_some, rest]

/--
Throughout a session the calls to states push and pop a stack: a state is entered right below its
parent and exited from the top.  At rest the stack holds the current state and the states around it,
and after termination nothing; terminating exits the active states innermost first.
-/
theorem run_keeps_stack {chain : List (Layer δ γ)} {registry : Registry δ γ} {chart : Chart δ γ}
    (compiled : Chart.ofLayers chain registry = .ok chart) {initial : StateId} {data : δ}
    (created : startingIn chart initial data = .ok machine) {acts : List (Act δ γ)}
    (done : machine.run acts = .ok (next, notes)) :
    ∃ stack, chart.forest.replay [] (Note.calls notes) = some stack ∧
      (next.status = .idle → stack = chart.forest.ancestors next.current) ∧
      (next.status = .terminated → stack = []) ∧
      ∀ context, next.status = .idle →
        ∃ left, (chart.forest.ancestors next.current).map .exit =
            Note.calls (next.terminate context).notes ++ left ∧
          ((next.terminate context).machine.status = .error ∨
            (next.terminate context).machine.status = .terminated ∧ left = []) := by
  have wellFormed := Chart.wellFormed_of_ofLayers compiled
  obtain ⟨known, rfl⟩ := startingIn_eq_ok created
  have keeps : Keeps { data, chart, current := initial } [] :=
    (inPhase_of_initialized rfl).mpr ⟨rfl, known⟩
  have moves := moves_of_run done
  have chartEq : next.chart = chart := moves.chart_eq
  obtain ⟨stack, whole, keeps'⟩ := replay_of_moves moves wellFormed keeps
  refine ⟨stack, whole, fun idle => ?_, fun ended => ?_, fun context idle => ?_⟩
  · rw [← chartEq]
    exact ((inPhase_of_active (Or.inl idle)).mp keeps').1
  · exact (inPhase_of_terminated ended).mp keeps'
  · obtain ⟨made, left, split, callsEq, complete⟩ := calls_shutdown next context
    unfold terminate
    simp only [idle]
    rw [← chartEq, callsEq]
    refine ⟨left, split, ?_⟩
    rcases status_shutdown next context with ended | failed
    · exact Or.inr ⟨ended, complete ended⟩
    · exact Or.inl failed

theorem exists_session {α : Type} {chain : List (Layer δ γ)} {registry : Registry δ γ}
    {initial : StateId} {data : δ} {acts : List (Act δ γ)}
    {view : Chart δ γ → Machine δ γ × List (Note γ) → α} {seen : α}
    (session : ((Chart.ofLayers chain registry).toOption.bind fun chart =>
      (startingIn chart initial data).toOption.bind fun machine =>
        (machine.run acts).toOption.map fun ending => view chart ending) = some seen) :
    ∃ chart machine next notes, Chart.ofLayers chain registry = .ok chart ∧
      startingIn chart initial data = .ok machine ∧ machine.run acts = .ok (next, notes) ∧
      view chart (next, notes) = seen := by
  obtain ⟨chart, compiled, session⟩ := Option.bind_eq_some_iff.mp session
  obtain ⟨machine, created, session⟩ := Option.bind_eq_some_iff.mp session
  obtain ⟨⟨next, notes⟩, done, ending⟩ := Option.map_eq_some_iff.mp session
  rw [toOption_eq_some_iff] at compiled created done
  exact ⟨chart, machine, next, notes, compiled, created, done, ending⟩

def detour : Layer Unit Unit where
  states := [.mk ⟨"A"⟩ {} [], .mk ⟨"B"⟩ {} [.mk ⟨"C"⟩ {} [], .mk ⟨"D"⟩ {} []]]
  transitions :=
    [{ source := ⟨"A"⟩, target := some ⟨"B"⟩, event := ⟨"x"⟩ },
      { source := ⟨"C"⟩, target := some ⟨"D"⟩, event := ⟨"y"⟩ },
      { source := ⟨"B"⟩, target := some ⟨"A"⟩, event := ⟨"x"⟩ }]

def detourActs : List (Act Unit Unit) :=
  [⟨"x"⟩, ⟨"y"⟩, ⟨"x"⟩, ⟨"x"⟩].map fun event => .ask 3 (.fire event ())

theorem run_keeps_stack_detour :
    ∃ chart machine next notes, Chart.ofLayers [detour] {} = .ok chart ∧
      startingIn chart ⟨"A"⟩ () = .ok machine ∧ machine.run detourActs = .ok (next, notes) ∧
      next.status = .idle ∧ chart.forest.ancestors next.current = [⟨"C"⟩, ⟨"B"⟩] ∧
      chart.forest.replay [] (Note.calls notes) = some [⟨"C"⟩, ⟨"B"⟩] := by
  have session : ((Chart.ofLayers [detour] {}).toOption.bind fun chart =>
      (startingIn chart ⟨"A"⟩ ()).toOption.bind fun machine =>
        (machine.run detourActs).toOption.map fun ending =>
          (ending.1.status, chart.forest.ancestors ending.1.current)) =
      some (.idle, [⟨"C"⟩, ⟨"B"⟩]) := by
    simp only [Chart.ofLayers, Layer.compile, Layer.build, Table.declare_empty]
    decide +kernel
  obtain ⟨chart, machine, next, notes, compiled, created, done, ending⟩ := exists_session session
  obtain ⟨idle, around⟩ := Prod.mk.inj ending
  obtain ⟨stack, whole, atRest, _⟩ := run_keeps_stack compiled created done
  refine ⟨chart, machine, next, notes, compiled, created, done, idle, around, ?_⟩
  rw [whole, atRest idle, around]

end Machine

end Statechart
