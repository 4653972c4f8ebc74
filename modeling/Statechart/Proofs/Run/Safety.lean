import Statechart.Proofs.Chart.Accepted
import Statechart.Proofs.Run.Stack
import Statechart.Proofs.Run.Transit

namespace Statechart

variable {δ γ : Type}

def Forest.Holds (forest : Forest δ γ) : PlannedCall δ γ → Prop
  | .exit node | .enter node => forest.node? node.id = some node
  | .perform _ => True

structure Plan.Grounded (forest : Forest δ γ) (plan : Plan δ γ) : Prop where
  held : ∀ call ∈ plan.calls, forest.Holds call
  rests : ∃ leaf, plan.rest = .ok leaf ∧ forest.contains leaf = true

namespace Chart

variable {chart : Chart δ γ} {current : StateId}

/-- Every step from a state finds what it looks up, and every walk of it comes to an end. -/
structure Secure (chart : Chart δ γ) (current : StateId) : Prop where
  known : chart.forest.contains current = true
  ascends : chart.forest.Ascends (chart.forest.lineage current)
  climb_eq : ∀ steps, chart.forest.size ≤ steps →
    chart.forest.climb steps current = chart.forest.lineage current
  start_grounded : ∀ memory, (chart.startPlan memory current).Grounded chart.forest
  terminate_held : ∀ call ∈ chart.terminatePlan current, chart.forest.Holds call
  transition_grounded : ∀ memory occurrence transition,
    chart.select? current occurrence = some transition →
      (chart.transitionPlan memory current transition).Grounded chart.forest
  transit?_eq : ∀ occurrence transition, chart.select? current occurrence = some transition →
    chart.forest.transit? transition (2 * chart.forest.size) transition.source transition.target =
      some (passage transition (chart.forest.lineage transition.source)
        (chart.forest.lineage transition.target))
  starts : ∀ event context work, ∃ effect, chart.start current event context work = .ok effect
  fires : ∀ finishEvent occurrence work,
    ∃ fired, chart.fire current finishEvent occurrence work = .ok fired

theorem held_of_ascends {nodes : List (Node δ γ)} (up : chart.forest.Ascends nodes)
    {call : PlannedCall δ γ} (made : call ∈ nodes.map .exit ∨ call ∈ nodes.map .enter) :
    chart.forest.Holds call := by
  rcases made with exits | enters
  · obtain ⟨node, member, rfl⟩ := List.mem_map.mp exits
    exact up.found_of_mem member
  · obtain ⟨node, member, rfl⟩ := List.mem_map.mp enters
    exact up.found_of_mem member

theorem grounded_startPlan (wellFormed : chart.forest.WellFormed)
    (known : chart.forest.contains current = true) (memory : Memory) :
    (chart.startPlan memory current).Grounded chart.forest := by
  obtain ⟨descent, leaf, planEq, ⟨node, found, _⟩, lineageEq⟩ :=
    startPlan_eq wellFormed memory known
  have up := wellFormed.ascends_lineage leaf
  rw [planEq]
  refine ⟨fun call member => held_of_ascends up (Or.inr ?_), leaf, rfl,
    Forest.contains_of_node? found⟩
  obtain ⟨entered, listed, rfl⟩ := List.mem_map.mp member
  apply List.mem_map_of_mem
  rw [lineageEq]
  simpa [or_comm] using listed

theorem grounded_transitionPlan (wellFormed : chart.WellFormed) {occurrence : Occurrence γ}
    {transition : Transition δ γ} (selected : chart.select? current occurrence = some transition)
    (memory : Memory) : (chart.transitionPlan memory current transition).Grounded chart.forest := by
  obtain ⟨around, known, _, _⟩ := wellFormed.select?_eq_some selected
  by_cases internal : transition.kind = .internal
  · obtain ⟨node, found⟩ := Forest.known_of_mem_ancestors around
    rw [transitionPlan_of_internal internal]
    refine ⟨fun call member => ?_, current, rfl, Forest.contains_of_node? found⟩
    cases List.mem_singleton.mp member
    trivial
  · obtain ⟨exits, enters, descent, leaf, route, planEq⟩ :=
      exists_route wellFormed.forest memory around known internal
    obtain ⟨node, found, _⟩ := route.rests
    have up := wellFormed.forest.ascends_lineage current
    have down := wellFormed.forest.ascends_lineage leaf
    rw [planEq]
    refine ⟨fun call member => ?_, leaf, rfl, Forest.contains_of_node? found⟩
    rcases List.mem_append.mp member with exited | performed_or_entered
    · apply held_of_ascends up
      rw [route.current_eq, List.map_append]
      exact Or.inl (List.mem_append_left _ exited)
    rcases List.mem_cons.mp performed_or_entered with rfl | entered
    · trivial
    · obtain ⟨below, listed, rfl⟩ := List.mem_map.mp entered
      apply held_of_ascends down (Or.inr (List.mem_map_of_mem _))
      rw [route.leaf_eq, route.target_eq]
      rw [List.mem_append, List.mem_reverse] at listed
      simp only [List.mem_append, List.mem_reverse]
      tauto

theorem exists_start (wellFormed : chart.forest.WellFormed)
    (known : chart.forest.contains current = true) (event : EventId) (context : γ)
    (work : Work δ γ) : ∃ effect, chart.start current event context work = .ok effect := by
  obtain ⟨leaf, rests, _⟩ := (grounded_startPlan wellFormed known work.memory).rests
  exact exists_carryOut _ work rests

theorem exists_fired (wellFormed : chart.WellFormed) (finishEvent : EventId)
    (occurrence : Occurrence γ) (work : Work δ γ) :
    ∃ fired, chart.fire current finishEvent occurrence work = .ok fired := by
  cases selected : chart.select? current occurrence with
  | none => exact ⟨none, by rw [fire, selected]⟩
  | some transition =>
      obtain ⟨effect, fired⟩ := exists_fire wellFormed selected finishEvent work
      exact ⟨some effect, fired⟩

theorem secure_of_known (wellFormed : chart.WellFormed)
    (known : chart.forest.contains current = true) : chart.Secure current where
  known := known
  ascends := wellFormed.forest.ascends_lineage current
  climb_eq steps enough := by
    obtain ⟨node, found⟩ := Option.isSome_iff_exists.mp known
    obtain ⟨above, lineageEq, up⟩ := wellFormed.forest.exists_lineage_eq found
    have bound := up.length_le_size
    rw [List.length_cons] at bound
    rw [lineageEq, ← Forest.id_of_node? found]
    exact up.climb_eq (by omega)
  start_grounded := grounded_startPlan wellFormed.forest known
  terminate_held call member :=
    held_of_ascends (wellFormed.forest.ascends_lineage current) (Or.inl member)
  transition_grounded memory occurrence transition selected :=
    grounded_transitionPlan wellFormed selected memory
  transit?_eq occurrence transition selected := by
    obtain ⟨around, targetKnown, _, _⟩ := wellFormed.select?_eq_some selected
    exact wellFormed.forest.transit?_eq_passage transition
      (wellFormed.forest.contains_of_mem_ancestors around) targetKnown
  starts := exists_start wellFormed.forest known
  fires := exists_fired wellFormed

end Chart

namespace Machine

variable {machine next : Machine δ γ} {notes : List (Note γ)} {occurrence : Occurrence γ}

structure Placed (machine : Machine δ γ) : Prop where
  wellFormed : machine.chart.WellFormed
  known : machine.chart.forest.contains machine.current = true

theorem Placed.of_handled (placed : machine.Placed)
    (handled : Handled machine occurrence next notes) : next.Placed := by
  cases handled with
  | declined _ => exact placed
  | completed fired rested =>
      obtain ⟨_, _, complete⟩ := Chart.replay_fire placed.wellFormed fired
      exact ⟨placed.wellFormed, (complete _ rested).2⟩
  | failed _ _ => exact ⟨placed.wellFormed, placed.known⟩

theorem Placed.of_move (placed : machine.Placed) (move : Move machine notes next) :
    next.Placed := by
  cases move with
  | launch _ started rested =>
      obtain ⟨_, _, complete⟩ :=
        Chart.replay_start placed.wellFormed.forest placed.known started
      exact ⟨placed.wellFormed, (complete _ rested).2⟩
  | @handle _ occurrence queue _ _ _ processed =>
      have taken : Placed { machine with queue } := ⟨placed.wellFormed, placed.known⟩
      exact taken.of_handled (handled_of_process processed)
  | @shutdown context _ =>
      unfold Machine.shutdown
      dsimp only
      split <;> exact ⟨placed.wellFormed, placed.known⟩
  | _ => exact ⟨placed.wellFormed, placed.known⟩

theorem Placed.of_moves (placed : machine.Placed) (moves : Moves machine notes next) :
    next.Placed := by
  induction moves with
  | refl => exact placed
  | step move _ ih => exact ih (placed.of_move move)

/-- Broken off at most because of the limit. -/
def Unstuck {α : Type} (result : Except Interruption α) : Prop :=
  (∃ value, result = .ok value) ∨ result = .error .tooManyEvents

theorem Unstuck.bind {α β : Type} {first : Except Interruption α}
    {next : α → Except Interruption β} (unstuck : Unstuck first)
    (goesOn : ∀ value, first = .ok value → Unstuck (next value)) : Unstuck (first >>= next) := by
  rcases unstuck with ⟨value, rfl⟩ | rfl
  · exact goesOn value rfl
  · exact Or.inr rfl

theorem Unstuck.ok {α : Type} (value : α) : Unstuck (.ok value) :=
  Or.inl ⟨value, rfl⟩

namespace Placed

theorem process (placed : machine.Placed) (occurrence : Occurrence γ) :
    Unstuck (machine.process occurrence) := by
  apply Unstuck.bind
  · exact Or.inl (Chart.exists_fired placed.wellFormed _ occurrence _)
  · intro fired _
    cases fired with
    | none => exact .ok _
    | some effect =>
        dsimp only
        split <;> exact .ok _

theorem processAll (placed : machine.Placed) (limit : Nat) (context : γ) :
    Unstuck (Machine.processAll limit machine context) := by
  induction limit generalizing machine context with
  | zero =>
      unfold Machine.processAll
      split
      · exact .ok _
      · exact Or.inr rfl
  | succ limit ih =>
      unfold Machine.processAll
      split
      · exact .ok _
      · next occurrence queue _ =>
        have taken : Placed { machine with queue } := ⟨placed.wellFormed, placed.known⟩
        apply (taken.process occurrence).bind
        intro (middle, first) processed
        dsimp only
        split
        · exact .ok _
        · apply (ih (taken.of_handled (handled_of_process processed)) _).bind
          intro (final, later, last) _
          exact .ok _

theorem isFinished (placed : machine.Placed) : Unstuck machine.isFinished := by
  obtain ⟨node, found⟩ := Option.isSome_iff_exists.mp placed.known
  unfold Machine.isFinished
  rw [found]
  exact .ok _

theorem drain (placed : machine.Placed) (limit : Nat) (context : γ) :
    Unstuck (Machine.drain limit machine context) := by
  unfold Machine.drain
  split
  · have busy : Placed { machine with status := .busy } := ⟨placed.wellFormed, placed.known⟩
    apply (busy.processAll limit context).bind
    intro (drained, first, last) processed
    have placed' : drained.Placed := busy.of_moves (moves_of_processAll rfl processed).1
    dsimp only
    split
    · exact .ok _
    · split
      · apply placed'.isFinished.bind
        intro finished _
        split <;> exact .ok _
      · exact .ok _
  · exact .ok _

theorem launch (placed : machine.Placed) (limit : Nat) (context : γ) :
    Unstuck (Machine.launch limit machine context) := by
  have started : Unstuck (machine.chart.start machine.current machine.options.startEvent context
      machine.toWork) :=
    Or.inl (Chart.exists_start placed.wellFormed.forest placed.known _ context _)
  apply started.bind
  intro effect started
  dsimp only
  split
  · next leaf rested =>
    obtain ⟨_, _, complete⟩ := Chart.replay_start placed.wellFormed.forest placed.known started
    have idle : Placed
        { machine with toWork := effect.work, current := leaf, status := .idle } :=
      ⟨placed.wellFormed, (complete leaf rested).2⟩
    apply (idle.drain limit context).bind
    intro (drained, later) _
    exact .ok _
  · exact .ok _

theorem enqueue (placed : machine.Placed) (limit : Nat) (occurrence : Occurrence γ) :
    Unstuck (Machine.enqueue limit machine occurrence) := by
  unfold Machine.enqueue
  split
  · exact .ok _
  · have waiting : Placed { machine with queue := machine.queue ++ [occurrence] } :=
      ⟨placed.wellFormed, placed.known⟩
    apply (waiting.drain limit occurrence.context).bind
    intro (drained, later) _
    exact .ok _

theorem start (placed : machine.Placed) (limit : Nat) (context : γ) :
    Unstuck (Machine.start limit machine context) := by
  unfold Machine.start
  split
  · apply (placed.launch limit context).bind
    intro (launched, later) _
    exact .ok _
  all_goals exact .ok _

theorem fire (placed : machine.Placed) (limit : Nat) (event : EventId) (context : γ) :
    Unstuck (Machine.fire limit machine event context) := by
  unfold Machine.fire
  split
  · next unstarted =>
    split
    · apply (placed.launch limit context).bind
      intro (launched, first) launchedEq
      have placed' : launched.Placed := placed.of_moves (moves_of_launch unstarted launchedEq).1
      apply (placed'.enqueue limit ⟨event, context⟩).bind
      intro response _
      exact .ok _
    · exact .ok _
  · exact placed.enqueue limit ⟨event, context⟩

theorem act (placed : machine.Placed) (act : Act δ γ) : Unstuck (machine.act act) := by
  cases act with
  | ask limit request =>
      cases request with
      | start context => exact placed.start limit context
      | fire event context => exact placed.fire limit event context
      | terminate context => exact .ok _
  | configure options => exact .ok _
  | observe => exact .ok _
  | alter data => exact .ok _

theorem run (placed : machine.Placed) (acts : List (Act δ γ)) : Unstuck (machine.run acts) := by
  induction acts generalizing machine with
  | nil => exact .ok _
  | cons act acts ih =>
      apply (placed.act act).bind
      intro response acted
      apply (ih (placed.of_moves (moves_of_act acted))).bind
      intro (final, later) _
      exact .ok _

end Placed

theorem startingIn_of_create {chart : Chart δ γ} {data : δ}
    (created : create chart data = .ok machine) :
    ∃ initial, startingIn chart initial data = .ok machine := by
  unfold create at created
  split at created
  · contradiction
  · exact ⟨_, created⟩

/--
What is compiled is accepted, and the ends of its transitions and its initial state are there.  A
machine of an accepted chart whose transitions lead to states of it is never stuck: its sessions are
broken off at most by the limit, and in whatever state it gets, even in the middle of a session,
every step finds what it looks up and comes to an end.
-/
theorem run_never_stuck (chart : Chart δ γ) :
    (∀ chain registry, Chart.ofLayers chain registry = .ok chart →
      chart.Accepted ∧ chart.TargetsKnown ∧
        (∀ transition ∈ chart.table.transitions,
          chart.forest.contains transition.source = true ∧
            chart.forest.contains transition.target = true) ∧
        ∀ initial, chart.initial = some initial → chart.forest.contains initial = true) ∧
    (chart.Accepted → chart.TargetsKnown → ∀ (data : δ) (machine : Machine δ γ),
      create chart data = .ok machine ∨
        (∃ initial, startingIn chart initial data = .ok machine) →
      (∀ acts, (∃ ending, machine.run acts = .ok ending) ∨
        machine.run acts = .error .tooManyEvents) ∧
      ∀ notes next, Moves machine notes next → next.chart = chart ∧ chart.Secure next.current) := by
  refine ⟨fun chain registry compiled => ?_, fun accepted targetsKnown data machine created => ?_⟩
  · obtain ⟨wellFormed, ends⟩ := Chart.wellFormed_and_ends_of_ofLayers compiled
    have accepted := Chart.accepted_of_ofLayers compiled
    exact ⟨accepted, wellFormed.targets_known, ends, fun _ => accepted.initial_known⟩
  · have wellFormed := accepted.wellFormed targetsKnown
    have started : ∃ initial, startingIn chart initial data = .ok machine :=
      created.elim startingIn_of_create id
    obtain ⟨initial, started⟩ := started
    obtain ⟨known, rfl⟩ := startingIn_eq_ok started
    have placed : Placed { data, chart, current := initial } := ⟨wellFormed, known⟩
    refine ⟨placed.run, fun notes next moves => ?_⟩
    have chartEq : next.chart = chart := moves.chart_eq
    have placed' := placed.of_moves moves
    refine ⟨chartEq, ?_⟩
    rw [← chartEq]
    exact Chart.secure_of_known placed'.wellFormed placed'.known

theorem run_never_stuck_detour :
    ∃ chart machine, Chart.ofLayers [detour] {} = .ok chart ∧
      startingIn chart ⟨"A"⟩ () = .ok machine ∧ chart.Accepted ∧ chart.TargetsKnown ∧
      (∀ acts, (∃ ending, machine.run acts = .ok ending) ∨
        machine.run acts = .error .tooManyEvents) ∧
      chart.Secure ⟨"A"⟩ := by
  have created : ((Chart.ofLayers [detour] {}).toOption.bind fun chart =>
      (startingIn chart ⟨"A"⟩ ()).toOption.map fun machine => machine.current) =
      some ⟨"A"⟩ := by
    simp only [Chart.ofLayers, Layer.compile, Layer.build, Table.declare_empty]
    decide +kernel
  obtain ⟨chart, compiled, created⟩ := Option.bind_eq_some_iff.mp created
  obtain ⟨machine, started, currentEq⟩ := Option.map_eq_some_iff.mp created
  rw [toOption_eq_some_iff] at compiled started
  obtain ⟨ofCompiled, ofAccepted⟩ := run_never_stuck chart
  obtain ⟨accepted, targetsKnown, _⟩ := ofCompiled [detour] {} compiled
  obtain ⟨unstuck, secure⟩ :=
    ofAccepted accepted targetsKnown () machine (Or.inr ⟨⟨"A"⟩, started⟩)
  refine ⟨chart, machine, compiled, started, accepted, targetsKnown, unstuck, ?_⟩
  rw [← currentEq]
  exact (secure [] machine .refl).2

end Machine

end Statechart
