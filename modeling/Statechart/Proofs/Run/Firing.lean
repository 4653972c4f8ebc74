import Statechart.Proofs.Run.Descent
import Statechart.Proofs.Run.Failure
import Statechart.Proofs.Run.Walk

namespace Statechart

variable {δ γ : Type}

namespace Chart

variable {chart : Chart δ γ} {memory : Memory} {current : StateId} {transition : Transition δ γ}

theorem startPlan_eq (wellFormed : chart.forest.WellFormed) (memory : Memory) {initial : StateId}
    (known : chart.forest.contains initial = true) :
    ∃ (descent : List (Node δ γ)) (leaf : StateId),
      chart.startPlan memory initial =
        ⟨((chart.forest.lineage initial).reverse ++ descent).map .enter, .ok leaf⟩ ∧
      chart.forest.AtRest leaf ∧
      chart.forest.lineage leaf = descent.reverse ++ chart.forest.lineage initial := by
  let calls : List (PlannedCall δ γ) := (chart.forest.lineage initial).reverse.map .enter
  obtain ⟨descent, leaf, landEq, rests, lineageEq⟩ :=
    land_eq wellFormed (calls.foldl chart.rememberCall memory) known
  refine ⟨descent, leaf, ?_, rests, lineageEq⟩
  rw [startPlan, landAfter, landEq, List.map_append]
  rfl

/-- The way of a transition, with the descent from its target. -/
structure Route (chart : Chart δ γ) (current : StateId) (transition : Transition δ γ)
    (exits enters descent : List (Node δ γ)) (leaf : StateId) : Prop where
  current_eq : chart.forest.lineage current = exits ++ transition.outside chart.forest
  target_eq :
    chart.forest.lineage transition.target = enters ++ transition.outside chart.forest
  leaf_eq : chart.forest.lineage leaf = descent.reverse ++ chart.forest.lineage transition.target
  rests : chart.forest.AtRest leaf

def routeCalls (transition : Transition δ γ) (exits enters descent : List (Node δ γ)) :
    List (PlannedCall δ γ) :=
  exits.map .exit ++ .perform transition :: (enters.reverse ++ descent).map .enter

theorem transitionPlan_of_internal (internal : transition.kind = .internal) :
    chart.transitionPlan memory current transition = ⟨[.perform transition], .ok current⟩ := by
  rw [transitionPlan, internal]

theorem transitionPlan_of_moves (moves : transition.kind ≠ .internal) :
    chart.transitionPlan memory current transition =
      chart.landAfter memory
        (chart.unwind current transition.source ++
          passage transition (chart.forest.lineage transition.source)
            (chart.forest.lineage transition.target))
        transition.target := by
  unfold transitionPlan
  split
  · contradiction
  · rfl

theorem exists_route (wellFormed : chart.forest.WellFormed) (memory : Memory)
    (around : transition.source ∈ chart.forest.ancestors current)
    (known : chart.forest.contains transition.target = true)
    (moves : transition.kind ≠ .internal) :
    ∃ exits enters descent leaf,
      chart.Route current transition exits enters descent leaf ∧
      chart.transitionPlan memory current transition =
        ⟨routeCalls transition exits enters descent, .ok leaf⟩ := by
  obtain ⟨exits, enters, currentEq, targetEq, walkEq⟩ := exists_walk wellFormed around known
  let calls := exits.map .exit ++ .perform transition :: enters.reverse.map Call.enter
  obtain ⟨descent, leaf, landEq, rests, lineageEq⟩ :=
    land_eq wellFormed (calls.foldl chart.rememberCall memory) known
  refine ⟨exits, enters, descent, leaf, ⟨currentEq, targetEq, lineageEq, rests⟩, ?_⟩
  rw [transitionPlan_of_moves moves, walkEq, landAfter, landEq, routeCalls, List.map_append]
  simp [Plan.after]

theorem finishes_eq_ok (transition : Transition δ γ) {leaf : StateId}
    (known : chart.forest.contains leaf = true) :
    ∃ finished, chart.finishes transition leaf = .ok finished := by
  obtain ⟨node, found⟩ := Option.isSome_iff_exists.mp known
  unfold finishes
  split
  · exact ⟨_, rfl⟩
  · rw [found]
    exact ⟨_, rfl⟩

theorem exists_fire (wellFormed : chart.WellFormed) {occurrence : Occurrence γ}
    (selected : chart.select? current occurrence = some transition) (finishEvent : EventId)
    (work : Work δ γ) :
    ∃ effect, chart.fire current finishEvent occurrence work = .ok (some effect) := by
  obtain ⟨around, known, _, _⟩ := wellFormed.select?_eq_some selected
  have planned : ∃ leaf, (chart.transitionPlan work.memory current transition).rest = .ok leaf ∧
      chart.forest.contains leaf = true := by
    by_cases internal : transition.kind = .internal
    · obtain ⟨node, found⟩ := Forest.known_of_mem_ancestors around
      rw [transitionPlan_of_internal internal]
      exact ⟨current, rfl, Forest.contains_of_node? found⟩
    · obtain ⟨exits, enters, descent, leaf, route, planEq⟩ :=
        exists_route wellFormed.forest work.memory around known internal
      obtain ⟨node, found, _⟩ := route.rests
      rw [planEq]
      exact ⟨leaf, rfl, Forest.contains_of_node? found⟩
  obtain ⟨leaf, rests, leafKnown⟩ := planned
  obtain ⟨carried, carriedEq⟩ : ∃ carried,
      chart.carryOut (scopeOf current transition occurrence)
        (chart.transitionPlan work.memory current transition) work = .ok carried :=
    exists_carryOut _ work rests
  unfold scopeOf at carriedEq
  obtain ⟨_, _, ending⟩ := carryOut_eq_ok carriedEq
  simp only [fire, selected, carriedEq]
  rcases ending with ⟨error, failed, _⟩ | ⟨leaf', rested, rests', _⟩
  · exact ⟨carried, by simp [bind, Except.bind, failed]; rfl⟩
  · cases rests.symm.trans rests'
    obtain ⟨finished, finishesEq⟩ := finishes_eq_ok transition leafKnown
    cases finished <;> simp [bind, Except.bind, rested, finishesEq, pure, Except.pure]

section Outcomes

variable {occurrence : Occurrence γ} {finishEvent : EventId} {work : Work δ γ}
  {effect : Effect δ γ Outcome}

theorem fire_comes_to_rest
    (fired : chart.fire current finishEvent occurrence work = .ok (some effect))
    (selected : chart.select? current occurrence = some transition)
    (unfailing : ∀ failure,
      ¬chart.FailsAt (chart.transitionErrand current transition occurrence work) failure) :
    ∃ leaf, effect.result = .rested leaf := by
  obtain ⟨taken, carried, _, selected', carriedEq, resultEq, _⟩ := fire_eq_ok_some fired
  cases selected.symm.trans selected'
  have succeeds := result_eq_none_iff.mpr unfailing
  cases result : carried.result with
  | rested leaf => exact ⟨leaf, resultEq.trans result⟩
  | failed error => cases succeeds.symm.trans (carryOut_failed carriedEq result)

theorem fire_reports_failure {failure : Failure δ γ}
    (fired : chart.fire current finishEvent occurrence work = .ok (some effect))
    (selected : chart.select? current occurrence = some transition)
    (failsAt :
      chart.FailsAt (chart.transitionErrand current transition occurrence work) failure) :
    effect.result = .failed (failure.error occurrence.event) := by
  obtain ⟨taken, carried, _, selected', carriedEq, resultEq, _⟩ := fire_eq_ok_some fired
  cases selected.symm.trans selected'
  obtain ⟨reported, _⟩ := failsAt.outcome
  cases result : carried.result with
  | rested leaf => cases reported.symm.trans (carryOut_succeeds carriedEq result)
  | failed error =>
      cases reported.symm.trans (carryOut_failed carriedEq result)
      exact resultEq.trans result

end Outcomes

/--
A selected transition that is not internal exits every state from the current one up to its
boundary, innermost first, runs its actions once, and enters every state from below the boundary
down to its target, outermost first; from there it goes down.  A source around the target stays.
All these calls are made, and the machine comes to rest below the target, unless an action fails.
-/
theorem fire_crosses_boundary (accepted : chart.Accepted) (targetsKnown : chart.TargetsKnown)
    {occurrence : Occurrence γ}
    (selected : chart.select? current occurrence = some transition)
    (moves : transition.kind ≠ .internal) (finishEvent : EventId) (work : Work δ γ) :
    transition.source ∈ chart.forest.ancestors current ∧
    ∃ (exits enters descent : List (Node δ γ)) (leaf : StateId) (effect : Effect δ γ Outcome),
      chart.forest.lineage current = exits ++ transition.outside chart.forest ∧
      chart.forest.lineage transition.target = enters ++ transition.outside chart.forest ∧
      chart.forest.lineage leaf = descent.reverse ++ chart.forest.lineage transition.target ∧
      (transition.source ∈ chart.forest.ancestors transition.target →
        transition.source ≠ transition.target →
        ∀ node ∈ exits, node.id ≠ transition.source) ∧
      (chart.transitionPlan work.memory current transition).calls =
        exits.map .exit ++ [.perform transition] ++ enters.reverse.map .enter ++
          descent.map .enter ∧
      (chart.transitionPlan work.memory current transition).rest = .ok leaf ∧
      chart.fire current finishEvent occurrence work = .ok (some effect) ∧
      ((∀ failure,
          ¬chart.FailsAt (chart.transitionErrand current transition occurrence work) failure) →
        effect.result = .rested leaf ∧
          Note.calls effect.notes =
            (chart.transitionPlan work.memory current transition).calls.map Call.named) ∧
      ∀ failure,
        chart.FailsAt (chart.transitionErrand current transition occurrence work) failure →
          effect.result = .failed (failure.error occurrence.event) := by
  have wellFormed := accepted.wellFormed targetsKnown
  obtain ⟨around, known, _, _⟩ := wellFormed.select?_eq_some selected
  obtain ⟨exits, enters, descent, leaf, route, planEq⟩ :=
    exists_route wellFormed.forest work.memory around known moves
  obtain ⟨effect, fired⟩ := exists_fire wellFormed selected finishEvent work
  refine ⟨around, exits, enters, descent, leaf, effect, route.current_eq, route.target_eq,
    route.leaf_eq, ?_, ?_, by rw [planEq], fired, ?_, ?_⟩
  · intro contains differ node member same
    have outside := source_mem_outside wellFormed.forest contains differ
    have apart := wellFormed.forest.ancestors_nodup current
    rw [Forest.ancestors, route.current_eq, List.map_append] at apart
    exact List.disjoint_of_nodup_append apart (List.mem_map_of_mem member) (same ▸ outside)
  · rw [planEq]
    simp [routeCalls]
  · intro unfailing
    obtain ⟨rest, rested⟩ := fire_comes_to_rest fired selected unfailing
    obtain ⟨taken, selected', rests, callsEq, _⟩ := fire_rested fired rested
    cases selected.symm.trans selected'
    rw [planEq] at rests
    cases rests
    exact ⟨rested, callsEq⟩
  · intro failure failsAt
    exact fire_reports_failure fired selected failsAt

def counting : Slot Nat Unit :=
  ⟨.action ⟨0, fun _ count => ⟨count + 1, [], none⟩⟩, .normal⟩

/-- `A` holds `A1`, which holds `A1a`, and `B` holds `B1`; `go` leads from `A1` to `B1`. -/
def crossing : Chart Nat Unit where
  forest :=
    Forest.after {} [.insert ⟨"A"⟩, .insert ⟨"A1"⟩, .insert ⟨"A1a"⟩, .insert ⟨"B"⟩, .insert ⟨"B1"⟩,
      .attach ⟨"A"⟩ ⟨"A1"⟩, .attach ⟨"A1"⟩ ⟨"A1a"⟩, .attach ⟨"B"⟩ ⟨"B1"⟩, .freeze]
  table :=
    (({} : Table Nat Unit).add
      { source := ⟨"A1"⟩, target := ⟨"B1"⟩, event := ⟨"go"⟩, actions := ⟨[counting]⟩ }).left
      |>.freeze.left
  initial := none

theorem fire_crosses_boundary_from_nested :
    crossing.Accepted ∧ crossing.TargetsKnown ∧
      ∃ transition, crossing.select? ⟨"A1a"⟩ ⟨⟨"go"⟩, ()⟩ = some transition ∧
        transition.kind ≠ .internal ∧
        (∀ failure, ¬crossing.FailsAt
          (crossing.transitionErrand ⟨"A1a"⟩ transition ⟨⟨"go"⟩, ()⟩ ⟨0, {}, []⟩) failure) ∧
        ∃ effect, crossing.fire ⟨"A1a"⟩ ⟨"$Finish"⟩ ⟨⟨"go"⟩, ()⟩ ⟨0, {}, []⟩ = .ok (some effect) ∧
          effect.result = .rested ⟨"B1"⟩ ∧
          Note.calls effect.notes =
            [.exit ⟨"A1a"⟩, .exit ⟨"A1"⟩, .exit ⟨"A"⟩, .perform ⟨"A1"⟩, .enter ⟨"B"⟩,
              .enter ⟨"B1"⟩] := by
  have accepted : crossing.Accepted :=
    ⟨crossing.forest, crossing.table, none, .after .empty _, .freeze (.add .empty _), by cbv⟩
  have targetsKnown : crossing.TargetsKnown := by
    have all : crossing.table.transitions.all
        (fun transition => crossing.forest.contains transition.target) = true := by cbv
    exact fun transition member => List.all_eq_true.mp all transition member
  have planned : (crossing.select? ⟨"A1a"⟩ ⟨⟨"go"⟩, ()⟩).map (fun transition =>
      let plan := crossing.transitionPlan {} ⟨"A1a"⟩ transition
      let errand := crossing.transitionErrand ⟨"A1a"⟩ transition ⟨⟨"go"⟩, ()⟩ ⟨0, {}, []⟩
      (transition.kind, plan.calls.map Call.named, plan.rest,
        (crossing.runCalls errand.scope errand.calls errand.work).result)) =
      some (.external, [.exit ⟨"A1a"⟩, .exit ⟨"A1"⟩, .exit ⟨"A"⟩, .perform ⟨"A1"⟩, .enter ⟨"B"⟩,
        .enter ⟨"B1"⟩], .ok ⟨"B1"⟩, none) := by cbv
  obtain ⟨transition, selected, transitionEq⟩ := Option.map_eq_some_iff.mp planned
  simp only [Prod.mk.injEq] at transitionEq
  obtain ⟨kindEq, callsEq, restEq, succeeds⟩ := transitionEq
  have moves : transition.kind ≠ .internal := by
    rw [kindEq]
    decide
  have unfailing := result_eq_none_iff.mp succeeds
  obtain ⟨_, _, _, _, leaf, effect, _, _, _, _, _, rests, fired, complete, _⟩ :=
    fire_crosses_boundary accepted targetsKnown selected moves ⟨"$Finish"⟩ ⟨0, {}, []⟩
  obtain ⟨rested, made⟩ := complete unfailing
  cases restEq.symm.trans rests
  exact ⟨accepted, targetsKnown, transition, selected, moves, unfailing, effect, fired, rested,
    made.trans callsEq⟩

end Chart

end Statechart
