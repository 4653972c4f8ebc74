import Statechart.Proofs.Hierarchy.Buildable
import Statechart.Run.Plan

namespace Statechart

variable {δ γ : Type}

namespace Transition

def SameEnds (transition other : Transition δ γ) : Prop :=
  other.source = transition.source ∧ other.target = transition.target ∧
    other.event = transition.event

theorem SameEnds.trans {first second third : Transition δ γ} (same : first.SameEnds second)
    (same' : second.SameEnds third) : first.SameEnds third :=
  ⟨same'.1.trans same.1, same'.2.1.trans same.2.1, same'.2.2.trans same.2.2⟩

theorem sameEnds_of_freeze {transition frozen : Transition δ γ}
    (result : transition.freeze = .ok frozen) : transition.SameEnds frozen := by
  unfold freeze change at result
  split at result
  · contradiction
  · cases result
    exact ⟨rfl, rfl, rfl⟩

end Transition

namespace Table

def GroupKeyed (group : TransitionGroup δ γ) : Prop :=
  ∀ transition ∈ group.transitions,
    transition.source = group.source ∧ transition.event = group.event

/-- Every transition stands in the group of its source and event. -/
def Keyed (table : Table δ γ) : Prop :=
  ∀ group ∈ table.groups, GroupKeyed group

/-- What can be built from nothing; a refused change counts with what it left. -/
inductive Reachable : Table δ γ → Prop where
  | empty : Reachable {}
  | add {table : Table δ γ} (reachable : Reachable table) (transition : Transition δ γ) :
      Reachable (table.add transition).left
  | freeze {table : Table δ γ} (reachable : Reachable table) : Reachable table.freeze.left

variable {table changed : Table δ γ}

theorem groupKeyed_of_mem_place {transition : Transition δ γ}
    {groups : List (TransitionGroup δ γ)} (keyed : ∀ group ∈ groups, GroupKeyed group)
    {group : TransitionGroup δ γ} (member : group ∈ place transition groups) :
    GroupKeyed group := by
  induction groups with
  | nil =>
      cases List.mem_singleton.mp member
      intro other single
      cases List.mem_singleton.mp single
      exact ⟨rfl, rfl⟩
  | cons first rest ih =>
      have firstKeyed := keyed first List.mem_cons_self
      have restKeyed := fun group member => keyed group (List.mem_cons_of_mem first member)
      rw [place] at member
      split at member
      · next fits =>
        rcases List.mem_cons.mp member with rfl | further
        · intro other otherMember
          rcases List.mem_append.mp otherMember with old | new
          · exact firstKeyed other old
          · cases List.mem_singleton.mp new
            exact ⟨fits.1.symm, fits.2.symm⟩
        · exact restKeyed group further
      · rcases List.mem_cons.mp member with rfl | further
        · exact firstKeyed
        · exact ih restKeyed further

theorem keyed_add (keyed : table.Keyed) (transition : Transition δ γ) :
    (table.add transition).left.Keyed := by
  unfold add
  split
  · exact keyed
  · intro group member
    exact groupKeyed_of_mem_place keyed member

theorem sameEnds_of_mem_freezeTransitions {transitions : List (Transition δ γ)}
    {frozen : Transition δ γ} (member : frozen ∈ (freezeTransitions transitions).1) :
    ∃ transition ∈ transitions, transition.SameEnds frozen := by
  induction transitions with
  | nil => contradiction
  | cons first rest ih =>
      unfold freezeTransitions at member
      split at member
      · exact ⟨frozen, member, rfl, rfl, rfl⟩
      · next result =>
        rcases List.mem_cons.mp member with rfl | further
        · exact ⟨first, List.mem_cons_self, Transition.sameEnds_of_freeze result⟩
        · obtain ⟨transition, inRest, same⟩ := ih further
          exact ⟨transition, List.mem_cons_of_mem _ inRest, same⟩

theorem sameEnds_of_mem_freezeGroups {groups : List (TransitionGroup δ γ)}
    {frozen : TransitionGroup δ γ} (member : frozen ∈ (freezeGroups groups).1) :
    ∃ group ∈ groups, frozen.source = group.source ∧ frozen.event = group.event ∧
      ∀ transition ∈ frozen.transitions, ∃ old ∈ group.transitions, old.SameEnds transition := by
  induction groups with
  | nil => contradiction
  | cons first rest ih =>
      have sorted {transition : Transition δ γ}
          (inFrozen : transition ∈ (freezeTransitions (byPriority first.transitions)).1) :
          ∃ old ∈ first.transitions, old.SameEnds transition := by
        obtain ⟨old, inSorted, same⟩ := sameEnds_of_mem_freezeTransitions inFrozen
        exact ⟨old, List.mem_mergeSort.mp inSorted, same⟩
      unfold freezeGroups at member
      split at member
      · next transitions error stopped =>
        rcases List.mem_cons.mp member with rfl | further
        · refine ⟨first, List.mem_cons_self, rfl, rfl, fun transition inFrozen => sorted ?_⟩
          rw [stopped]
          exact inFrozen
        · exact ⟨frozen, List.mem_cons_of_mem _ further, rfl, rfl,
            fun transition inFrozen => ⟨transition, inFrozen, rfl, rfl, rfl⟩⟩
      · next transitions done =>
        rcases List.mem_cons.mp member with rfl | further
        · refine ⟨first, List.mem_cons_self, rfl, rfl, fun transition inFrozen => sorted ?_⟩
          rw [done]
          exact inFrozen
        · obtain ⟨group, inRest, sourceEq, eventEq, same⟩ := ih further
          exact ⟨group, List.mem_cons_of_mem _ inRest, sourceEq, eventEq, same⟩

theorem groups_left_freeze (table : Table δ γ) :
    table.freeze.left.groups = table.groups ∨
      table.freeze.left.groups = (freezeGroups table.groups).1 := by
  unfold freeze
  split
  · exact Or.inl rfl
  · split
    · next result => exact Or.inr (by rw [result]; rfl)
    · next result => exact Or.inr (by rw [result]; rfl)

theorem keyed_freeze (keyed : table.Keyed) : table.freeze.left.Keyed := by
  intro frozen member transition inFrozen
  rcases groups_left_freeze table with same | sorted
  · rw [same] at member
    exact keyed frozen member transition inFrozen
  · rw [sorted] at member
    obtain ⟨group, inTable, sourceEq, eventEq, ends⟩ := sameEnds_of_mem_freezeGroups member
    obtain ⟨old, oldMember, oldSource, _, oldEvent⟩ := ends transition inFrozen
    obtain ⟨sourceKey, eventKey⟩ := keyed group inTable old oldMember
    exact ⟨by rw [oldSource, sourceKey, sourceEq], by rw [oldEvent, eventKey, eventEq]⟩

theorem Reachable.keyed (reachable : table.Reachable) : table.Keyed := by
  induction reachable with
  | empty =>
      intro group member
      contradiction
  | add _ transition ih => exact keyed_add ih transition
  | freeze _ ih => exact keyed_freeze ih

theorem mem_transitions_of_mem_candidates {source : StateId} {event : EventId}
    {transition : Transition δ γ} (candidate : transition ∈ table.candidates source event) :
    ∃ group ∈ table.groups, group.source = source ∧ group.event = event ∧
      transition ∈ group.transitions := by
  unfold candidates at candidate
  split at candidate
  · next group found =>
    have hit := List.find?_some found
    rw [Bool.and_eq_true, decide_eq_true_eq, decide_eq_true_eq] at hit
    exact ⟨group, List.mem_of_find?_eq_some found, hit.1, hit.2, candidate⟩
  · contradiction

end Table

namespace Chart

/-- Put together from parts that can be built. -/
def Accepted (chart : Chart δ γ) : Prop :=
  ∃ forest table initial, forest.Reachable ∧ table.Reachable ∧
    assemble forest table initial = .ok chart

def TargetsKnown (chart : Chart δ γ) : Prop :=
  ∀ transition ∈ chart.table.transitions, chart.forest.contains transition.target = true

structure WellFormed (chart : Chart δ γ) : Prop where
  forest : chart.forest.WellFormed
  keyed : chart.table.Keyed
  targets_known : chart.TargetsKnown

theorem assemble_eq_ok {forest : Forest δ γ} {table : Table δ γ} {initial : Option StateId}
    {chart : Chart δ γ} (assembled : assemble forest table initial = .ok chart) :
    forest.frozen = true ∧ table.frozen = true ∧ (∀ id ∈ initial, forest.contains id = true) ∧
      chart = ⟨forest, table, initial⟩ := by
  unfold assemble at assembled
  split at assembled
  · next frozen =>
    split at assembled
    · cases assembled
      exact ⟨frozen.1, frozen.2, by simp, rfl⟩
    · split at assembled
      · next known =>
        cases assembled
        refine ⟨frozen.1, frozen.2, fun _ named => ?_, rfl⟩
        cases named
        exact known
      · contradiction
  · contradiction

theorem Accepted.wellFormed {chart : Chart δ γ} (accepted : chart.Accepted)
    (known : chart.TargetsKnown) : chart.WellFormed := by
  obtain ⟨forest, table, initial, forestReachable, tableReachable, assembled⟩ := accepted
  obtain ⟨frozen, _, _, rfl⟩ := assemble_eq_ok assembled
  exact ⟨(forestReachable.buildable.intact frozen).wellFormed, tableReachable.keyed, known⟩

theorem WellFormed.select?_eq_some {chart : Chart δ γ} (wellFormed : chart.WellFormed)
    {current : StateId} {occurrence : Occurrence γ} {transition : Transition δ γ}
    (selected : chart.select? current occurrence = some transition) :
    transition.source ∈ chart.forest.ancestors current ∧
      chart.forest.contains transition.target = true ∧
      transition.event = occurrence.event ∧
      transition.accepts occurrence.context = true := by
  obtain ⟨state, around, found⟩ := List.exists_of_findSome?_eq_some selected
  obtain ⟨group, inTable, sourceEq, eventEq, member⟩ :=
    Table.mem_transitions_of_mem_candidates (List.mem_of_find?_eq_some found)
  obtain ⟨sourceKey, eventKey⟩ := wellFormed.keyed group inTable transition member
  have accepted : transition.accepts occurrence.context = true := by
    simpa using List.find?_some found
  refine ⟨?_, ?_, eventKey.trans eventEq, accepted⟩
  · rw [sourceKey, sourceEq]
    exact around
  · exact wellFormed.targets_known transition (List.mem_flatMap.mpr ⟨group, inTable, member⟩)

end Chart

end Statechart
