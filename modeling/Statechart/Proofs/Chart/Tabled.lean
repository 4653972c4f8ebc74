import Mathlib.Data.List.Permutation
import Statechart.Proofs.Behavior.Arranged
import Statechart.Proofs.Chart.Compiled
import Statechart.Proofs.Layer.Absorption

namespace Statechart

variable {δ γ : Type}

/-- Whether the guard that a reference names or gives lets an event pass. -/
def GuardRef.Accepts (registry : Registry δ γ) (context : γ) : GuardRef γ → Prop
  | .named name => ∃ guard, registry.guard? name = some guard ∧ guard.check context = true
  | .direct guard => guard.check context = true

def TransitionDecl.Accepts (registry : Registry δ γ) (declaration : TransitionDecl δ γ)
    (context : γ) : Prop :=
  ∀ guard ∈ declaration.guard, guard.Accepts registry context

theorem TransitionDecl.check_iff_of_resolveGuard {registry : Registry δ γ}
    {declaration : TransitionDecl δ γ} {guard : Guard γ}
    (resolved : declaration.resolveGuard registry = .ok guard) (context : γ) :
    guard.check context = true ↔ declaration.Accepts registry context := by
  unfold resolveGuard at resolved
  unfold Accepts
  cases given : declaration.guard with
  | none =>
      simp only [given] at resolved
      cases resolved
      simp
  | some ref =>
      cases ref with
      | direct guard' =>
          simp only [given] at resolved
          cases resolved
          simp [GuardRef.Accepts]
      | named name =>
          simp only [given] at resolved
          cases found : registry.guard? name with
          | none => simp [found] at resolved
          | some guard' =>
              simp only [found] at resolved
              cases resolved
              simp [GuardRef.Accepts, found]

namespace Transition

variable {registry : Registry δ γ} {transition : Transition δ γ} {declaration : TransitionDecl δ γ}

structure Mirrors (registry : Registry δ γ) (transition : Transition δ γ)
    (declaration : TransitionDecl δ γ) : Prop where
  source_eq : transition.source = declaration.source
  target_eq : transition.target = declaration.destination
  event_eq : transition.event = declaration.event
  priority_eq : transition.priority = declaration.priority.getD 10
  kind_eq : transition.kind = declaration.effectiveKind
  accepts_iff : ∀ context, transition.accepts context = true ↔ declaration.Accepts registry context

def sealed (transition : Transition δ γ) : Transition δ γ :=
  { transition with actions := transition.actions.sort, frozen := true }

theorem eq_of_change_eq_ok {changed result : Transition δ γ}
    (done : transition.change changed = .ok result) : result = changed := by
  unfold change at done
  split at done
  · contradiction
  · exact (Except.ok.inj done).symm

theorem pushAll_eq_ok {changed : Transition δ γ} {slots : List (Slot δ γ)}
    (done : slots.foldlM addAction transition = .ok changed) :
    changed = { transition with actions := transition.actions.extend slots } := by
  induction slots generalizing transition with
  | nil =>
      cases done
      rfl
  | cons slot slots ih =>
      rw [List.foldlM_cons] at done
      obtain ⟨next, added, rest⟩ := bind_eq_ok_iff.mp done
      cases eq_of_change_eq_ok added
      exact ih rest

theorem freeze_eq_ok {changed : Transition δ γ} (done : transition.freeze = .ok changed) :
    changed = transition.sealed :=
  eq_of_change_eq_ok done

structure Realizes (registry : Registry δ γ) (transition : Transition δ γ)
    (declaration : TransitionDecl δ γ) : Prop where
  mirrors : transition.Mirrors registry declaration
  collects : ActionList.Collects registry declaration.refs
    (Hook.forTransition declaration.source declaration.destination declaration.event)
    transition.actions

theorem realizes_of_transition (done : declaration.transition registry = .ok transition) :
    transition.Realizes registry declaration := by
  obtain ⟨guard, resolved, done⟩ := bind_eq_ok_iff.mp done
  obtain ⟨bare, kindSet, done⟩ := bind_eq_ok_iff.mp done
  obtain ⟨slots, bound, done⟩ := bind_eq_ok_iff.mp done
  have bareEq : bare =
      { source := declaration.source
        target := declaration.destination
        event := declaration.event
        guard
        priority := declaration.priority.getD Priority.normal
        kind := declaration.effectiveKind } := by
    unfold withKind at kindSet
    split at kindSet
    · contradiction
    · exact (Except.ok.inj kindSet).symm
  have transitionEq := pushAll_eq_ok done
  subst transitionEq bareEq
  refine ⟨⟨rfl, rfl, rfl, rfl, rfl, TransitionDecl.check_iff_of_resolveGuard resolved⟩, ?_⟩
  exact ⟨slots, ActionRef.forall₂_of_slots_eq_ok bound, ActionList.slots_extend_empty _⟩

theorem Mirrors.sealed (mirrors : transition.Mirrors registry declaration) :
    transition.sealed.Mirrors registry declaration :=
  ⟨mirrors.source_eq, mirrors.target_eq, mirrors.event_eq, mirrors.priority_eq, mirrors.kind_eq,
    mirrors.accepts_iff⟩

end Transition

namespace Table

variable {table changed : Table δ γ} {transition : Transition δ γ} {source : StateId}
  {event : EventId}

def Leaves (source : StateId) (event : EventId) (transition : Transition δ γ) : Prop :=
  transition.source = source ∧ transition.event = event

instance (source : StateId) (event : EventId) (transition : Transition δ γ) :
    Decidable (Leaves source event transition) :=
  inferInstanceAs (Decidable (_ ∧ _))

theorem candidates_cons (group : TransitionGroup δ γ) (groups : List (TransitionGroup δ γ))
    (frozen : Bool) (source : StateId) (event : EventId) :
    candidates ⟨group :: groups, frozen⟩ source event =
      if group.source = source ∧ group.event = event then group.transitions
      else candidates ⟨groups, frozen⟩ source event := by
  by_cases hit : group.source = source ∧ group.event = event <;> simp [candidates, hit]

theorem filter_singleton_of_leaves (leaves : Leaves source event transition) :
    ([transition].filter fun transition => Leaves source event transition) = [transition] := by
  rw [List.filter_cons_of_pos (by simpa using leaves), List.filter_nil]

theorem filter_singleton_of_not_leaves (misses : ¬ Leaves source event transition) :
    ([transition].filter fun transition => Leaves source event transition) = [] := by
  rw [List.filter_cons_of_neg (by simpa using misses), List.filter_nil]

theorem candidates_place (transition : Transition δ γ) (groups : List (TransitionGroup δ γ))
    (frozen : Bool) (source : StateId) (event : EventId) :
    candidates ⟨place transition groups, frozen⟩ source event =
      candidates ⟨groups, frozen⟩ source event ++
        [transition].filter fun transition => Leaves source event transition := by
  induction groups with
  | nil =>
      rw [place, candidates_cons]
      by_cases leaves : Leaves source event transition
      · rw [filter_singleton_of_leaves leaves]
        exact if_pos leaves
      · rw [filter_singleton_of_not_leaves leaves]
        exact if_neg leaves
  | cons group groups ih =>
      rw [place]
      by_cases fits : group.source = transition.source ∧ group.event = transition.event
      · rw [if_pos fits, candidates_cons, candidates_cons]
        by_cases hit : group.source = source ∧ group.event = event
        · rw [if_pos hit, if_pos hit, filter_singleton_of_leaves]
          exact ⟨fits.1.symm.trans hit.1, fits.2.symm.trans hit.2⟩
        · rw [if_neg hit, if_neg hit, filter_singleton_of_not_leaves, List.append_nil]
          exact fun leaves => hit ⟨fits.1.trans leaves.1, fits.2.trans leaves.2⟩
      · rw [if_neg fits, candidates_cons, candidates_cons]
        by_cases hit : group.source = source ∧ group.event = event
        · rw [if_pos hit, if_pos hit, filter_singleton_of_not_leaves, List.append_nil]
          exact fun leaves => fits ⟨hit.1.trans leaves.1.symm, hit.2.trans leaves.2.symm⟩
        · rw [if_neg hit, if_neg hit, ih]

theorem add_eq_ok (added : table.add transition = .ok changed) :
    changed = { table with groups := place transition table.groups } := by
  unfold add at added
  split at added
  · contradiction
  · exact (Except.ok.inj added).symm

/-- The table holds some transitions, each group in the order in which they are listed. -/
structure Holds (table : Table δ γ) (transitions : List (Transition δ γ)) : Prop where
  perm : table.transitions.Perm transitions
  candidates_eq : ∀ source event,
    table.candidates source event = transitions.filter fun transition =>
      Leaves source event transition

theorem Holds.add {transitions : List (Transition δ γ)} (holds : table.Holds transitions)
    (added : table.add transition = .ok changed) : changed.Holds (transitions ++ [transition]) := by
  cases add_eq_ok added
  refine ⟨?_, fun source event => ?_⟩
  · refine (place_perm transition table.groups).trans ?_
    exact (holds.perm.cons transition).trans (List.perm_append_singleton transition _).symm
  · rw [candidates_place, List.filter_append]
    exact congrArg (· ++ _) (holds.candidates_eq source event)

theorem Holds.declarations {declarations : List (TransitionDecl δ γ)} {registry : Registry δ γ}
    {transitions : List (Transition δ γ)} (holds : table.Holds transitions)
    (done : declarations.foldlM (declare registry) table = .ok changed) :
    ∃ later, List.Forall₂ (Transition.Realizes registry) later declarations ∧
      changed.Holds (transitions ++ later) := by
  induction declarations generalizing table transitions with
  | nil =>
      cases done
      exact ⟨[], .nil, by rwa [List.append_nil]⟩
  | cons declaration declarations ih =>
      rw [List.foldlM_cons] at done
      obtain ⟨next, declared, rest⟩ := bind_eq_ok_iff.mp done
      obtain ⟨transition, built, added⟩ := bind_eq_ok_iff.mp declared
      obtain ⟨later, realizes, holdsAll⟩ :=
        ih (holds.add (Change.toExcept_eq_ok_iff.mp added)) rest
      refine ⟨transition :: later, .cons (Transition.realizes_of_transition built) realizes, ?_⟩
      rwa [List.append_assoc, List.singleton_append] at holdsAll

theorem freezeTransitions_eq_none {transitions transitions' : List (Transition δ γ)}
    (done : freezeTransitions transitions = (transitions', none)) :
    transitions' = transitions.map Transition.sealed := by
  induction transitions generalizing transitions' with
  | nil =>
      cases done
      rfl
  | cons transition transitions ih =>
      unfold freezeTransitions at done
      split at done
      · simp at done
      · next frozen result =>
        cases later : freezeTransitions transitions with
        | mk rest error? =>
            simp only [later, Prod.mk.injEq] at done
            obtain ⟨rfl, rfl⟩ := done
            rw [Transition.freeze_eq_ok result, ih later, List.map_cons]

def sealedGroup (group : TransitionGroup δ γ) : TransitionGroup δ γ :=
  { group with transitions := (byPriority group.transitions).map Transition.sealed }

theorem freezeGroups_eq_none {groups groups' : List (TransitionGroup δ γ)}
    (done : freezeGroups groups = (groups', none)) : groups' = groups.map sealedGroup := by
  induction groups generalizing groups' with
  | nil =>
      cases done
      rfl
  | cons group groups ih =>
      unfold freezeGroups at done
      split at done
      · simp at done
      · next transitions result =>
        cases later : freezeGroups groups with
        | mk rest error? =>
            simp only [later, Prod.mk.injEq] at done
            obtain ⟨rfl, rfl⟩ := done
            rw [freezeTransitions_eq_none result, ih later, List.map_cons, sealedGroup]

theorem freeze_eq_ok (done : table.freeze = .ok changed) :
    changed = { groups := table.groups.map sealedGroup, frozen := true } := by
  unfold freeze at done
  split at done
  · contradiction
  · split at done
    · contradiction
    · next groups result =>
      rw [← Except.ok.inj done, freezeGroups_eq_none result]

theorem candidates_sealed (groups : List (TransitionGroup δ γ)) (frozen frozen' : Bool)
    (source : StateId) (event : EventId) :
    candidates ⟨groups.map sealedGroup, frozen⟩ source event =
      (byPriority (candidates ⟨groups, frozen'⟩ source event)).map Transition.sealed := by
  induction groups with
  | nil => simp [candidates, byPriority]
  | cons group groups ih =>
      rw [List.map_cons, candidates_cons, candidates_cons, sealedGroup]
      by_cases hit : group.source = source ∧ group.event = event
      · rw [if_pos hit, if_pos hit]
      · rw [if_neg hit, if_neg hit, ih]

theorem transitions_sealed_perm (groups : List (TransitionGroup δ γ)) :
    ((groups.map sealedGroup).flatMap TransitionGroup.transitions).Perm
      ((groups.flatMap TransitionGroup.transitions).map Transition.sealed) := by
  induction groups with
  | nil => exact .refl _
  | cons group groups ih =>
      rw [List.map_cons, List.flatMap_cons, List.flatMap_cons, List.map_append]
      exact ((List.mergeSort_perm _ _).map _).append ih

/-- What a frozen table has of some transitions: each group is tried by descending priority. -/
structure Offers (table : Table δ γ) (transitions : List (Transition δ γ)) : Prop where
  perm : table.transitions.Perm transitions
  ranked : ∀ source event,
    Ranked Transition.priority
      (transitions.filter fun transition => Leaves source event transition)
      (table.candidates source event)

theorem Holds.offers {transitions : List (Transition δ γ)} (holds : table.Holds transitions)
    (done : table.freeze = .ok changed) : changed.Offers (transitions.map Transition.sealed) := by
  cases freeze_eq_ok done
  refine ⟨(transitions_sealed_perm table.groups).trans (holds.perm.map _), fun source event => ?_⟩
  rw [candidates_sealed table.groups true table.frozen, List.filter_map]
  refine Ranked.map (fun _ => rfl) ?_
  rw [holds.candidates_eq source event]
  exact ranked_mergeSort _ _

end Table

namespace Chart

variable {chain : List (Layer δ γ)} {registry : Registry δ γ} {chart : Chart δ γ}

/-- What a transition of a chart has from its declaration, its actions included. -/
structure Carries (registry : Registry δ γ) (transition : Transition δ γ)
    (declaration : TransitionDecl δ γ) : Prop
    extends transition.Mirrors registry declaration where
  inOrder : ActionList.InOrder registry declaration.refs
    (Hook.forTransition declaration.source declaration.destination declaration.event)
    transition.actions

theorem exists_transitions_of_ofLayers (compiled : Chart.ofLayers chain registry = .ok chart) :
    ∃ transitions, List.Forall₂ (Carries registry) transitions (Layer.merge chain).transitions ∧
      chart.table.Offers transitions := by
  obtain ⟨declared, hooked, open_, built⟩ := Layer.exists_built compiled
  have empty : ({} : Table δ γ).Holds [] := ⟨.refl _, fun _ _ => rfl⟩
  obtain ⟨transitions, realizes, holds⟩ := empty.declarations built.adds
  rw [List.nil_append] at holds
  refine ⟨transitions.map Transition.sealed, ?_, holds.offers built.seals_table⟩
  rw [List.forall₂_map_left_iff]
  exact realizes.imp fun transition declaration own => ⟨own.mirrors.sealed, own.collects.sort.inOrder⟩

end Chart

end Statechart
