import Statechart.Chart.Transition
import Statechart.Hierarchy.Refusal

namespace Statechart

variable {δ γ : Type}

/-- The transitions that leave one state on one event, in the order in which they are tried. -/
structure TransitionGroup (δ γ : Type) where
  source : StateId
  event : EventId
  transitions : List (Transition δ γ)

structure Table (δ γ : Type) where
  groups : List (TransitionGroup δ γ) := []
  frozen : Bool := false

namespace Table

def candidates (table : Table δ γ) (source : StateId) (event : EventId) :
    List (Transition δ γ) :=
  match table.groups.find? fun group => group.source = source && group.event = event with
  | some group => group.transitions
  | none => []

def transitions (table : Table δ γ) : List (Transition δ γ) :=
  table.groups.flatMap TransitionGroup.transitions

def size (table : Table δ γ) : Nat :=
  table.transitions.length

def isEmpty (table : Table δ γ) : Bool :=
  table.groups.isEmpty

def place (transition : Transition δ γ) :
    List (TransitionGroup δ γ) → List (TransitionGroup δ γ)
  | [] => [⟨transition.source, transition.event, [transition]⟩]
  | group :: rest =>
    if group.source = transition.source ∧ group.event = transition.event then
      { group with transitions := group.transitions ++ [transition] } :: rest
    else
      group :: place transition rest

theorem place_perm (transition : Transition δ γ) (groups : List (TransitionGroup δ γ)) :
    ((place transition groups).flatMap TransitionGroup.transitions).Perm
      (transition :: groups.flatMap TransitionGroup.transitions) := by
  induction groups with
  | nil => exact List.Perm.refl _
  | cons group rest ih =>
    by_cases fits : group.source = transition.source ∧ group.event = transition.event
    · rw [place, if_pos fits]
      simp only [List.flatMap_cons, List.append_assoc, List.singleton_append]
      exact List.perm_middle
    · rw [place, if_neg fits]
      simp only [List.flatMap_cons]
      exact (List.Perm.append_left _ ih).trans List.perm_middle

def add (table : Table δ γ) (transition : Transition δ γ) : Change (Table δ γ) :=
  if table.frozen then
    .error ⟨.configuration .tableFrozen, table⟩
  else
    .ok { table with groups := place transition table.groups }

def byPriority (transitions : List (Transition δ γ)) : List (Transition δ γ) :=
  transitions.mergeSort fun first second => decide (second.priority ≤ first.priority)

def freezeTransitions : List (Transition δ γ) → List (Transition δ γ) × Option BuildError
  | [] => ([], none)
  | transition :: rest =>
    match transition.freeze with
    | .error error => (transition :: rest, some error)
    | .ok transition =>
      let (rest, error?) := freezeTransitions rest
      (transition :: rest, error?)

def freezeGroups : List (TransitionGroup δ γ) → List (TransitionGroup δ γ) × Option BuildError
  | [] => ([], none)
  | group :: rest =>
    match freezeTransitions (byPriority group.transitions) with
    | (transitions, some error) => ({ group with transitions } :: rest, some error)
    | (transitions, none) =>
      let (rest, error?) := freezeGroups rest
      ({ group with transitions } :: rest, error?)

/-- Sorts every group and freezes the table; stops at a transition that is frozen already. -/
def freeze (table : Table δ γ) : Change (Table δ γ) :=
  if table.frozen then
    .error ⟨.configuration .tableFrozen, table⟩
  else
    match freezeGroups table.groups with
    | (groups, some error) => .error ⟨error, { table with groups }⟩
    | (groups, none) => .ok { groups, frozen := true }

end Table

end Statechart
