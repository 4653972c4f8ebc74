import Statechart.Proofs.Run.Walk

namespace Statechart

variable {δ γ : Type}

namespace Forest

/--
The calls on the way from one state to another.  None if a state that is looked up is not there, or
if the steps run out.
-/
def transit? (forest : Forest δ γ) (transition : Transition δ γ) :
    Nat → StateId → StateId → Option (List (PlannedCall δ γ))
  | 0, _, _ => none
  | steps + 1, source, target =>
    if source = transition.target then
      if transition.kind = .localized then
        some [.perform transition]
      else
        (forest.node? source).map fun node => [.exit node, .perform transition, .enter node]
    else if source = target then
      some [.perform transition]
    else
      (forest.node? source).bind fun node =>
      (forest.node? target).bind fun other =>
        if node.parent = other.parent then
          some [.exit node, .perform transition, .enter other]
        else
          match node.parent, other.parent, compare node.level other.level with
          | some up, _, .gt =>
            (transit? forest transition steps up target).map fun calls => .exit node :: calls
          | _, some up, .lt =>
            (transit? forest transition steps source up).map fun calls => calls ++ [.enter other]
          | some up, some up', _ =>
            (transit? forest transition steps up up').map fun calls =>
              .exit node :: calls ++ [.enter other]
          | _, _, _ => some [.exit node, .perform transition, .enter other]

end Forest

variable {forest : Forest δ γ} {transition : Transition δ γ} {source target : Node δ γ}
  {above beyond : List (Node δ γ)}

theorem Chart.transit?_eq_passage (up : forest.Ascends (source :: above))
    (down : forest.Ascends (target :: beyond)) {steps : Nat}
    (enough : above.length + beyond.length < steps) :
    forest.transit? transition steps source.id target.id =
      some (passage transition (source :: above) (target :: beyond)) := by
  induction steps generalizing source target above beyond with
  | zero => omega
  | succ steps ih =>
      have found := up.found_of_mem List.mem_cons_self
      have found' := down.found_of_mem List.mem_cons_self
      by_cases goal : source.id = transition.target
      · rw [Forest.transit?, passage, passageFrom, if_pos goal, if_pos goal, found]
        split <;> rfl
      by_cases met : source.id = target.id
      · rw [Forest.transit?, passage, passageFrom, if_neg goal, if_neg goal, if_pos met, if_pos met]
      by_cases siblings : source.parent = target.parent
      · rw [Forest.transit?, passage, passageFrom, if_neg goal, if_neg goal, if_neg met, if_neg met,
          found, Option.bind_some, found', Option.bind_some, if_pos siblings, if_pos siblings]
      rw [Forest.transit?, if_neg goal, if_neg met, found, Option.bind_some, found',
        Option.bind_some, if_neg siblings]
      have level := up.level_eq
      have level' := down.level_eq
      rcases Nat.lt_trichotomy above.length beyond.length with shallower | even | deeper
      · cases beyond with
        | nil => contradiction
        | cons next beyond =>
            have nested : target.parent = some next.id := down.parent_eq
            have compared : compare source.level target.level = .lt :=
              Nat.compare_eq_lt.mpr (by omega)
            rw [List.length_cons] at enough
            rw [passage_of_shallower up down goal shallower, nested, compared]
            simp [ih up down.tail (by omega)]
      · cases above with
        | nil =>
            -- Ends at the same level without parents would be siblings.
            rw [List.length_nil, eq_comm, List.length_eq_zero_iff] at even
            subst even
            exact absurd (up.parent_eq.trans down.parent_eq.symm) siblings
        | cons next above =>
            cases beyond with
            | nil => contradiction
            | cons next' beyond =>
                have nested : source.parent = some next.id := up.parent_eq
                have nested' : target.parent = some next'.id := down.parent_eq
                have compared : compare source.level target.level = .eq :=
                  Nat.compare_eq_eq.mpr (by omega)
                have apart : next.id ≠ next'.id := fun same =>
                  siblings (by rw [nested, nested', same])
                rw [List.length_cons, List.length_cons] at enough even
                rw [passage_of_length_eq up down goal apart (by omega), nested, nested', compared]
                simp [ih up.tail down.tail (by omega)]
      · cases above with
        | nil => contradiction
        | cons next above =>
            have nested : source.parent = some next.id := up.parent_eq
            have compared : compare source.level target.level = .gt :=
              Nat.compare_eq_gt.mpr (by omega)
            rw [List.length_cons] at enough
            rw [passage_of_deeper up down goal deeper, nested, compared]
            simp [ih up.tail down (by omega)]

/-- Two steps for each state suffice. -/
theorem Forest.WellFormed.transit?_eq_passage (wellFormed : forest.WellFormed)
    (transition : Transition δ γ) (known : forest.contains transition.source = true)
    (known' : forest.contains transition.target = true) :
    forest.transit? transition (2 * forest.size) transition.source transition.target =
      some (Chart.passage transition (forest.lineage transition.source)
        (forest.lineage transition.target)) := by
  obtain ⟨source, found⟩ := Option.isSome_iff_exists.mp known
  obtain ⟨target, found'⟩ := Option.isSome_iff_exists.mp known'
  obtain ⟨above, lineageEq, up⟩ := wellFormed.exists_lineage_eq found
  obtain ⟨beyond, lineageEq', down⟩ := wellFormed.exists_lineage_eq found'
  have bound := up.length_le_size
  have bound' := down.length_le_size
  rw [List.length_cons] at bound bound'
  rw [lineageEq, lineageEq', ← id_of_node? found, ← id_of_node? found']
  exact Chart.transit?_eq_passage up down (by omega)

end Statechart
