import Mathlib.Data.List.Nodup
import Statechart.Proofs.Hierarchy.Lineage

namespace Statechart

variable {δ γ : Type}

namespace Forest

/-- The innermost state that is or contains both states; none if they share no root. -/
def lowestCommon? (forest : Forest δ γ) (first second : StateId) : Option StateId :=
  (forest.ancestors first).find? fun state => forest.isAncestorOrSelf state second

variable {forest : Forest δ γ}

namespace WellFormed

theorem ancestors_eq_of_split (wellFormed : forest.WellFormed) {id ancestor : StateId}
    {inner outer : List StateId} (split : forest.ancestors id = inner ++ ancestor :: outer) :
    forest.ancestors ancestor = ancestor :: outer := by
  obtain ⟨below, rest, lineageEq, _, restEq⟩ := List.map_eq_append_iff.mp split
  obtain ⟨node, above, rfl, nodeEq, _⟩ := List.map_eq_cons_iff.mp restEq
  have up := wellFormed.ascends_lineage id
  rw [lineageEq] at up
  rw [ancestors, ← nodeEq, up.of_append.lineage_eq, restEq, nodeEq]

theorem eq_of_mem_ancestors (wellFormed : forest.WellFormed) {first second : StateId}
    (inside : first ∈ forest.ancestors second) (outside : second ∈ forest.ancestors first) :
    first = second := by
  obtain ⟨below, firstEq⟩ := wellFormed.ancestors_eq_append outside
  obtain ⟨beside, secondEq⟩ := wellFormed.ancestors_eq_append inside
  have lengths := congrArg List.length firstEq
  rw [secondEq, List.length_append, List.length_append] at lengths
  have none : beside = [] := List.length_eq_zero_iff.mp (by omega)
  obtain ⟨node, found⟩ := known_of_mem_ancestors outside
  obtain ⟨other, otherFound⟩ := known_of_mem_ancestors inside
  rw [none, List.nil_append, wellFormed.ancestors_eq_cons found,
    wellFormed.ancestors_eq_cons otherFound] at secondEq
  exact (List.cons.inj secondEq).1.symm

theorem lowestCommon?_eq_some_iff (wellFormed : forest.WellFormed)
    {first second common : StateId} :
    forest.lowestCommon? first second = some common ↔
      common ∈ forest.ancestors first ∧ common ∈ forest.ancestors second ∧
        ∀ other ∈ forest.ancestors first, other ∈ forest.ancestors second →
          other ∈ forest.ancestors common := by
  have forwards {common : StateId} (found : forest.lowestCommon? first second = some common) :
      common ∈ forest.ancestors first ∧ common ∈ forest.ancestors second ∧
        ∀ other ∈ forest.ancestors first, other ∈ forest.ancestors second →
          other ∈ forest.ancestors common := by
    obtain ⟨shared, inner, outer, split, apart⟩ := List.find?_eq_some_iff_append.mp found
    refine ⟨List.mem_of_find?_eq_some found, isAncestorOrSelf_iff.mp shared, ?_⟩
    intro other member member'
    rw [wellFormed.ancestors_eq_of_split split]
    rw [split, List.mem_append] at member
    rcases member with inside | around
    · have unshared := apart other inside
      rw [isAncestorOrSelf_iff.mpr member'] at unshared
      contradiction
    · exact around
  refine ⟨forwards, fun ⟨member, member', lowest⟩ => ?_⟩
  cases found : forest.lowestCommon? first second with
  | none =>
      have unshared := List.find?_eq_none.mp found common member
      rw [isAncestorOrSelf_iff] at unshared
      contradiction
  | some other =>
      obtain ⟨otherMember, otherMember', otherLowest⟩ := forwards found
      rw [wellFormed.eq_of_mem_ancestors (lowest other otherMember otherMember')
        (otherLowest common member member')]

theorem lowestCommon?_eq_none_iff {first second : StateId} :
    forest.lowestCommon? first second = none ↔
      ∀ other ∈ forest.ancestors first, other ∉ forest.ancestors second := by
  simp only [lowestCommon?, List.find?_eq_none, isAncestorOrSelf_iff]

/-- The ways up from two states are apart as long as they have not met. -/
theorem exists_split (wellFormed : forest.WellFormed) (first second : StateId) :
    ∃ below beside,
      forest.lineage first =
        below ++ (forest.lowestCommon? first second).elim [] forest.lineage ∧
      forest.lineage second =
        beside ++ (forest.lowestCommon? first second).elim [] forest.lineage ∧
      (below.map Node.id).Disjoint (beside.map Node.id) := by
  cases found : forest.lowestCommon? first second with
  | none =>
      refine ⟨forest.lineage first, forest.lineage second, ?_, ?_, ?_⟩
      · rw [Option.elim_none, List.append_nil]
      · rw [Option.elim_none, List.append_nil]
      · intro id member member'
        exact lowestCommon?_eq_none_iff.mp found id member member'
  | some common =>
      obtain ⟨inFirst, inSecond, lowest⟩ := wellFormed.lowestCommon?_eq_some_iff.mp found
      obtain ⟨meeting, meetingMember, meetingEq⟩ := List.mem_map.mp inFirst
      obtain ⟨meeting', meetingMember', meetingEq'⟩ := List.mem_map.mp inSecond
      obtain ⟨below, firstEq⟩ := wellFormed.lineage_eq_append meetingMember
      obtain ⟨beside, secondEq⟩ := wellFormed.lineage_eq_append meetingMember'
      rw [meetingEq] at firstEq
      rw [meetingEq'] at secondEq
      refine ⟨below, beside, firstEq, secondEq, ?_⟩
      intro id member member'
      have listed : id ∈ forest.ancestors first := by
        rw [ancestors, firstEq, List.map_append]
        exact List.mem_append_left _ member
      have listed' : id ∈ forest.ancestors second := by
        rw [ancestors, secondEq, List.map_append]
        exact List.mem_append_left _ member'
      -- A state in which the ways met earlier would lie above the lowest common one.
      have again := lowest id listed listed'
      have apart := wellFormed.ancestors_nodup first
      rw [ancestors, firstEq, List.map_append] at apart
      exact List.disjoint_of_nodup_append apart member again

end WellFormed

end Forest

end Statechart
