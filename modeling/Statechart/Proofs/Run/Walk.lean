import Statechart.Proofs.Hierarchy.CommonAncestor
import Statechart.Run.Plan

/-!
The way between the ends of a transition.

It leaves everything below the boundary of the transition, innermost first, and enters everything
below the boundary on the other side, outermost first; the transition's actions run in between.  The
boundary is the lowest common ancestor of the ends, unless the target is the source or contains it.
-/

namespace Statechart

variable {δ γ : Type}

namespace Chart

variable {forest : Forest δ γ} {transition : Transition δ γ}

section Steps

variable {source target meeting meeting' : Node δ γ} {above beyond : List (Node δ γ)}

theorem passage_of_deeper (up : forest.Ascends (source :: above))
    (down : forest.Ascends (target :: beyond)) (notGoal : source.id ≠ transition.target)
    (deeper : beyond.length < above.length) :
    passage transition (source :: above) (target :: beyond) =
      .exit source :: passage transition above (target :: beyond) := by
  have level := up.level_eq
  have level' := down.level_eq
  have differ : source.id ≠ target.id := by
    intro same
    rw [up.eq_of_id_eq down List.mem_cons_self List.mem_cons_self same] at level
    omega
  have notSiblings : source.parent ≠ target.parent := by
    intro siblings
    have := up.level_eq_of_parent_eq down siblings
    omega
  have nested : source.parent.isSome = true := up.parent_isSome_iff.mpr fun none => by
    simp [none] at deeper
  rw [passage, passageFrom, if_neg notGoal, if_neg differ, if_neg notSiblings,
    if_pos ⟨by omega, nested⟩]

theorem passage_of_shallower (up : forest.Ascends (source :: above))
    (down : forest.Ascends (target :: beyond)) (notGoal : source.id ≠ transition.target)
    (shallower : above.length < beyond.length) :
    passage transition (source :: above) (target :: beyond) =
      passage transition (source :: above) beyond ++ [.enter target] := by
  have level := up.level_eq
  have level' := down.level_eq
  have differ : source.id ≠ target.id := by
    intro same
    rw [up.eq_of_id_eq down List.mem_cons_self List.mem_cons_self same] at level
    omega
  have notSiblings : source.parent ≠ target.parent := by
    intro siblings
    have := up.level_eq_of_parent_eq down siblings
    omega
  have notDeeper : ¬(source.level > target.level ∧ source.parent.isSome) := by omega
  have nested : target.parent.isSome = true := down.parent_isSome_iff.mpr fun none => by
    simp [none] at shallower
  rw [passage, passageFrom, if_neg notGoal, if_neg differ, if_neg notSiblings, if_neg notDeeper,
    if_pos ⟨by omega, nested⟩]

theorem passage_of_siblings (up : forest.Ascends (source :: above))
    (down : forest.Ascends (target :: above)) (notGoal : source.id ≠ transition.target)
    (differ : source.id ≠ target.id) :
    passage transition (source :: above) (target :: above) =
      [.exit source, .perform transition, .enter target] := by
  have siblings : source.parent = target.parent := by
    rw [up.parent_eq, down.parent_eq]
  rw [passage, passageFrom, if_neg notGoal, if_neg differ, if_pos siblings]

theorem passage_of_length_eq (up : forest.Ascends (source :: meeting :: above))
    (down : forest.Ascends (target :: meeting' :: beyond))
    (notGoal : source.id ≠ transition.target) (apart : meeting.id ≠ meeting'.id)
    (even : above.length = beyond.length) :
    passage transition (source :: meeting :: above) (target :: meeting' :: beyond) =
      .exit source :: passage transition (meeting :: above) (meeting' :: beyond) ++
        [.enter target] := by
  have level := up.level_eq
  have level' := down.level_eq
  rw [List.length_cons] at level level'
  have parent := up.parent_eq
  have parent' := down.parent_eq
  have notSiblings : source.parent ≠ target.parent := by
    intro siblings
    rw [parent, parent'] at siblings
    exact apart (Option.some.inj siblings)
  have differ : source.id ≠ target.id := by
    intro same
    have equal := up.eq_of_id_eq down List.mem_cons_self List.mem_cons_self same
    exact notSiblings (congrArg Node.parent equal)
  have notDeeper : ¬(source.level > target.level ∧ source.parent.isSome) := by omega
  have notShallower : ¬(source.level < target.level ∧ target.parent.isSome) := by omega
  rw [passage, passageFrom, if_neg notGoal, if_neg differ, if_neg notSiblings, if_neg notDeeper,
    if_neg notShallower, if_pos ⟨by simp [parent], by simp [parent']⟩]

end Steps

variable {source target : Node δ γ} {below beside common above : List (Node δ γ)}

theorem passage_up {goal : Node δ γ} (up : forest.Ascends (below ++ goal :: above))
    (goalEq : goal.id = transition.target) :
    passage transition (below ++ goal :: above) (goal :: above) =
      below.map .exit ++
        if transition.kind = .localized then [.perform transition]
        else [.exit goal, .perform transition, .enter goal] := by
  induction below with
  | nil => rw [List.nil_append, passage, passageFrom, if_pos goalEq, List.map_nil, List.nil_append]
  | cons node below ih =>
      have differ := up.id_ne_of_mem List.mem_cons_self List.mem_cons_self
      have deeper : above.length < (below ++ goal :: above).length := by
        rw [List.length_append, List.length_cons]
        omega
      rw [List.cons_append] at up ⊢
      rw [passage_of_deeper up up.tail.of_append (goalEq ▸ differ) deeper, ih up.tail,
        List.map_cons, List.cons_append]

theorem passage_down (down : forest.Ascends (beside ++ source :: above))
    (notGoal : source.id ≠ transition.target) :
    passage transition (source :: above) (beside ++ source :: above) =
      .perform transition :: beside.reverse.map .enter := by
  induction beside with
  | nil => rw [List.nil_append, passage, passageFrom, if_neg notGoal, if_pos rfl]; rfl
  | cons target beside ih =>
      have shallower : above.length < (beside ++ source :: above).length := by
        rw [List.length_append, List.length_cons]
        omega
      rw [List.cons_append] at down ⊢
      rw [passage_of_shallower down.tail.of_append down notGoal shallower, ih down.tail,
        List.reverse_cons, List.map_append, List.cons_append, List.map_singleton]

theorem passage_across (up : forest.Ascends (source :: below ++ common))
    (down : forest.Ascends (target :: beside ++ common))
    (apart : ((source :: below).map Node.id).Disjoint ((target :: beside).map Node.id))
    (notGoal : ∀ node ∈ source :: below, node.id ≠ transition.target) :
    passage transition (source :: below ++ common) (target :: beside ++ common) =
      (source :: below).map .exit ++
        .perform transition :: (target :: beside).reverse.map .enter := by
  induction below generalizing source target beside with
  | nil =>
      have own := notGoal source List.mem_cons_self
      induction beside generalizing target with
      | nil =>
          have differ : source.id ≠ target.id := fun same =>
            apart List.mem_cons_self (same ▸ List.mem_cons_self)
          exact passage_of_siblings up down own differ
      | cons next beside ih =>
          have shallower : common.length < (next :: beside ++ common).length := by
            rw [List.length_append, List.length_cons]
            omega
          calc passage transition ([source] ++ common) (target :: next :: beside ++ common)
              = passage transition ([source] ++ common) (next :: beside ++ common) ++
                  [Call.enter target] := passage_of_shallower up down own shallower
            _ = _ := by
                rw [ih down.tail (List.disjoint_of_disjoint_cons_right apart)]
                simp
  | cons next below ih =>
      have own := notGoal source List.mem_cons_self
      have notGoal' : ∀ node ∈ next :: below, node.id ≠ transition.target :=
        fun node member => notGoal node (List.mem_cons_of_mem source member)
      induction beside generalizing target with
      | nil =>
          have deeper : common.length < (next :: below ++ common).length := by
            rw [List.length_append, List.length_cons]
            omega
          calc passage transition (source :: next :: below ++ common) ([target] ++ common)
              = .exit source :: passage transition (next :: below ++ common) ([target] ++ common) :=
                passage_of_deeper up down own deeper
            _ = _ := by
                rw [ih up.tail down (List.disjoint_of_disjoint_cons_left apart) notGoal']
                simp
      | cons next' beside ihBeside =>
          have fromNext := List.disjoint_of_disjoint_cons_left apart
          have toNext' := List.disjoint_of_disjoint_cons_right apart
          rcases Nat.lt_trichotomy below.length beside.length with shorter | even | longer
          · have shallower :
                (next :: below ++ common).length < (next' :: beside ++ common).length := by
              simp only [List.length_append, List.length_cons]
              omega
            calc passage transition (source :: next :: below ++ common)
                  (target :: next' :: beside ++ common)
                = passage transition (source :: next :: below ++ common)
                    (next' :: beside ++ common) ++ [Call.enter target] :=
                  passage_of_shallower up down own shallower
              _ = _ := by
                  rw [ihBeside down.tail toNext']
                  simp
          · have bothNext := List.disjoint_of_disjoint_cons_right fromNext
            have differ : next.id ≠ next'.id := fun same =>
              bothNext List.mem_cons_self (same ▸ List.mem_cons_self)
            have evenAbove : (below ++ common).length = (beside ++ common).length := by
              rw [List.length_append, List.length_append, even]
            calc passage transition (source :: next :: below ++ common)
                  (target :: next' :: beside ++ common)
                = .exit source :: passage transition (next :: below ++ common)
                    (next' :: beside ++ common) ++ [Call.enter target] :=
                  passage_of_length_eq up down own differ evenAbove
              _ = _ := by
                  rw [ih up.tail down.tail bothNext notGoal']
                  simp
          · have deeper :
                (next' :: beside ++ common).length < (next :: below ++ common).length := by
              simp only [List.length_append, List.length_cons]
              omega
            calc passage transition (source :: next :: below ++ common)
                  (target :: next' :: beside ++ common)
                = .exit source :: passage transition (next :: below ++ common)
                    (target :: next' :: beside ++ common) :=
                  passage_of_deeper up down own deeper
              _ = _ := by
                  rw [ih up.tail down fromNext notGoal']
                  simp

end Chart

/--
The innermost state around both ends that a transition neither exits nor enters; none if it leaves
the whole configuration.
-/
def Transition.boundary? (transition : Transition δ γ) (forest : Forest δ γ) : Option StateId :=
  if forest.isAncestorOrSelf transition.target transition.source then
    if transition.kind = .localized then some transition.target
    else (forest.node? transition.target).bind Node.parent
  else
    forest.lowestCommon? transition.source transition.target

/-- The boundary of a transition and everything around it. -/
def Transition.outside (transition : Transition δ γ) (forest : Forest δ γ) : List (Node δ γ) :=
  (transition.boundary? forest).elim [] forest.lineage

namespace Forest.WellFormed

variable {forest : Forest δ γ} {transition : Transition δ γ}

theorem exists_passage_up (wellFormed : forest.WellFormed)
    (inside : transition.target ∈ forest.ancestors transition.source) :
    ∃ exits enters,
      forest.lineage transition.source = exits ++ transition.outside forest ∧
      forest.lineage transition.target = enters ++ transition.outside forest ∧
      Chart.passage transition (forest.lineage transition.source)
          (forest.lineage transition.target) =
        exits.map .exit ++ .perform transition :: enters.reverse.map .enter := by
  obtain ⟨node, member, nodeEq⟩ := List.mem_map.mp inside
  obtain ⟨below, sourceEq⟩ := wellFormed.lineage_eq_append member
  have up := wellFormed.ascends_lineage transition.source
  have found := up.found_of_mem member
  have targetEq := wellFormed.lineage_eq_cons found
  rw [sourceEq, targetEq] at up
  have passageEq := Chart.passage_up up nodeEq
  rw [← targetEq, ← sourceEq, nodeEq] at passageEq
  rw [nodeEq] at sourceEq targetEq found
  unfold Transition.outside Transition.boundary?
  rw [if_pos (isAncestorOrSelf_iff.mpr inside), passageEq]
  by_cases localized : transition.kind = .localized
  · rw [if_pos localized, if_pos localized]
    exact ⟨below, [], sourceEq, rfl, rfl⟩
  · rw [if_neg localized, if_neg localized, found, Option.bind_some]
    refine ⟨below ++ [node], [node], ?_, targetEq, by simp⟩
    rw [sourceEq, targetEq, List.append_assoc, List.singleton_append]

theorem exists_passage_across (wellFormed : forest.WellFormed)
    (sourceKnown : forest.contains transition.source = true)
    (targetKnown : forest.contains transition.target = true)
    (outside : transition.target ∉ forest.ancestors transition.source) :
    ∃ exits enters,
      forest.lineage transition.source = exits ++ transition.outside forest ∧
      forest.lineage transition.target = enters ++ transition.outside forest ∧
      Chart.passage transition (forest.lineage transition.source)
          (forest.lineage transition.target) =
        exits.map .exit ++ .perform transition :: enters.reverse.map .enter := by
  obtain ⟨below, beside, sourceEq, targetEq, apart⟩ :=
    wellFormed.exists_split transition.source transition.target
  have outsideEq : transition.outside forest =
      (forest.lowestCommon? transition.source transition.target).elim [] forest.lineage := by
    unfold Transition.outside Transition.boundary?
    rw [if_neg (by rwa [isAncestorOrSelf_iff])]
  rw [← outsideEq] at sourceEq targetEq
  have up := wellFormed.ascends_lineage transition.source
  have down := wellFormed.ascends_lineage transition.target
  have notGoal {node : Node δ γ} (member : node ∈ forest.lineage transition.source) :
      node.id ≠ transition.target := fun same =>
    outside (List.mem_map.mpr ⟨node, member, same⟩)
  refine ⟨below, beside, sourceEq, targetEq, ?_⟩
  obtain ⟨source, sourceFound⟩ := Option.isSome_iff_exists.mp sourceKnown
  obtain ⟨goal, goalFound⟩ := Option.isSome_iff_exists.mp targetKnown
  have sourceCons := wellFormed.lineage_eq_cons sourceFound
  have targetCons := wellFormed.lineage_eq_cons goalFound
  cases below with
  | nil =>
      rw [List.nil_append] at sourceEq
      rw [targetEq, ← sourceEq] at down ⊢
      rw [sourceCons] at down notGoal ⊢
      exact Chart.passage_down down (notGoal List.mem_cons_self)
  | cons node below =>
      cases beside with
      | nil =>
          -- The target would lie on the way up from the source.
          rw [List.nil_append] at targetEq
          have member : goal ∈ forest.lineage transition.source := by
            rw [sourceEq, ← targetEq, targetCons]
            exact List.mem_append_right _ List.mem_cons_self
          exact absurd (id_of_node? goalFound) (notGoal member)
      | cons other beside =>
          rw [sourceEq] at up notGoal ⊢
          rw [targetEq] at down ⊢
          exact Chart.passage_across up down apart
            fun node member => notGoal (List.mem_append_left _ member)

end Forest.WellFormed

namespace Chart

variable {chart : Chart δ γ} {transition : Transition δ γ}

theorem unwind_eq (wellFormed : chart.forest.WellFormed) {current source : StateId}
    (around : source ∈ chart.forest.ancestors current) :
    ∃ inner, chart.forest.lineage current = inner ++ chart.forest.lineage source ∧
      chart.unwind current source = inner.map .exit := by
  obtain ⟨node, member, rfl⟩ := List.mem_map.mp around
  obtain ⟨inner, split⟩ := wellFormed.lineage_eq_append member
  have up := wellFormed.ascends_lineage current
  have found := up.found_of_mem member
  refine ⟨inner, split, ?_⟩
  rw [split] at up
  have differ : ∀ other ∈ inner, decide (other.id ≠ node.id) = true := by
    intro other inside
    rw [wellFormed.lineage_eq_cons found] at up
    exact decide_eq_true (up.id_ne_of_mem inside List.mem_cons_self)
  rw [unwind, split, List.takeWhile_append_of_pos differ, wellFormed.lineage_eq_cons found,
    List.takeWhile_cons_of_neg (by simp), List.append_nil]

/--
Before going down from its target, a transition exits everything below its boundary and enters
everything on the way from there to the target.
-/
theorem exists_walk (wellFormed : chart.forest.WellFormed) {current : StateId}
    (around : transition.source ∈ chart.forest.ancestors current)
    (known : chart.forest.contains transition.target = true) :
    ∃ exits enters,
      chart.forest.lineage current = exits ++ transition.outside chart.forest ∧
      chart.forest.lineage transition.target = enters ++ transition.outside chart.forest ∧
      chart.unwind current transition.source ++
          passage transition (chart.forest.lineage transition.source)
            (chart.forest.lineage transition.target) =
        exits.map .exit ++ .perform transition :: enters.reverse.map .enter := by
  obtain ⟨inner, currentEq, unwindEq⟩ := unwind_eq wellFormed around
  have passageEq : ∃ exits enters,
      chart.forest.lineage transition.source = exits ++ transition.outside chart.forest ∧
      chart.forest.lineage transition.target = enters ++ transition.outside chart.forest ∧
      passage transition (chart.forest.lineage transition.source)
          (chart.forest.lineage transition.target) =
        exits.map .exit ++ .perform transition :: enters.reverse.map .enter := by
    by_cases inside : transition.target ∈ chart.forest.ancestors transition.source
    · exact wellFormed.exists_passage_up inside
    · exact wellFormed.exists_passage_across (wellFormed.contains_of_mem_ancestors around) known
        inside
  obtain ⟨exits, enters, sourceEq, targetEq, passageEq⟩ := passageEq
  refine ⟨inner ++ exits, enters, ?_, targetEq, ?_⟩
  · rw [currentEq, sourceEq, List.append_assoc]
  · rw [unwindEq, passageEq, List.map_append, List.append_assoc]

theorem source_mem_outside (wellFormed : chart.forest.WellFormed)
    (around : transition.source ∈ chart.forest.ancestors transition.target)
    (differ : transition.source ≠ transition.target) :
    transition.source ∈ (transition.outside chart.forest).map Node.id := by
  have outside : transition.target ∉ chart.forest.ancestors transition.source := fun inside =>
    differ (wellFormed.eq_of_mem_ancestors around inside)
  have self := wellFormed.mem_ancestors_self (wellFormed.contains_of_mem_ancestors around)
  have lowest : chart.forest.lowestCommon? transition.source transition.target =
      some transition.source :=
    wellFormed.lowestCommon?_eq_some_iff.mpr ⟨self, around, fun _ member _ => member⟩
  unfold Transition.outside Transition.boundary?
  rw [if_neg (by rwa [Forest.isAncestorOrSelf_iff]), lowest]
  exact self

end Chart

end Statechart
