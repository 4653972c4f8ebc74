import Statechart.Proofs.Hierarchy.CommonAncestor
import Statechart.Proofs.Run.Descent

namespace Statechart

variable {δ γ : Type}

namespace Chart

variable {chart : Chart δ γ} {memory : Memory} {node composite : Node δ γ} {id : StateId}
  {exits outside : List (Node δ γ)}

theorem child?_rememberCall_exit (notFinal : node.isFinal = false) (parent : node.parent = some id)
    (tracked : chart.forest.tracksHistory id = true) :
    (chart.rememberCall memory (.exit node)).child? id = some node.id := by
  simp only [rememberCall, notFinal, Bool.false_eq_true, if_false, remember, parent, tracked,
    if_true, Memory.child?_record]

theorem child?_rememberCall_of_ne {call : PlannedCall δ γ}
    (elsewhere : ∀ node, call = .exit node → node.parent ≠ some id) :
    (chart.rememberCall memory call).child? id = memory.child? id := by
  cases call with
  | exit node =>
      have differ := elsewhere node rfl
      simp only [rememberCall, remember]
      split
      · rfl
      split
      · next parent parentEq =>
        split
        · rw [Memory.child?_record, if_neg]
          intro same
          exact differ (same ▸ parentEq)
        · rfl
      · rfl
  | perform transition => rfl
  | enter node => rfl

theorem child?_foldl_of_ne {calls : List (PlannedCall δ γ)}
    (elsewhere : ∀ node, .exit node ∈ calls → node.parent ≠ some id) :
    (calls.foldl chart.rememberCall memory).child? id = memory.child? id := by
  induction calls generalizing memory with
  | nil => rfl
  | cons call calls ih =>
      rw [List.foldl_cons, ih fun node member => elsewhere node (List.mem_cons_of_mem call member)]
      exact child?_rememberCall_of_ne fun node same => elsewhere node (same ▸ List.mem_cons_self)

def Inward (calls : List (PlannedCall δ γ)) : Prop :=
  ∀ node, .exit node ∉ calls

theorem inward_enters (nodes : List (Node δ γ)) :
    Inward (nodes.map .enter : List (PlannedCall δ γ)) := by
  intro node member
  obtain ⟨_, _, same⟩ := List.mem_map.mp member
  contradiction

theorem Inward.perform {calls : List (PlannedCall δ γ)} (inward : Inward calls)
    (transition : Transition δ γ) : Inward (.perform transition :: calls) := by
  intro node member
  rcases List.mem_cons.mp member with same | later
  · contradiction
  · exact inward node later

theorem foldl_rememberCall_of_inward {calls : List (PlannedCall δ γ)} (inward : Inward calls) :
    calls.foldl chart.rememberCall memory = memory := by
  induction calls with
  | nil => rfl
  | cons call calls ih =>
      have rest := ih fun node member => inward node (List.mem_cons_of_mem call member)
      cases call with
      | exit node => exact absurd List.mem_cons_self (inward node)
      | perform transition => exact rest
      | enter node => exact rest

theorem child?_foldl_exits (up : chart.forest.Ascends (exits ++ outside)) (member : node ∈ exits)
    (notFinal : node.isFinal = false) (parent : node.parent = some id)
    (tracked : chart.forest.tracksHistory id = true) :
    ((exits.map .exit).foldl chart.rememberCall memory).child? id = some node.id := by
  obtain ⟨before, after, rfl⟩ := List.append_of_mem member
  rw [List.map_append, List.map_cons, List.foldl_append, List.foldl_cons, child?_foldl_of_ne]
  · exact child?_rememberCall_exit notFinal parent tracked
  · intro other exited
    obtain ⟨_, otherMember, same⟩ := List.mem_map.mp exited
    cases same
    rw [List.append_assoc, List.cons_append] at up
    have elsewhere := up.parent_ne
      (List.mem_append_right before (List.mem_append_left outside otherMember))
    rwa [parent] at elsewhere

theorem tracksHistory_of_keeps (wellFormed : chart.forest.WellFormed)
    (found : chart.forest.node? id = some node) (keeps : node.history ≠ .none) :
    chart.forest.tracksHistory id = true := by
  rw [Forest.tracksHistory, wellFormed.lineage_eq_cons found]
  simp [keeps]

theorem tracksHistory_of_deep (wellFormed : chart.forest.WellFormed)
    (found : chart.forest.node? composite.id = some composite) (deep : composite.history = .deep)
    (around : composite.id ∈ chart.forest.ancestors id) :
    chart.forest.tracksHistory id = true := by
  obtain ⟨own, ownFound⟩ := Forest.known_of_mem_ancestors around
  obtain ⟨other, listed, idEq⟩ := List.mem_map.mp around
  have otherFound := (wellFormed.ascends_lineage id).found_of_mem listed
  rw [idEq, found] at otherFound
  cases otherFound
  rw [wellFormed.lineage_eq_cons ownFound] at listed
  rcases List.mem_cons.mp listed with rfl | above
  · rw [Forest.id_of_node? ownFound] at found
    exact tracksHistory_of_keeps wellFormed found (by simp [deep])
  · rw [Forest.tracksHistory, wellFormed.lineage_eq_cons ownFound]
    simp only [Bool.or_eq_true, List.any_eq_true]
    exact Or.inr ⟨composite, above, by simp [deep]⟩

theorem nextChild?_of_none {mode : History} (nothing : memory.child? node.id = none) :
    chart.nextChild? memory mode node = chart.nextChild? memory .none node := by
  have forgotten : chart.remembered? memory mode node = none := by
    unfold remembered?
    split
    · rfl
    · rw [nothing]
      rfl
  rw [nextChild?, forgotten]
  rfl

theorem descend_of_none {mode : History} {steps : Nat} (nothing : memory.child? node.id = none) :
    chart.descend memory steps mode node = chart.descend memory steps .none node := by
  cases steps with
  | zero => rfl
  | succ steps => rw [descend, descend, nextChild?_of_none nothing]

theorem nextChild?_of_some (wellFormed : chart.forest.WellFormed) (mode : History)
    (keeps : mode ≠ .none) (found : chart.forest.node? id = some node)
    (parent : node.parent = some composite.id)
    (compositeFound : chart.forest.node? composite.id = some composite)
    (remembered : memory.child? composite.id = some id) :
    chart.nextChild? memory mode composite =
      some (id, if mode = .deep then .deep else .none) := by
  have member : id ∈ composite.children :=
    (wellFormed.mem_children_iff compositeFound).mpr ⟨node, found, parent⟩
  have chosen : chart.remembered? memory mode composite = some id := by
    unfold remembered?
    split
    · contradiction
    · rw [remembered, Option.filter_some, if_pos]
      simp [member, Forest.contains_of_node? found]
  rw [nextChild?, chosen]

theorem not_leaf_of_child (wellFormed : chart.forest.WellFormed)
    (found : chart.forest.node? node.id = some node) (parent : node.parent = some composite.id)
    (compositeFound : chart.forest.node? composite.id = some composite) :
    composite.isLeaf = false := by
  have member : node.id ∈ composite.children :=
    (wellFormed.mem_children_iff compositeFound).mpr ⟨node, found, parent⟩
  cases childrenEq : composite.children with
  | nil =>
      rw [childrenEq] at member
      contradiction
  | cons child rest => simp [Node.isLeaf, childrenEq]

theorem defaultsTo_of_shallow (wellFormed : chart.forest.WellFormed) {steps : Nat}
    (found : chart.forest.node? node.id = some node) (parent : node.parent = some composite.id)
    (compositeFound : chart.forest.node? composite.id = some composite)
    (notFinal : composite.isFinal = false)
    (remembered : memory.child? composite.id = some node.id) {leaf : StateId}
    (rests : (chart.descend memory steps .shallow composite).rest = .ok leaf) :
    chart.forest.DefaultsTo node.id leaf := by
  cases steps with
  | zero => contradiction
  | succ steps =>
      have goesOn : (composite.isFinal || composite.isLeaf) = false := by
        rw [notFinal, not_leaf_of_child wellFormed found parent compositeFound]
        rfl
      have next := nextChild?_of_some wellFormed .shallow (by simp) found parent compositeFound
        remembered
      rw [descend_of_next goesOn next found, Plan.rest_after] at rests
      exact defaultsTo_of_descend wellFormed found rests

/-- The way that leads down to a state is remembered, from the child of the composite on. -/
def Retraces (memory : Memory) (path : List (Node δ γ)) : Prop :=
  ∀ node ∈ path, ∃ parent, node.parent = some parent ∧ memory.child? parent = some node.id

theorem first_on_way_down (wellFormed : chart.forest.WellFormed) {child : Node δ γ}
    {down : List (Node δ γ)} {leaf : StateId}
    (found : chart.forest.node? composite.id = some composite)
    (lineageEq : chart.forest.lineage leaf =
      (child :: down).reverse ++ chart.forest.lineage composite.id) :
    chart.forest.node? child.id = some child ∧ child.parent = some composite.id ∧
      child.level = composite.level + 1 ∧
      chart.forest.lineage leaf = down.reverse ++ chart.forest.lineage child.id := by
  have up := wellFormed.ascends_lineage leaf
  rw [List.reverse_cons, List.append_assoc, List.singleton_append] at lineageEq
  rw [lineageEq] at up
  have childFound := up.of_append.found_of_mem List.mem_cons_self
  have childLineage : chart.forest.lineage child.id =
      child :: chart.forest.lineage composite.id := up.of_append.lineage_eq
  have level : child.level = composite.level + 1 := by
    rw [wellFormed.level_eq_length childFound, wellFormed.level_eq_length found, childLineage,
      List.length_cons]
  rw [wellFormed.lineage_eq_cons found] at up
  exact ⟨childFound, up.of_append.parent_eq, level, childLineage ▸ lineageEq⟩

/-- Deep history follows the way that is remembered to the end. -/
theorem rest_of_deep (wellFormed : chart.forest.WellFormed) {steps : Nat}
    {down : List (Node δ γ)} {leaf : StateId}
    (found : chart.forest.node? composite.id = some composite)
    (lineageEq : chart.forest.lineage leaf = down.reverse ++ chart.forest.lineage composite.id)
    (notFinal : ∀ node ∈ composite :: down, node.isFinal = false)
    (retraces : Retraces memory down) (atRest : chart.forest.AtRest leaf)
    (enough : chart.forest.size < composite.level + steps) :
    (chart.descend memory steps .deep composite).rest = .ok leaf := by
  induction steps generalizing composite down with
  | zero =>
      have := wellFormed.level_le_size found
      omega
  | succ steps ih =>
      cases down with
      | nil =>
          obtain ⟨node, leafFound, rests⟩ := atRest
          rw [List.reverse_nil, List.nil_append, wellFormed.lineage_eq_cons leafFound,
            wellFormed.lineage_eq_cons found] at lineageEq
          obtain ⟨rfl, _⟩ := List.cons.inj lineageEq
          rw [descend_of_rests rests, Forest.id_of_node? leafFound]
      | cons child down =>
          obtain ⟨childFound, parent, level, lineageEq⟩ :=
            first_on_way_down wellFormed found lineageEq
          have goesOn : (composite.isFinal || composite.isLeaf) = false := by
            rw [notFinal composite List.mem_cons_self,
              not_leaf_of_child wellFormed childFound parent found]
            rfl
          obtain ⟨above, parent', remembered⟩ := retraces child List.mem_cons_self
          cases parent.symm.trans parent'
          have next :=
            nextChild?_of_some wellFormed .deep (by simp) childFound parent found remembered
          rw [descend_of_next goesOn next childFound, Plan.rest_after]
          exact ih childFound lineageEq
            (fun node member => notFinal node (List.mem_cons_of_mem composite member))
            (fun node member => retraces node (List.mem_cons_of_mem child member)) (by omega)

end Chart

end Statechart
