import Statechart.Proofs.Hierarchy.Lineage
import Statechart.Run.Plan

namespace Statechart

variable {δ γ : Type}

namespace Forest

def AtRest (forest : Forest δ γ) (id : StateId) : Prop :=
  ∃ node, forest.node? id = some node ∧ (node.isFinal || node.isLeaf) = true

/-- The state in which the way down along initial children ends. -/
inductive DefaultsTo (forest : Forest δ γ) : StateId → StateId → Prop where
  | rest {id : StateId} (rests : forest.AtRest id) : DefaultsTo forest id id
  | step {id child leaf : StateId} (goesOn : ¬forest.AtRest id)
      (initial : forest.initialChild? id = some child) (below : DefaultsTo forest child leaf) :
      DefaultsTo forest id leaf

variable {forest : Forest δ γ} {node : Node δ γ}

theorem atRest_iff {id : StateId} (found : forest.node? id = some node) :
    forest.AtRest id ↔ (node.isFinal || node.isLeaf) = true := by
  constructor
  · rintro ⟨other, otherFound, rests⟩
    cases found.symm.trans otherFound
    exact rests
  · exact fun rests => ⟨node, found, rests⟩

theorem DefaultsTo.unique {id leaf leaf' : StateId} (below : forest.DefaultsTo id leaf)
    (below' : forest.DefaultsTo id leaf') : leaf = leaf' := by
  induction below with
  | rest rests =>
      cases below' with
      | rest _ => rfl
      | step goesOn _ _ => exact absurd rests goesOn
  | step goesOn initial _ ih =>
      cases below' with
      | rest rests => exact absurd rests goesOn
      | step _ initial' below' =>
          cases initial.symm.trans initial'
          exact ih below'

theorem initialChild?_mem {id child : StateId} (found : forest.node? id = some node)
    (initial : forest.initialChild? id = some child) : child ∈ node.children := by
  rw [initialChild?, found, Option.bind_some, Option.or_eq_some_iff] at initial
  rcases initial with marked | ⟨_, first⟩
  · exact List.mem_of_find?_eq_some marked
  · exact List.mem_of_head? first

theorem exists_initialChild? {id : StateId} (found : forest.node? id = some node)
    (composite : node.isLeaf = false) : ∃ child, forest.initialChild? id = some child := by
  rw [initialChild?, found, Option.bind_some]
  cases childrenEq : node.children with
  | nil => simp [Node.isLeaf, childrenEq] at composite
  | cons first rest =>
      rw [List.head?_cons, Option.or_some]
      exact ⟨_, rfl⟩

theorem WellFormed.exists_child (wellFormed : forest.WellFormed) {id child : StateId}
    (found : forest.node? id = some node) (member : child ∈ node.children) :
    ∃ below, forest.node? child = some below ∧ below.parent = some id ∧
      below.level = node.level + 1 := by
  obtain ⟨below, belowFound, nested⟩ := (wellFormed.mem_children_iff found).mp member
  obtain ⟨above, aboveFound, level⟩ := wellFormed.level_of_parent belowFound nested
  cases found.symm.trans aboveFound
  exact ⟨below, belowFound, nested, level⟩

end Forest

namespace Chart

variable {chart : Chart δ γ} {memory : Memory} {mode : History} {node : Node δ γ}

theorem remembered?_mem {child : StateId}
    (remembered : chart.remembered? memory mode node = some child) : child ∈ node.children := by
  unfold remembered? at remembered
  split at remembered
  · contradiction
  · have fits := (Option.filter_eq_some_iff.mp remembered).2
    rw [Bool.and_eq_true, decide_eq_true_eq] at fits
    exact fits.1

theorem exists_nextChild? (memory : Memory) (mode : History)
    (found : chart.forest.node? node.id = some node)
    (composite : node.isLeaf = false) :
    ∃ child next, chart.nextChild? memory mode node = some (child, next) ∧
      child ∈ node.children := by
  unfold nextChild?
  cases remembered : chart.remembered? memory mode node with
  | some child => exact ⟨child, _, rfl, remembered?_mem remembered⟩
  | none =>
      obtain ⟨child, initial⟩ := Forest.exists_initialChild? found composite
      exact ⟨child, .none, by rw [initial]; rfl, Forest.initialChild?_mem found initial⟩

theorem descend_of_rests {steps : Nat} (rests : (node.isFinal || node.isLeaf) = true) :
    chart.descend memory (steps + 1) mode node = ⟨[], .ok node.id⟩ := by
  rw [descend, if_pos rests]

theorem descend_of_next {steps : Nat} (goesOn : (node.isFinal || node.isLeaf) = false)
    {child : StateId} {next : History} {below : Node δ γ}
    (nextEq : chart.nextChild? memory mode node = some (child, next))
    (found : chart.forest.node? child = some below) :
    chart.descend memory (steps + 1) mode node =
      (chart.descend memory steps next below).after [.enter below] := by
  rw [descend, if_neg (by simp [goesOn]), nextEq]
  simp only [found]

/-- The way down enters one state below the other and comes to rest. -/
theorem descend_eq (wellFormed : chart.forest.WellFormed) (memory : Memory) (mode : History)
    {steps : Nat} (found : chart.forest.node? node.id = some node)
    (enough : chart.forest.size < node.level + steps) :
    ∃ (entered : List (Node δ γ)) (leaf : StateId),
      chart.descend memory steps mode node = ⟨entered.map .enter, .ok leaf⟩ ∧
      chart.forest.AtRest leaf ∧
      chart.forest.lineage leaf = entered.reverse ++ chart.forest.lineage node.id := by
  induction steps generalizing mode node with
  | zero =>
      have := wellFormed.level_le_size found
      omega
  | succ steps ih =>
      cases rests : node.isFinal || node.isLeaf with
      | true => exact ⟨[], node.id, descend_of_rests rests, ⟨node, found, rests⟩, rfl⟩
      | false =>
          have composite : node.isLeaf = false := (Bool.or_eq_false_iff.mp rests).2
          obtain ⟨child, next, nextEq, member⟩ :=
            exists_nextChild? memory mode found composite
          obtain ⟨below, belowFound, nested, level⟩ := wellFormed.exists_child found member
          have ownFound : chart.forest.node? below.id = some below := by
            rw [Forest.id_of_node? belowFound, belowFound]
          obtain ⟨entered, leaf, descendEq, restsIn, lineageEq⟩ :=
            ih next ownFound (by omega)
          refine ⟨below :: entered, leaf, ?_, restsIn, ?_⟩
          · rw [descend_of_next rests nextEq belowFound, descendEq]
            rfl
          · rw [lineageEq, wellFormed.lineage_eq_cons ownFound, nested]
            simp

theorem defaultsTo_of_descend (wellFormed : chart.forest.WellFormed) {steps : Nat}
    (found : chart.forest.node? node.id = some node) {leaf : StateId}
    (rests : (chart.descend memory steps .none node).rest = .ok leaf) :
    chart.forest.DefaultsTo node.id leaf := by
  induction steps generalizing node with
  | zero => contradiction
  | succ steps ih =>
      cases atRest : node.isFinal || node.isLeaf with
      | true =>
          rw [descend_of_rests atRest] at rests
          cases rests
          exact .rest ⟨node, found, atRest⟩
      | false =>
          have composite : node.isLeaf = false := (Bool.or_eq_false_iff.mp atRest).2
          obtain ⟨child, initial⟩ := Forest.exists_initialChild? found composite
          have nextEq : chart.nextChild? memory .none node = some (child, .none) := by
            rw [nextChild?, remembered?, initial]
            rfl
          obtain ⟨below, belowFound, _, _⟩ :=
            wellFormed.exists_child found (Forest.initialChild?_mem found initial)
          have ownFound : chart.forest.node? below.id = some below := by
            rw [Forest.id_of_node? belowFound, belowFound]
          rw [descend_of_next atRest nextEq belowFound, Plan.rest_after] at rests
          have goesOn : ¬chart.forest.AtRest node.id := by
            rw [Forest.atRest_iff found, atRest]
            exact Bool.false_ne_true
          refine .step goesOn initial ?_
          rw [← Forest.id_of_node? belowFound]
          exact ih ownFound rests

theorem land_eq_descend {id : StateId} (found : chart.forest.node? id = some node) :
    chart.land memory id = chart.descend memory chart.forest.size node.history node := by
  rw [land, found]

theorem land_eq (wellFormed : chart.forest.WellFormed) (memory : Memory) {id : StateId}
    (known : chart.forest.contains id = true) :
    ∃ (entered : List (Node δ γ)) (leaf : StateId),
      chart.land memory id = ⟨entered.map .enter, .ok leaf⟩ ∧
      chart.forest.AtRest leaf ∧
      chart.forest.lineage leaf = entered.reverse ++ chart.forest.lineage id := by
  obtain ⟨node, found⟩ := Option.isSome_iff_exists.mp known
  have idEq := Forest.id_of_node? found
  have ownFound : chart.forest.node? node.id = some node := by rw [idEq, found]
  have enough : chart.forest.size < node.level + chart.forest.size := by
    have := wellFormed.level_pos found
    omega
  obtain ⟨entered, leaf, descendEq, rests, lineageEq⟩ :=
    descend_eq wellFormed memory node.history ownFound enough
  refine ⟨entered, leaf, ?_, rests, by rw [lineageEq, idEq]⟩
  rw [land_eq_descend found, descendEq]

end Chart

end Statechart
