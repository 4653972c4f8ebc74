import Mathlib.Logic.Relation
import Statechart.Proofs.Hierarchy.Reachable

namespace Statechart

variable {δ γ : Type}

namespace Forest

variable {forest : Forest δ γ}

/-- The forest after the nodes of some states were frozen, as far as they still were open. -/
def sealing (forest : Forest δ γ) (met : StateId → Bool) : Forest δ γ :=
  { forest with
    nodes := forest.nodes.map fun node =>
      if met node.id = true ∧ node.frozen = false then node.sealed else node }

/--
What can be built from nothing, in whatever order the nodes are frozen: a freezing that is refused
by some node may have met any of the open ones before.
-/
inductive Buildable : Forest δ γ → Prop where
  | empty : Buildable {}
  | edit {forest : Forest δ γ} (buildable : Buildable forest) (edit : ForestEdit δ γ) :
      Buildable (forest.edit edit).left
  | stall {forest : Forest δ γ} (buildable : Buildable forest) (unfrozen : forest.frozen = false)
      (stuck : forest.HasFrozen) (met : StateId → Bool) : Buildable (forest.sealing met)

/-- Freezing the nodes in their order of declaration is one of the orders. -/
theorem Reachable.buildable (reachable : forest.Reachable) : forest.Buildable := by
  induction reachable with
  | empty => exact .empty
  | edit _ edit ih => exact .edit ih edit

theorem keepsFrozen_sealing (forest : Forest δ γ) (met : StateId → Bool) :
    KeepsFrozen forest (forest.sealing met) := by
  have becomes := becomes_map (fun node : Node δ γ =>
    if met node.id = true ∧ node.frozen = false then node.sealed else node)
    (fun node => by split <;> rfl) forest
  refine ⟨becomes.ids_eq, becomes.frozen_eq, fun {id node} found frozen => ?_⟩
  refine ⟨node, ?_, frozen⟩
  rw [sealing, becomes.node?_eq, found, Option.map_some, if_neg (by simp [frozen])]

theorem Buildable.sound (buildable : forest.Buildable) : forest.Sound := by
  induction buildable with
  | empty => exact sound_empty
  | edit _ edit ih => exact ih.edit edit
  | stall _ unfrozen stuck met ih =>
      exact .of_keepsFrozen ih.ids_nodup unfrozen stuck (keepsFrozen_sealing _ met)

theorem Buildable.intact (buildable : forest.Buildable) (frozen : forest.frozen = true) :
    forest.Intact := by
  rcases buildable.sound with intact | ⟨_, unfrozen, _⟩
  · exact intact
  · rw [frozen] at unfrozen
    contradiction

def Under (forest : Forest δ γ) (child parent : StateId) : Prop :=
  ∃ node, forest.node? child = some node ∧ node.parent = some parent

/-- The whole way from a state to its root, parent by parent. -/
inductive WayUp (forest : Forest δ γ) : StateId → List StateId → Prop where
  | root {id : StateId} {node : Node δ γ} (found : forest.node? id = some node)
      (root : node.parent = none) : WayUp forest id [id]
  | step {id parent : StateId} {way : List StateId} (under : forest.Under id parent)
      (rest : WayUp forest parent way) : WayUp forest id (id :: way)

end Forest

end Statechart
