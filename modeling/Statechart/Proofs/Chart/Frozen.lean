import Statechart.Proofs.Chart.WellFormed
import Statechart.Proofs.Hierarchy.Acyclic

namespace Statechart

variable {δ γ : Type}

namespace Forest

variable {forest changed : Forest δ γ} {id parent child : StateId} {node : Node δ γ}

structure Regular (forest : Forest δ γ) : Prop where
  ids_nodup : forest.ids.Nodup
  mem_ids_iff : ∀ id, id ∈ forest.ids ↔ forest.contains id = true
  mem_children_iff : ∀ parent child,
    (∃ node, forest.node? parent = some node ∧ child ∈ node.children) ↔
      forest.contains parent = true ∧ forest.Under child parent
  parent_known : ∀ parent child, forest.Under child parent → forest.contains parent = true
  children_nodup : ∀ id node, forest.node? id = some node → node.children.Nodup
  acyclic : ∀ id, ¬ Relation.TransGen forest.Under id id
  wayUp : ∀ id, forest.contains id = true → forest.WayUp id (forest.ancestors id)
  level_eq : ∀ id node, forest.node? id = some node → node.level = (forest.ancestors id).length

theorem WellFormed.regular (wellFormed : forest.WellFormed) (linked : forest.Linked) :
    forest.Regular where
  ids_nodup := wellFormed.ids_nodup
  mem_ids_iff _ := contains_iff.symm
  mem_children_iff parent child := by
    constructor
    · rintro ⟨node, found, member⟩
      exact ⟨contains_of_node? found, (wellFormed.mem_children_iff found).mp member⟩
    · rintro ⟨known, under⟩
      obtain ⟨node, found⟩ := Option.isSome_iff_exists.mp known
      exact ⟨node, found, (wellFormed.mem_children_iff found).mpr under⟩
  parent_known parent child := linked.parent_known child parent
  children_nodup _ _ found := wellFormed.children_nodup found
  acyclic := linked.acyclic
  wayUp _ known := linked.wayUp_ancestors known
  level_eq _ _ found := by rw [wellFormed.level_eq_length found, ancestors, List.length_map]

end Forest

theorem Node.edit_of_frozen {node : Node δ γ} (frozen : node.frozen = true)
    (edit : NodeEdit δ γ) :
    node.edit edit = .error (.configuration (.stateFrozen node.id)) := by
  cases edit <;>
    · rw [Node.edit]
      exact if_pos frozen

namespace Forest

variable {forest changed : Forest δ γ}

def AllFrozen (forest : Forest δ γ) : Prop :=
  forest.frozen = true ∧ ∀ node ∈ forest.nodes, node.frozen = true

theorem Intact.allFrozen (intact : forest.Intact) (frozen : forest.frozen = true) :
    forest.AllFrozen := by
  refine ⟨frozen, fun node member => ?_⟩
  have found := node?_of_mem intact.wellFormed.ids_nodup member
  exact (intact.node_frozen_eq found).trans frozen

/-- Whether an edit finds something to work on: a state is only changed if it is there. -/
def Finds (forest : Forest δ γ) : ForestEdit δ γ → Prop
  | .change id _ => forest.contains id = true
  | _ => True

theorem Intact.edit_of_frozen (intact : forest.Intact) (frozen : forest.frozen = true)
    {edit : ForestEdit δ γ} (finds : forest.Finds edit) :
    ∃ error, forest.edit edit = .error ⟨error, forest⟩ := by
  cases edit with
  | insert id => exact ⟨_, if_pos frozen⟩
  | attach parent child => exact ⟨_, if_pos frozen⟩
  | freeze => exact ⟨_, if_pos frozen⟩
  | change id change =>
      obtain ⟨node, found⟩ := Option.isSome_iff_exists.mp finds
      have closed : node.frozen = true := (intact.node_frozen_eq found).trans frozen
      refine ⟨.configuration (.stateFrozen node.id), ?_⟩
      rw [Forest.edit, Forest.update, found]
      simp only [Node.edit_of_frozen closed]

theorem Intact.left_edit_of_frozen (intact : forest.Intact) (frozen : forest.frozen = true)
    (edit : ForestEdit δ γ) : (forest.edit edit).left = forest := by
  by_cases finds : forest.Finds edit
  · obtain ⟨error, refused⟩ := intact.edit_of_frozen frozen finds
    rw [refused, Change.left_error]
  · cases edit with
    | change id change =>
        have unknown : forest.node? id = none := by
          rw [node?_eq_none_iff]
          exact Bool.eq_false_iff.mpr finds
        rw [Forest.edit, Forest.update, unknown, Change.left_ok]
    | _ => exact absurd trivial finds

theorem Intact.after_of_frozen (intact : forest.Intact) (frozen : forest.frozen = true)
    (edits : List (ForestEdit δ γ)) : forest.after edits = forest := by
  induction edits with
  | nil => rfl
  | cons edit edits ih =>
      rw [after, List.foldl_cons, intact.left_edit_of_frozen frozen, ← after, ih]

theorem frozen_of_freeze (done : forest.freeze = .ok changed) : changed.frozen = true := by
  obtain ⟨_, _, rfl⟩ := freeze_eq_ok done
  rfl

/--
A forest that a chart is put together from is a frozen hierarchy, whatever was tried while it was
built.  Once a forest has been frozen nothing changes it any more, and every change of one of its
states is refused.
-/
theorem Buildable.regular_and_closed (buildable : forest.Buildable) :
    (∀ table initial chart, Chart.assemble forest table initial = .ok chart →
      chart.forest = forest ∧ forest.Regular ∧ forest.AllFrozen) ∧
      ∀ changed, forest.freeze = .ok changed → ∀ edits : List (ForestEdit δ γ),
        changed.after edits = changed ∧
          ∀ edit, changed.Finds edit → ∃ error, changed.edit edit = .error ⟨error, changed⟩ := by
  constructor
  · intro table initial chart assembled
    obtain ⟨frozen, _, _, rfl⟩ := Chart.assemble_eq_ok assembled
    have intact := buildable.intact frozen
    exact ⟨rfl, intact.wellFormed.regular buildable.linked, intact.allFrozen frozen⟩
  · intro changed done edits
    have frozen := frozen_of_freeze done
    have reached := Buildable.edit buildable .freeze
    rw [Forest.edit, done, Change.left_ok] at reached
    have intact := reached.intact frozen
    exact ⟨intact.after_of_frozen frozen edits, fun _ => intact.edit_of_frozen frozen⟩

def tangled : Forest Unit Unit :=
  after {} [.insert ⟨"A"⟩, .insert ⟨"B"⟩, .attach ⟨"A"⟩ ⟨"B"⟩, .attach ⟨"B"⟩ ⟨"A"⟩]

theorem Buildable.regular_and_closed_tangled :
    ∃ changed, tangled.freeze = .ok changed ∧ changed.Regular ∧
      changed.ancestors ⟨"B"⟩ = [⟨"B"⟩, ⟨"A"⟩] ∧
      changed.after [.insert ⟨"C"⟩, .change ⟨"B"⟩ (.setFinal true)] = changed ∧
      ∃ error, changed.edit (.change ⟨"B"⟩ (.setFinal true)) = .error ⟨error, changed⟩ := by
  have buildable : tangled.Buildable := (Reachable.after .empty _).buildable
  have frozen := Buildable.edit buildable .freeze
  obtain ⟨changed, done, way, known⟩ : ∃ changed, tangled.freeze = .ok changed ∧
      changed.ancestors ⟨"B"⟩ = [⟨"B"⟩, ⟨"A"⟩] ∧ changed.contains ⟨"B"⟩ = true :=
    ⟨_, rfl, by decide, by decide⟩
  rw [Forest.edit, done, Change.left_ok] at frozen
  have assembled : Chart.assemble changed { frozen := true } none = .ok ⟨changed, _, none⟩ :=
    if_pos ⟨frozen_of_freeze done, rfl⟩
  have regular := (frozen.regular_and_closed.1 _ _ _ assembled).2.1
  have closed := buildable.regular_and_closed.2 changed done
  exact ⟨changed, done, regular, way, (closed _).1, (closed []).2 _ known⟩

end Forest

end Statechart
