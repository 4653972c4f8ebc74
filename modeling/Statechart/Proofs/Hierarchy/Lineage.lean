import Statechart.Hierarchy.Forest

/-!
Well-formed forests and the way from a state to its root.

In a well-formed forest parents and children agree, and the level falls by one with every step
towards the root.  So the way up from a state ends, meets no state twice and fits into the steps
that the walks are given.
-/

namespace Statechart

variable {δ γ : Type}

namespace Forest

structure WellFormed (forest : Forest δ γ) : Prop where
  ids_nodup : forest.ids.Nodup
  children_nodup : ∀ {id node}, forest.node? id = some node → node.children.Nodup
  mem_children_iff : ∀ {id node child}, forest.node? id = some node →
    (child ∈ node.children ↔ ∃ below, forest.node? child = some below ∧ below.parent = some id)
  level_of_root : ∀ {id node}, forest.node? id = some node → node.parent = none → node.level = 1
  level_of_parent : ∀ {id node parent}, forest.node? id = some node →
    node.parent = some parent →
    ∃ above, forest.node? parent = some above ∧ node.level = above.level + 1

/-- Every node is followed by its parent, and the last one is a root. -/
inductive Ascends (forest : Forest δ γ) : List (Node δ γ) → Prop where
  | nil : Ascends forest []
  | cons {node : Node δ γ} {above : List (Node δ γ)}
      (found : forest.node? node.id = some node)
      (parent : node.parent = above.head?.map Node.id)
      (level : node.level = above.length + 1)
      (rest : Ascends forest above) : Ascends forest (node :: above)

variable {forest : Forest δ γ} {below above : List (Node δ γ)} {node other : Node δ γ}

theorem node?_eq_none_iff {id : StateId} : forest.node? id = none ↔ forest.contains id = false := by
  simp [contains]

theorem contains_of_node? {id : StateId} (found : forest.node? id = some node) :
    forest.contains id = true := by
  simp [contains, found]

theorem lineage_of_unknown {id : StateId} (unknown : forest.node? id = none) :
    forest.lineage id = [] := by
  unfold lineage
  cases forest.size with
  | zero => rfl
  | succ steps => simp [climb, unknown]

namespace Ascends

theorem tail (up : forest.Ascends (node :: above)) : forest.Ascends above := by
  cases up with
  | cons _ _ _ rest => exact rest

theorem of_append (up : forest.Ascends (below ++ above)) : forest.Ascends above := by
  induction below with
  | nil => exact up
  | cons node below ih => exact ih up.tail

theorem found_of_mem (up : forest.Ascends above) (member : node ∈ above) :
    forest.node? node.id = some node := by
  obtain ⟨below, rest, rfl⟩ := List.append_of_mem member
  cases up.of_append with
  | cons found _ _ _ => exact found

theorem eq_of_id_eq {left right : List (Node δ γ)} (up : forest.Ascends left)
    (up' : forest.Ascends right) (member : node ∈ left) (member' : other ∈ right)
    (same : node.id = other.id) : node = other := by
  have found := up.found_of_mem member
  rw [same, up'.found_of_mem member'] at found
  exact (Option.some.inj found).symm

theorem level_le_of_mem (up : forest.Ascends above) (member : node ∈ above) :
    node.level ≤ above.length := by
  obtain ⟨below, rest, rfl⟩ := List.append_of_mem member
  cases up.of_append with
  | cons _ _ level _ =>
      rw [List.length_append, List.length_cons]
      omega

theorem ids_nodup (up : forest.Ascends above) : (above.map Node.id).Nodup := by
  induction above with
  | nil => exact List.nodup_nil
  | cons node above ih =>
      cases up with
      | cons found _ level rest =>
          rw [List.map_cons, List.nodup_cons]
          refine ⟨?_, ih rest⟩
          intro again
          obtain ⟨other, member, same⟩ := List.mem_map.mp again
          have otherFound := rest.found_of_mem member
          rw [same, found] at otherFound
          have equal : node = other := Option.some.inj otherFound
          subst other
          have bound := rest.level_le_of_mem member
          omega

theorem id_ne_of_mem (up : forest.Ascends (below ++ above)) (member : node ∈ below)
    (member' : other ∈ above) : node.id ≠ other.id := by
  have apart := up.ids_nodup
  rw [List.map_append, List.nodup_append] at apart
  exact apart.2.2 _ (List.mem_map_of_mem member) _ (List.mem_map_of_mem member')

theorem parent_eq (up : forest.Ascends (node :: above)) :
    node.parent = above.head?.map Node.id := by
  cases up with
  | cons _ parent _ _ => exact parent

theorem level_eq (up : forest.Ascends (node :: above)) : node.level = above.length + 1 := by
  cases up with
  | cons _ _ level _ => exact level

theorem parent_isSome_iff (up : forest.Ascends (node :: above)) :
    node.parent.isSome = true ↔ above ≠ [] := by
  rw [up.parent_eq]
  cases above <;> simp

theorem level_eq_of_parent_eq {beyond : List (Node δ γ)} (up : forest.Ascends (node :: above))
    (up' : forest.Ascends (other :: beyond)) (siblings : node.parent = other.parent) :
    node.level = other.level := by
  cases up with
  | cons _ parent level rest =>
      cases up' with
      | cons _ parent' level' rest' =>
          rw [parent, parent'] at siblings
          cases above with
          | nil =>
              cases beyond with
              | nil => rw [level, level']
              | cons next' beyond => contradiction
          | cons next above =>
              cases beyond with
              | nil => contradiction
              | cons next' beyond =>
                  have same : next.id = next'.id := Option.some.inj siblings
                  have equal := rest.eq_of_id_eq rest' List.mem_cons_self List.mem_cons_self same
                  rw [level, level', List.length_cons, List.length_cons, ← rest.level_eq,
                    ← rest'.level_eq, equal]

theorem eq_of_level_eq (up : forest.Ascends above) (member : node ∈ above)
    (member' : other ∈ above) (level : node.level = other.level) : node = other := by
  induction above with
  | nil => contradiction
  | cons first above ih =>
      have firstLevel := up.level_eq
      rcases List.mem_cons.mp member with rfl | inside
      · rcases List.mem_cons.mp member' with rfl | inside'
        · rfl
        · have := up.tail.level_le_of_mem inside'
          omega
      · rcases List.mem_cons.mp member' with rfl | inside'
        · have := up.tail.level_le_of_mem inside
          omega
        · exact ih up.tail inside inside'

theorem eq_of_parent_eq (up : forest.Ascends above) (member : node ∈ above)
    (member' : other ∈ above) (siblings : node.parent = other.parent) : node = other := by
  obtain ⟨below, beyond, rfl⟩ := List.append_of_mem member
  obtain ⟨below', beyond', split⟩ := List.append_of_mem member'
  have up' := up
  rw [split] at up'
  exact up.eq_of_level_eq member member' (up.of_append.level_eq_of_parent_eq up'.of_append siblings)

theorem parent_ne (up : forest.Ascends (below ++ node :: above))
    (member : other ∈ below ++ above) : other.parent ≠ node.parent := by
  intro siblings
  have listed : other ∈ below ++ node :: above := by
    rw [List.mem_append] at member ⊢
    exact member.imp_right (List.mem_cons_of_mem node)
  have equal := up.eq_of_parent_eq listed (List.mem_append_right below List.mem_cons_self) siblings
  subst equal
  have apart := (List.perm_middle.map Node.id).nodup up.ids_nodup
  rw [List.map_cons, List.nodup_cons] at apart
  exact apart.1 (List.mem_map_of_mem member)

theorem length_le_size (up : forest.Ascends above) : above.length ≤ forest.size := by
  have contained : above.map Node.id ⊆ forest.ids := by
    intro id listed
    obtain ⟨node, member, rfl⟩ := List.mem_map.mp listed
    exact List.mem_map_of_mem (mem_of_node? (up.found_of_mem member))
  have bound := up.ids_nodup.length_le_of_subset contained
  simpa [ids, size] using bound

theorem climb_eq {steps : Nat} (up : forest.Ascends (node :: above))
    (enough : above.length < steps) : forest.climb steps node.id = node :: above := by
  induction steps generalizing node above with
  | zero => omega
  | succ steps ih =>
      cases up with
      | cons found parent _ rest =>
          cases above with
          | nil =>
              have root : node.parent = none := parent
              simp [climb, found, root]
          | cons next above =>
              have nested : node.parent = some next.id := parent
              have shorter : above.length < steps := by
                rw [List.length_cons] at enough
                omega
              simp [climb, found, nested, ih rest shorter]

theorem lineage_eq (up : forest.Ascends (node :: above)) :
    forest.lineage node.id = node :: above :=
  up.climb_eq up.length_le_size

end Ascends

namespace WellFormed

/-- What holds of the roots and passes from parents to children holds of every state. -/
theorem induction_up (wellFormed : forest.WellFormed)
    {motive : StateId → Node δ γ → Prop}
    (root : ∀ id node, forest.node? id = some node → node.parent = none → motive id node)
    (nested : ∀ id node parent above, forest.node? id = some node →
      node.parent = some parent → forest.node? parent = some above →
      node.level = above.level + 1 → motive parent above → motive id node)
    {id : StateId} (found : forest.node? id = some node) : motive id node := by
  generalize atLevel : node.level = level
  induction level generalizing id node with
  | zero =>
      cases parentEq : node.parent with
      | none => exact root id node found parentEq
      | some parent =>
          obtain ⟨above, _, levelEq⟩ := wellFormed.level_of_parent found parentEq
          omega
  | succ level ih =>
      cases parentEq : node.parent with
      | none => exact root id node found parentEq
      | some parent =>
          obtain ⟨above, aboveFound, levelEq⟩ := wellFormed.level_of_parent found parentEq
          exact nested id node parent above found parentEq aboveFound levelEq
            (ih aboveFound (by omega))

theorem exists_ascends (wellFormed : forest.WellFormed) {id : StateId}
    (found : forest.node? id = some node) : ∃ above, forest.Ascends (node :: above) := by
  refine wellFormed.induction_up
    (motive := fun _ node => ∃ above, forest.Ascends (node :: above)) ?_ ?_ found
  · intro id node found root
    have ownFound : forest.node? node.id = some node := by rw [id_of_node? found, found]
    exact ⟨[], .cons ownFound root (wellFormed.level_of_root found root) .nil⟩
  · intro id node parent next found parentEq nextFound levelEq ⟨above, up⟩
    have ownFound : forest.node? node.id = some node := by rw [id_of_node? found, found]
    refine ⟨next :: above, .cons ownFound ?_ ?_ up⟩
    · simp [parentEq, id_of_node? nextFound]
    · cases up with
      | cons _ _ nextLevel _ => rw [levelEq, nextLevel, List.length_cons]

theorem exists_lineage_eq (wellFormed : forest.WellFormed) {id : StateId}
    (found : forest.node? id = some node) :
    ∃ above, forest.lineage id = node :: above ∧ forest.Ascends (node :: above) := by
  obtain ⟨above, up⟩ := wellFormed.exists_ascends found
  refine ⟨above, ?_, up⟩
  rw [← id_of_node? found]
  exact up.lineage_eq

theorem ascends_lineage (wellFormed : forest.WellFormed) (id : StateId) :
    forest.Ascends (forest.lineage id) := by
  cases found : forest.node? id with
  | none =>
      rw [lineage_of_unknown found]
      exact .nil
  | some node =>
      obtain ⟨above, lineageEq, up⟩ := wellFormed.exists_lineage_eq found
      rw [lineageEq]
      exact up

theorem lineage_eq_cons (wellFormed : forest.WellFormed) {id : StateId}
    (found : forest.node? id = some node) :
    forest.lineage id = node :: node.parent.elim [] forest.lineage := by
  obtain ⟨above, lineageEq, up⟩ := wellFormed.exists_lineage_eq found
  rw [lineageEq]
  cases up with
  | cons _ parent _ rest =>
      cases above with
      | nil =>
          have root : node.parent = none := parent
          rw [root, Option.elim_none]
      | cons next above =>
          have nested : node.parent = some next.id := parent
          rw [nested, Option.elim_some, rest.lineage_eq]

theorem lineage_eq_append (wellFormed : forest.WellFormed) {id : StateId}
    (member : node ∈ forest.lineage id) :
    ∃ below, forest.lineage id = below ++ forest.lineage node.id := by
  obtain ⟨below, above, split⟩ := List.append_of_mem member
  refine ⟨below, ?_⟩
  have up := wellFormed.ascends_lineage id
  rw [split] at up ⊢
  rw [up.of_append.lineage_eq]

theorem level_eq_length (wellFormed : forest.WellFormed) {id : StateId}
    (found : forest.node? id = some node) : node.level = (forest.lineage id).length := by
  obtain ⟨above, lineageEq, up⟩ := wellFormed.exists_lineage_eq found
  cases up with
  | cons _ _ level _ => rw [level, lineageEq, List.length_cons]

theorem level_pos (wellFormed : forest.WellFormed) {id : StateId}
    (found : forest.node? id = some node) : 0 < node.level := by
  rw [wellFormed.level_eq_length found, wellFormed.lineage_eq_cons found, List.length_cons]
  omega

theorem level_le_size (wellFormed : forest.WellFormed) {id : StateId}
    (found : forest.node? id = some node) : node.level ≤ forest.size := by
  rw [wellFormed.level_eq_length found]
  exact (wellFormed.ascends_lineage id).length_le_size

theorem parent_ne_of_mem_lineage (wellFormed : forest.WellFormed) {id : StateId}
    (member : node ∈ forest.lineage id) : node.parent ≠ some id := by
  intro parent
  have up := wellFormed.ascends_lineage id
  obtain ⟨own, found, level⟩ := wellFormed.level_of_parent (up.found_of_mem member) parent
  have high := up.level_le_of_mem member
  have ownLevel := wellFormed.level_eq_length found
  omega

theorem level_le_of_mem_ancestors (wellFormed : forest.WellFormed) {id ancestor : StateId}
    (found : forest.node? id = some node) (aboveFound : forest.node? ancestor = some other)
    (member : ancestor ∈ forest.ancestors id) : other.level ≤ node.level := by
  obtain ⟨above, aboveMember, idEq⟩ := List.mem_map.mp member
  have aboveFound' := (wellFormed.ascends_lineage id).found_of_mem aboveMember
  rw [idEq, aboveFound] at aboveFound'
  cases aboveFound'
  rw [wellFormed.level_eq_length found]
  exact (wellFormed.ascends_lineage id).level_le_of_mem aboveMember

theorem ancestors_eq_cons (wellFormed : forest.WellFormed) {id : StateId}
    (found : forest.node? id = some node) :
    forest.ancestors id = id :: node.parent.elim [] forest.ancestors := by
  rw [ancestors, wellFormed.lineage_eq_cons found, List.map_cons, id_of_node? found]
  cases node.parent <;> rfl

theorem mem_ancestors_self (wellFormed : forest.WellFormed) {id : StateId}
    (known : forest.contains id = true) : id ∈ forest.ancestors id := by
  obtain ⟨node, found⟩ := Option.isSome_iff_exists.mp known
  rw [wellFormed.ancestors_eq_cons found]
  exact List.mem_cons_self

theorem contains_of_mem_ancestors (wellFormed : forest.WellFormed) {id ancestor : StateId}
    (member : ancestor ∈ forest.ancestors id) : forest.contains ancestor = true := by
  obtain ⟨node, listed, rfl⟩ := List.mem_map.mp member
  exact contains_of_node? ((wellFormed.ascends_lineage id).found_of_mem listed)

theorem ancestors_nodup (wellFormed : forest.WellFormed) (id : StateId) :
    (forest.ancestors id).Nodup :=
  (wellFormed.ascends_lineage id).ids_nodup

theorem ancestors_eq_append (wellFormed : forest.WellFormed) {id ancestor : StateId}
    (member : ancestor ∈ forest.ancestors id) :
    ∃ below, forest.ancestors id = below ++ forest.ancestors ancestor := by
  obtain ⟨node, listed, rfl⟩ := List.mem_map.mp member
  obtain ⟨below, split⟩ := wellFormed.lineage_eq_append listed
  exact ⟨below.map Node.id, by rw [ancestors, split, List.map_append, ancestors]⟩

theorem mem_ancestors_trans (wellFormed : forest.WellFormed) {id ancestor outer : StateId}
    (member : ancestor ∈ forest.ancestors id) (around : outer ∈ forest.ancestors ancestor) :
    outer ∈ forest.ancestors id := by
  obtain ⟨below, split⟩ := wellFormed.ancestors_eq_append member
  rw [split]
  exact List.mem_append_right below around

end WellFormed

theorem isAncestorOrSelf_iff {ancestor id : StateId} :
    forest.isAncestorOrSelf ancestor id = true ↔ ancestor ∈ forest.ancestors id := by
  rw [isAncestorOrSelf, List.contains_iff_mem]

theorem known_of_mem_ancestors {id ancestor : StateId}
    (member : ancestor ∈ forest.ancestors id) : ∃ node, forest.node? id = some node := by
  cases found : forest.node? id with
  | none =>
      rw [ancestors, lineage_of_unknown found] at member
      contradiction
  | some node => exact ⟨node, rfl⟩

theorem WellFormed.exists_child_on_way (wellFormed : forest.WellFormed) {id ancestor : StateId}
    (around : ancestor ∈ forest.ancestors id) (differ : ancestor ≠ id) :
    ∃ inner child, forest.lineage id = inner ++ child :: forest.lineage ancestor ∧
      child.parent = some ancestor := by
  obtain ⟨own, ownFound⟩ := known_of_mem_ancestors around
  obtain ⟨node, member, rfl⟩ := List.mem_map.mp around
  obtain ⟨below, split⟩ := wellFormed.lineage_eq_append member
  have up := wellFormed.ascends_lineage id
  have found := up.found_of_mem member
  rcases List.eq_nil_or_concat below with rfl | ⟨inner, child, rfl⟩
  · rw [List.nil_append, wellFormed.lineage_eq_cons found, wellFormed.lineage_eq_cons ownFound]
      at split
    rw [← (List.cons.inj split).1] at differ
    exact absurd (id_of_node? ownFound) differ
  · rw [List.concat_eq_append, List.append_assoc, List.singleton_append] at split
    rw [split, wellFormed.lineage_eq_cons found] at up
    exact ⟨inner, child, split, up.of_append.parent_eq⟩

end Forest

end Statechart
