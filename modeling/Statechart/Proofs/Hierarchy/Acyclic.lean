import Mathlib.Data.Fintype.Card
import Mathlib.Data.Fintype.EquivFin
import Mathlib.Data.Fintype.Sets
import Statechart.Proofs.Hierarchy.Buildable
import Statechart.Proofs.Hierarchy.Refused

namespace Statechart

variable {δ γ : Type}

theorem transGen_of_link {α : Type} {old new : α → α → Prop} {start stop : α}
    (link : ∀ first second, new first second → old first second ∨ (first = start ∧ second = stop))
    {first last : α} (path : Relation.TransGen new first last) :
    Relation.TransGen old first last ∨
      (Relation.ReflTransGen old first start ∧ Relation.ReflTransGen old stop last) := by
  induction path with
  | single step =>
      rcases link _ _ step with known | ⟨rfl, rfl⟩
      · exact Or.inl (.single known)
      · exact Or.inr ⟨.refl, .refl⟩
  | tail _ step ih =>
      rcases link _ _ step with known | ⟨rfl, rfl⟩
      · rcases ih with before | ⟨before, after⟩
        · exact Or.inl (before.tail known)
        · exact Or.inr ⟨before, after.tail known⟩
      · rcases ih with before | ⟨before, _⟩
        · exact Or.inr ⟨before.to_reflTransGen, .refl⟩
        · exact Or.inr ⟨before, .refl⟩

def Node.neighbours (node : Node δ γ) : Option StateId × List StateId :=
  (node.parent, node.children)

theorem Node.SamePlace.neighbours_eq {node changed : Node δ γ} (same : node.SamePlace changed) :
    changed.neighbours = node.neighbours :=
  Prod.ext same.parent_eq same.children_eq

namespace Forest

variable {forest changed : Forest δ γ} {id other parent child : StateId} {way : List StateId}

/-- Parents are there and lead back to no state, and a state is listed by its parent only. -/
structure Linked (forest : Forest δ γ) : Prop where
  parent_known : ∀ child parent, forest.Under child parent → forest.contains parent = true
  under_of_lists : ∀ parent child, forest.Lists parent child → forest.Under child parent
  acyclic : ∀ id, ¬ Relation.TransGen forest.Under id id

theorem Under.unique (under : forest.Under child parent) (under' : forest.Under child other) :
    parent = other := by
  obtain ⟨node, found, nested⟩ := under
  obtain ⟨node', found', nested'⟩ := under'
  cases found.symm.trans found'
  exact Option.some.inj (nested.symm.trans nested')

theorem not_under_of_root {node : Node δ γ} (found : forest.node? child = some node)
    (root : node.parent = none) : ¬ forest.Under child parent := by
  rintro ⟨node', found', nested⟩
  cases found.symm.trans found'
  rw [root] at nested
  contradiction

theorem Under.known (under : forest.Under child parent) : forest.contains child = true := by
  obtain ⟨node, found, _⟩ := under
  exact contains_of_node? found

def SameNeighbours (forest changed : Forest δ γ) : Prop :=
  ∀ id, (changed.node? id).map Node.neighbours = (forest.node? id).map Node.neighbours

namespace SameNeighbours

theorem symm (same : SameNeighbours forest changed) : SameNeighbours changed forest :=
  fun id => (same id).symm

theorem trans {middle : Forest δ γ} (first : SameNeighbours forest middle)
    (second : SameNeighbours middle changed) : SameNeighbours forest changed :=
  fun id => (second id).trans (first id)

theorem image (same : SameNeighbours forest changed) {node : Node δ γ}
    (found : forest.node? id = some node) :
    ∃ node', changed.node? id = some node' ∧ node'.neighbours = node.neighbours := by
  have neighboursEq := same id
  rw [found, Option.map_some, Option.map_eq_some_iff] at neighboursEq
  exact neighboursEq

theorem known (same : SameNeighbours forest changed) (known : forest.contains id = true) :
    changed.contains id = true := by
  obtain ⟨node, found⟩ := Option.isSome_iff_exists.mp known
  obtain ⟨node', found', _⟩ := same.image found
  exact contains_of_node? found'

theorem under (same : SameNeighbours forest changed) (under : forest.Under child parent) :
    changed.Under child parent := by
  obtain ⟨node, found, nested⟩ := under
  obtain ⟨node', found', neighboursEq⟩ := same.image found
  exact ⟨node', found', (congrArg Prod.fst neighboursEq).trans nested⟩

theorem lists (same : SameNeighbours forest changed) (lists : forest.Lists parent child) :
    changed.Lists parent child := by
  obtain ⟨node, found, member⟩ := lists
  obtain ⟨node', found', neighboursEq⟩ := same.image found
  have childrenEq : node'.children = node.children := congrArg Prod.snd neighboursEq
  exact ⟨node', found', childrenEq ▸ member⟩

theorem of_becomes {change : StateId → Node δ γ → Node δ γ}
    (becomes : Becomes change forest changed)
    (keeps : ∀ id node, forest.node? id = some node →
      (change id node).neighbours = node.neighbours) :
    SameNeighbours forest changed := by
  intro id
  rw [becomes.node?_eq]
  cases found : forest.node? id with
  | none => rfl
  | some node => exact congrArg some (keeps id node found)

theorem of_forall₂ {nodes nodes' : List (Node δ γ)} (frozen frozen' : Bool)
    (same : List.Forall₂ Node.SamePlace nodes nodes') :
    SameNeighbours { nodes, frozen } { nodes := nodes', frozen := frozen' } := by
  intro id
  simp only [node?]
  induction same with
  | nil => rfl
  | cons place _ ih =>
      simp only [List.find?_cons, place.id_eq]
      split
      · exact congrArg some place.neighbours_eq
      · exact ih

end SameNeighbours

theorem SameLinks.sameNeighbours (same : SameLinks forest changed) :
    SameNeighbours forest changed := by
  intro id
  have linksEq := congrArg
    (Option.map fun links : Option StateId × List StateId × Bool => (links.1, links.2.1)) (same id)
  rw [Option.map_map, Option.map_map] at linksEq
  exact linksEq

theorem samePlace_freezeNodes (nodes : List (Node δ γ)) :
    List.Forall₂ Node.SamePlace nodes (freezeNodes nodes).1 := by
  induction nodes with
  | nil => exact .nil
  | cons node nodes ih =>
      unfold freezeNodes
      split
      · exact List.forall₂_same.mpr fun other _ => Node.SamePlace.refl other
      · next sealed done =>
        have edited : node.edit .freeze = .ok sealed := done
        exact .cons (Node.samePlace_of_edit edited).2 ih

namespace Linked

theorem of_links (linked : forest.Linked)
    (known : ∀ id, forest.contains id = true → changed.contains id = true)
    (under : ∀ child parent, changed.Under child parent ↔ forest.Under child parent)
    (lists : ∀ parent child, changed.Lists parent child →
      forest.Lists parent child ∨ forest.Under child parent) :
    changed.Linked where
  parent_known child parent nested :=
    known parent (linked.parent_known child parent ((under child parent).mp nested))
  under_of_lists parent child listed := by
    rw [under]
    rcases lists parent child listed with old | under
    · exact linked.under_of_lists parent child old
    · exact under
  acyclic id around := linked.acyclic id
    (Relation.TransGen.mono (fun child parent => (under child parent).mp) _ _ around)

theorem of_same (linked : forest.Linked) (same : SameNeighbours forest changed) :
    changed.Linked :=
  linked.of_links (fun _ => same.known) (fun _ _ => ⟨same.symm.under, same.under⟩)
    fun _ _ lists => Or.inl (same.symm.lists lists)

theorem wellFounded_above (linked : forest.Linked) :
    WellFounded fun above below : {id // id ∈ forest.ids} =>
      Relation.TransGen forest.Under below above := by
  have trans : IsTrans {id // id ∈ forest.ids} fun above below =>
      Relation.TransGen forest.Under below above :=
    ⟨fun _ _ _ upper lower => lower.trans upper⟩
  have irrefl : Std.Irrefl fun above below : {id // id ∈ forest.ids} =>
      Relation.TransGen forest.Under below above :=
    ⟨fun id => linked.acyclic id⟩
  exact Finite.wellFounded_of_trans_of_irrefl _

theorem exists_wayUp (linked : forest.Linked) (known : forest.contains id = true) :
    ∃ way, forest.WayUp id way := by
  suffices ∀ id : {id // id ∈ forest.ids}, ∃ way, forest.WayUp id way from
    this ⟨id, contains_iff.mp known⟩
  intro id
  induction id using linked.wellFounded_above.induction with
  | _ id ih =>
    obtain ⟨node, found⟩ := Option.isSome_iff_exists.mp (contains_iff.mpr id.property)
    cases parentEq : node.parent with
    | none => exact ⟨[id], .root found parentEq⟩
    | some parent =>
        have under : forest.Under id parent := ⟨node, found, parentEq⟩
        have parentListed := contains_iff.mp (linked.parent_known _ _ under)
        obtain ⟨way, rest⟩ := ih ⟨parent, parentListed⟩ (.single under)
        exact ⟨id :: way, .step under rest⟩

end Linked

namespace WayUp

theorem reaches (up : forest.WayUp id way) (member : other ∈ way) :
    Relation.ReflTransGen forest.Under id other := by
  induction up with
  | root _ _ =>
      rw [List.mem_singleton.mp member]
  | step under _ ih =>
      rcases List.mem_cons.mp member with rfl | further
      · exact .refl
      · exact .head under (ih further)

theorem mem_self (up : forest.WayUp id way) : id ∈ way := by
  cases up <;> exact List.mem_cons_self

theorem mem_of_reaches (up : forest.WayUp id way)
    (path : Relation.ReflTransGen forest.Under id other) : other ∈ way := by
  induction up with
  | root found root =>
      rcases path.cases_head with rfl | ⟨parent, under, _⟩
      · exact List.mem_cons_self
      · exact absurd under (not_under_of_root found root)
  | step under _ ih =>
      rcases path.cases_head with rfl | ⟨parent, under', rest⟩
      · exact List.mem_cons_self
      · cases under.unique under'
        exact List.mem_cons_of_mem _ (ih rest)

theorem known_of_mem (up : forest.WayUp id way) (member : other ∈ way) :
    forest.contains other = true := by
  induction up with
  | root found _ =>
      rw [List.mem_singleton.mp member]
      exact contains_of_node? found
  | step under _ ih =>
      rcases List.mem_cons.mp member with rfl | further
      · exact under.known
      · exact ih further

theorem nodup (up : forest.WayUp id way) (linked : forest.Linked) : way.Nodup := by
  induction up with
  | root _ _ => exact List.nodup_singleton _
  | step under rest ih =>
      refine List.nodup_cons.mpr ⟨fun again => ?_, ih⟩
      exact linked.acyclic _ (Relation.TransGen.head' under (rest.reaches again))

theorem length_le_size (up : forest.WayUp id way) (linked : forest.Linked) :
    way.length ≤ forest.size := by
  have contained : way ⊆ forest.ids := fun _ member => contains_iff.mp (up.known_of_mem member)
  have bound := (up.nodup linked).length_le_of_subset contained
  rwa [ids, List.length_map] at bound

theorem map_climb (up : forest.WayUp id way) {steps : Nat} (enough : way.length ≤ steps) :
    (forest.climb steps id).map Node.id = way := by
  induction up generalizing steps with
  | root found root =>
      cases steps with
      | zero => contradiction
      | succ steps => simp only [climb, found, root, List.map_cons, List.map_nil, id_of_node? found]
  | step under _ ih =>
      obtain ⟨node, found, nested⟩ := under
      cases steps with
      | zero => contradiction
      | succ steps =>
          rw [List.length_cons, Nat.add_le_add_iff_right] at enough
          simp only [climb, found, nested, List.map_cons, id_of_node? found, ih enough]

theorem ancestors_eq (up : forest.WayUp id way) (linked : forest.Linked) :
    forest.ancestors id = way :=
  up.map_climb (up.length_le_size linked)

theorem exists_beyond (up : forest.WayUp id way) :
    ∃ beyond, way = id :: beyond ∧
      ∀ other, other ∈ beyond ↔ Relation.TransGen forest.Under id other := by
  cases up with
  | root found root =>
      refine ⟨[], rfl, fun other => ⟨fun member => absurd member List.not_mem_nil, ?_⟩⟩
      intro around
      obtain ⟨parent, under, _⟩ := Relation.TransGen.head'_iff.mp around
      exact absurd under (not_under_of_root found root)
  | step under rest =>
      refine ⟨_, rfl, fun other => ⟨fun member => .head' under (rest.reaches member), ?_⟩⟩
      intro around
      obtain ⟨parent, under', path⟩ := Relation.TransGen.head'_iff.mp around
      cases under.unique under'
      exact rest.mem_of_reaches path

end WayUp

theorem node?_of_mem_climb {steps : Nat} {node : Node δ γ} (member : node ∈ forest.climb steps id) :
    forest.node? node.id = some node := by
  induction steps generalizing id with
  | zero => contradiction
  | succ steps ih =>
      rw [climb] at member
      split at member
      · contradiction
      next own found =>
        rcases List.mem_cons.mp member with rfl | above
        · rw [id_of_node? found, found]
        · split at above
          · contradiction
          · exact ih above

theorem node?_of_mem_lineage {node : Node δ γ} (member : node ∈ forest.lineage id) :
    forest.node? node.id = some node :=
  node?_of_mem_climb member

namespace Linked

theorem wayUp_ancestors (linked : forest.Linked) (known : forest.contains id = true) :
    forest.WayUp id (forest.ancestors id) := by
  obtain ⟨way, up⟩ := linked.exists_wayUp known
  rwa [up.ancestors_eq linked]

theorem isAncestorOrSelf_iff (linked : forest.Linked) :
    forest.isAncestorOrSelf other id = true ↔
      forest.contains id = true ∧ Relation.ReflTransGen forest.Under id other := by
  rw [Forest.isAncestorOrSelf_iff]
  constructor
  · intro member
    obtain ⟨node, found⟩ := known_of_mem_ancestors member
    have known := contains_of_node? found
    exact ⟨known, (linked.wayUp_ancestors known).reaches member⟩
  · rintro ⟨known, path⟩
    exact (linked.wayUp_ancestors known).mem_of_reaches path

theorem exists_lineage_eq (linked : forest.Linked) {node : Node δ γ}
    (found : forest.node? id = some node) :
    ∃ above, forest.lineage id = node :: above ∧ ∀ outer, outer ∈ above ↔
      forest.node? outer.id = some outer ∧ Relation.TransGen forest.Under id outer.id := by
  obtain ⟨way, up⟩ := linked.exists_wayUp (contains_of_node? found)
  obtain ⟨beyond, rfl, around⟩ := up.exists_beyond
  have idsEq := up.ancestors_eq linked
  rw [ancestors] at idsEq
  obtain ⟨first, above, lineageEq, firstEq, rfl⟩ := List.map_eq_cons_iff.mp idsEq
  have listed {outer : Node δ γ} (member : outer ∈ first :: above) :
      forest.node? outer.id = some outer :=
    node?_of_mem_lineage (lineageEq ▸ member)
  have firstFound := listed List.mem_cons_self
  rw [firstEq, found] at firstFound
  cases firstFound
  refine ⟨above, lineageEq, fun outer => ?_⟩
  rw [← around, List.mem_map]
  constructor
  · intro member
    exact ⟨listed (List.mem_cons_of_mem _ member), outer, member, rfl⟩
  · rintro ⟨outerFound, outer', member, same⟩
    have outerFound' := listed (List.mem_cons_of_mem _ member)
    rw [same, outerFound] at outerFound'
    exact Option.some.inj outerFound' ▸ member

theorem tracksHistory_iff (linked : forest.Linked) :
    forest.tracksHistory id = true ↔ ∃ node, forest.node? id = some node ∧
      (node.history ≠ .none ∨ ∃ outer above, Relation.TransGen forest.Under id outer ∧
        forest.node? outer = some above ∧ above.history = .deep) := by
  cases found : forest.node? id with
  | none => simp [tracksHistory, lineage_of_unknown found]
  | some node =>
      obtain ⟨above, lineageEq, around⟩ := linked.exists_lineage_eq found
      simp only [tracksHistory, lineageEq, Bool.or_eq_true, bne_iff_ne, List.any_eq_true,
        beq_iff_eq, around, Option.some.injEq, exists_eq_left']
      refine or_congr Iff.rfl ⟨?_, ?_⟩
      · rintro ⟨outer, ⟨outerFound, inside⟩, deep⟩
        exact ⟨outer.id, outer, inside, outerFound, deep⟩
      · rintro ⟨outer, node, inside, outerFound, deep⟩
        obtain rfl := id_of_node? outerFound
        exact ⟨node, ⟨outerFound, inside⟩, deep⟩

theorem empty : ({} : Forest δ γ).Linked where
  parent_known := by
    rintro _ _ ⟨_, found, _⟩
    contradiction
  under_of_lists := by
    rintro _ _ ⟨_, found, _⟩
    contradiction
  acyclic id around := by
    obtain ⟨_, ⟨_, found, _⟩, _⟩ := Relation.TransGen.head'_iff.mp around
    contradiction

theorem withLeaf (linked : forest.Linked) (id : StateId) : (forest.withLeaf id).Linked := by
  have old {other : StateId} {node : Node δ γ} (found : forest.node? other = some node) :
      (forest.withLeaf id).node? other = some node := by
    rw [node?_withLeaf, found, Option.some_or]
  have origin {other : StateId} {node : Node δ γ}
      (found : (forest.withLeaf id).node? other = some node) :
      forest.node? other = some node ∨ node = { id } := by
    rw [node?_withLeaf] at found
    rcases Option.or_eq_some_iff.mp found with original | ⟨_, new⟩
    · exact Or.inl original
    · split at new
      · exact Or.inr (Option.some.inj new).symm
      · contradiction
  refine linked.of_links (fun other known => ?_) (fun child parent => ⟨?_, ?_⟩) ?_
  · obtain ⟨node, found⟩ := Option.isSome_iff_exists.mp known
    exact contains_of_node? (old found)
  · rintro ⟨node, found, nested⟩
    rcases origin found with original | rfl
    · exact ⟨node, original, nested⟩
    · contradiction
  · rintro ⟨node, found, nested⟩
    exact ⟨node, old found, nested⟩
  · rintro parent child ⟨node, found, member⟩
    rcases origin found with original | rfl
    · exact Or.inl ⟨node, original, member⟩
    · contradiction

theorem insert (linked : forest.Linked) (id : StateId) : (forest.insert id).left.Linked := by
  unfold Forest.insert
  split
  · exact linked
  split
  · exact linked
  · exact linked.withLeaf id

theorem setParent (linked : forest.Linked) (parentKnown : forest.contains parent = true)
    (outside : ¬ Relation.ReflTransGen forest.Under parent child)
    (known : forest.contains child = true)
    (done : forest.update child (fun node => node.setParent parent) = .ok changed) :
    changed.Linked ∧ changed.Under child parent := by
  rcases becomes_update (fun _ _ => Node.setParent_keepsId) done with
    ⟨unknown, _⟩ | ⟨own, own', ownFound, result, becomes⟩
  · rw [node?_eq_none_iff, known] at unknown
    contradiction
  obtain ⟨rfl, free⟩ := Node.setParent_eq_ok result
  have moved : changed.Under child parent :=
    ⟨_, by rw [becomes.node?_eq, ownFound, Option.map_some, if_pos rfl], rfl⟩
  have link (below above : StateId) (under : changed.Under below above) :
      forest.Under below above ∨ (below = child ∧ above = parent) := by
    by_cases isChild : below = child
    · subst isChild
      exact Or.inr ⟨rfl, under.unique moved⟩
    · obtain ⟨node, found, nested⟩ := under
      rw [becomes.node?_eq] at found
      obtain ⟨old, original, rfl⟩ := Option.map_eq_some_iff.mp found
      rw [if_neg isChild] at nested
      exact Or.inl ⟨old, original, nested⟩
  have keeps (below above : StateId) (under : forest.Under below above) :
      changed.Under below above := by
    obtain ⟨node, found, nested⟩ := under
    by_cases isChild : below = child
    · subst isChild
      cases ownFound.symm.trans found
      rw [nested] at free
      have same : above = parent := by simpa using free
      exact same ▸ moved
    · exact ⟨node, by rw [becomes.node?_eq, found, Option.map_some, if_neg isChild], nested⟩
  refine ⟨⟨fun below above under => ?_, fun above below lists => ?_, fun id around => ?_⟩, moved⟩
  · rw [becomes.contains_eq]
    rcases link below above under with old | ⟨_, rfl⟩
    · exact linked.parent_known _ _ old
    · exact parentKnown
  · obtain ⟨node, found, member⟩ := lists
    rw [becomes.node?_eq] at found
    obtain ⟨old, original, rfl⟩ := Option.map_eq_some_iff.mp found
    refine keeps _ _ (linked.under_of_lists _ _ ?_)
    by_cases isChild : above = child
    · rw [if_pos isChild] at member
      exact ⟨own, isChild ▸ ownFound, member⟩
    · rw [if_neg isChild] at member
      exact ⟨old, original, member⟩
  · rcases transGen_of_link link around with inside | ⟨before, after⟩
    · exact linked.acyclic id inside
    · exact outside (after.trans before)

theorem addChild (linked : forest.Linked) (under : forest.Under child parent)
    (done : forest.update parent (fun node => node.addChild child) = .ok changed) :
    changed.Linked := by
  rcases becomes_update (fun _ _ => Node.addChild_keepsId) done with
    ⟨_, rfl⟩ | ⟨above, above', aboveFound, result, becomes⟩
  · exact linked
  obtain ⟨_, rfl⟩ := Node.change_eq_ok_iff.mp result
  have listed : Becomes (fun id node => if id = parent ∧ child ∉ node.children then
      { node with children := node.children ++ [child] } else node) forest changed := by
    refine becomes.congr fun id node found => ?_
    by_cases isParent : id = parent
    · subst isParent
      cases aboveFound.symm.trans found
      by_cases member : child ∈ above.children <;> simp [member]
    · simp [isParent]
  refine linked.of_links (fun id => (listed.contains_eq id).trans) (fun below above => ?_)
    fun above below lists => ?_
  · simp only [Under, listed.node?_eq, Option.map_eq_some_iff]
    constructor
    · rintro ⟨_, ⟨node, found, rfl⟩, nested⟩
      refine ⟨node, found, ?_⟩
      split at nested <;> exact nested
    · rintro ⟨node, found, nested⟩
      refine ⟨_, ⟨node, found, rfl⟩, ?_⟩
      split <;> exact nested
  · obtain ⟨_, found, member⟩ := lists
    rw [listed.node?_eq] at found
    obtain ⟨node, original, rfl⟩ := Option.map_eq_some_iff.mp found
    split at member
    · next new =>
      rcases List.mem_append.mp member with old | last
      · exact Or.inl ⟨node, original, old⟩
      · rw [List.mem_singleton.mp last, new.1]
        exact Or.inr under
    · exact Or.inl ⟨node, original, member⟩

theorem link {above : Node δ γ} {moved : Forest δ γ} (linked : forest.Linked)
    (outside : forest.isAncestorOrSelf child parent = false)
    (aboveFound : forest.node? parent = some above) (known : forest.contains child = true)
    (movedEq : forest.update child (fun node => node.setParent parent) = .ok moved) :
    moved.Linked ∧ ∀ extended,
      moved.update parent (fun node => node.addChild child) = .ok extended → extended.Linked := by
  have parentKnown := contains_of_node? aboveFound
  have noWay : ¬ Relation.ReflTransGen forest.Under parent child := by
    intro path
    rw [linked.isAncestorOrSelf_iff.mpr ⟨parentKnown, path⟩] at outside
    contradiction
  obtain ⟨linked, under⟩ := linked.setParent parentKnown noWay known movedEq
  exact ⟨linked, fun _ => linked.addChild under⟩

theorem attach (linked : forest.Linked) (parent child : StateId) :
    (forest.attach parent child).left.Linked := by
  unfold Forest.attach
  split
  · exact linked
  split
  · exact linked
  next outside =>
    split
    · exact linked
    next above aboveFound =>
      split
      · next known =>
        cases movedEq : forest.update child (fun node => node.setParent parent) with
        | error refusal =>
            rw [Change.error_andThen, Change.left_error, (left_update_of_error movedEq).1]
            exact linked
        | ok moved =>
            rw [Change.ok_andThen]
            obtain ⟨linked, extends_⟩ :=
              linked.link (Bool.eq_false_iff.mpr outside) aboveFound known movedEq
            cases extendedEq : moved.update parent (fun node => node.addChild child) with
            | error refusal =>
                rw [Change.error_andThen, Change.left_error, (left_update_of_error extendedEq).1]
                exact linked
            | ok extended =>
                rw [Change.ok_andThen]
                exact (extends_ extended extendedEq).of_same
                  (SameLinks.relevel _ _ _ _).sameNeighbours
      · exact linked

theorem change (linked : forest.Linked) (id : StateId) (edit : NodeEdit δ γ) :
    (forest.update id fun node => node.edit edit).left.Linked := by
  cases updated : forest.update id fun node => node.edit edit with
  | error refusal =>
      rw [Change.left_error, (left_update_of_error updated).1]
      exact linked
  | ok changed =>
      rw [Change.left_ok]
      have keepsId (node node' : Node δ γ) (done : node.edit edit = .ok node') :
          node'.id = node.id :=
        (Node.samePlace_of_edit done).2.id_eq
      rcases becomes_update keepsId updated with ⟨_, rfl⟩ | ⟨node, node', found, done, becomes⟩
      · exact linked
      · refine linked.of_same (.of_becomes becomes fun other old original => ?_)
        by_cases hit : other = id
        · subst hit
          cases found.symm.trans original
          rw [if_pos rfl, (Node.samePlace_of_edit done).2.neighbours_eq]
        · rw [if_neg hit]

theorem freeze (linked : forest.Linked) : forest.freeze.left.Linked := by
  have keeps : List.Forall₂ Node.SamePlace forest.nodes (freezeNodes forest.nodes).1 :=
    samePlace_freezeNodes forest.nodes
  unfold Forest.freeze
  split
  · exact linked
  · split
    · next nodes error stopped =>
      rw [stopped] at keeps
      exact linked.of_same (.of_forall₂ _ _ keeps)
    · next nodes done =>
      rw [done] at keeps
      exact linked.of_same (.of_forall₂ _ _ keeps)

theorem edit (linked : forest.Linked) (edit : ForestEdit δ γ) :
    (forest.edit edit).left.Linked := by
  cases edit with
  | insert id => exact linked.insert id
  | attach parent child => exact linked.attach parent child
  | change id edit => exact linked.change id edit
  | freeze => exact linked.freeze

theorem sealing (linked : forest.Linked) (met : StateId → Bool) : (forest.sealing met).Linked := by
  have becomes := becomes_map (fun node : Node δ γ =>
    if met node.id = true ∧ node.frozen = false then node.sealed else node)
    (fun node => by split <;> rfl) forest
  refine linked.of_same (.of_becomes becomes fun id node _ => ?_)
  split <;> rfl

end Linked

theorem Buildable.linked (buildable : forest.Buildable) : forest.Linked := by
  induction buildable with
  | empty => exact .empty
  | edit _ edit ih => exact ih.edit edit
  | stall _ _ _ met ih => exact ih.sealing met

mutual

/-- What levelling a state comes to, in however many steps. -/
inductive Relevels : Forest δ γ → StateId → Nat → Change (Forest δ γ) → Prop where
  | unknown {forest : Forest δ γ} {id : StateId} {level : Nat}
      (unknown : forest.node? id = none) : Relevels forest id level (.ok forest)
  | refused {forest : Forest δ γ} {id : StateId} {level : Nat} {node : Node δ γ}
      {refusal : Refusal (Forest δ γ)} (found : forest.node? id = some node)
      (refused : forest.update id (fun node => node.setLevel level) = .error refusal) :
      Relevels forest id level (.error refusal)
  | goesOn {forest changed : Forest δ γ} {id : StateId} {level : Nat} {node : Node δ γ}
      {result : Change (Forest δ γ)} (found : forest.node? id = some node)
      (levelled : forest.update id (fun node => node.setLevel level) = .ok changed)
      (children : RelevelsEach changed node.children (level + 1) result) :
      Relevels forest id level result

inductive RelevelsEach : Forest δ γ → List StateId → Nat → Change (Forest δ γ) → Prop where
  | nil {forest : Forest δ γ} {level : Nat} : RelevelsEach forest [] level (.ok forest)
  | refused {forest : Forest δ γ} {child : StateId} {rest : List StateId} {level : Nat}
      {refusal : Refusal (Forest δ γ)} (first : Relevels forest child level (.error refusal)) :
      RelevelsEach forest (child :: rest) level (.error refusal)
  | cons {forest changed : Forest δ γ} {child : StateId} {rest : List StateId} {level : Nat}
      {result : Change (Forest δ γ)} (first : Relevels forest child level (.ok changed))
      (later : RelevelsEach changed rest level result) :
      RelevelsEach forest (child :: rest) level result

end

section Levelling

variable {shape : Forest δ γ}

theorem relevelsEach_each {children : List StateId} {steps level : Nat}
    (each : ∀ child ∈ children, ∀ before, SameNeighbours shape before →
      Relevels before child level (relevel steps before child level))
    (same : SameNeighbours shape forest) :
    RelevelsEach forest children level
      (Change.each (fun forest child => relevel steps forest child level) children forest) := by
  induction children generalizing forest with
  | nil => exact .nil
  | cons child children ih =>
      have first := each child List.mem_cons_self forest same
      rw [Change.each]
      cases result : relevel steps forest child level with
      | error refusal =>
          rw [result] at first
          exact .refused first
      | ok changed =>
          rw [result] at first
          have kept := (SameLinks.relevel steps forest child level).sameNeighbours
          rw [result] at kept
          exact .cons first (ih (fun other member => each other (List.mem_cons_of_mem child member))
            (same.trans kept))

/--
A level further down there is one more state on the way up, which never has more states than there
are.  So the steps that are left always suffice for the levels that may follow.
-/
theorem Linked.relevels (linked : shape.Linked) {steps : Nat}
    (same : SameNeighbours shape forest)
    (enough : ∀ way, shape.WayUp id way → shape.size < steps + way.length) (level : Nat) :
    Relevels forest id level (relevel steps forest id level) := by
  induction steps generalizing forest id level with
  | zero =>
      cases found : forest.node? id with
      | none => exact .unknown found
      | some node =>
          obtain ⟨way, up⟩ := linked.exists_wayUp (same.symm.known (contains_of_node? found))
          have bound := up.length_le_size linked
          have := enough way up
          omega
  | succ steps ih =>
      rw [relevel]
      cases found : forest.node? id with
      | none => exact .unknown found
      | some node =>
          cases levelled : forest.update id (fun node => node.setLevel level) with
          | error refusal => exact .refused found levelled
          | ok changed =>
              have kept := (SameLinks.setLevel forest id level).sameNeighbours
              rw [levelled, Change.left_ok] at kept
              refine .goesOn found levelled (relevelsEach_each (fun child member before same' => ?_)
                (same.trans kept))
              have under : shape.Under child id :=
                linked.under_of_lists _ _ (same.symm.lists ⟨node, found, member⟩)
              refine ih same' (fun way up => ?_) (level + 1)
              cases up with
              | root found' root => exact absurd under (not_under_of_root found' root)
              | step under' rest =>
                  cases under.unique under'
                  have := enough _ rest
                  rw [List.length_cons]
                  omega

theorem Linked.relevels_size (linked : forest.Linked) (id : StateId) (level : Nat) :
    Relevels forest id level (relevel forest.size forest id level) := by
  refine linked.relevels (fun _ => rfl) (fun way up => ?_) level
  have := List.length_pos_of_mem up.mem_self
  omega

end Levelling

/-- Walks up come to an end, wherever they start, and find what lies on the way. -/
structure WalksEnd (forest : Forest δ γ) : Prop where
  ends : ∀ id, forest.contains id = true → ∃ way, forest.WayUp id way
  known : ∀ id way, forest.WayUp id way → forest.ancestors id = way ∧
    forest.path id = "/".intercalate (way.reverse.map StateId.text)
  unknown : ∀ id, forest.contains id = false → forest.ancestors id = [] ∧ forest.path id = ""
  isAncestorOrSelf_iff : ∀ ancestor id, forest.isAncestorOrSelf ancestor id = true ↔
    forest.contains id = true ∧ Relation.ReflTransGen forest.Under id ancestor
  tracksHistory_iff : ∀ id, forest.tracksHistory id = true ↔
    ∃ node, forest.node? id = some node ∧ (node.history ≠ .none ∨
      ∃ outer above, Relation.TransGen forest.Under id outer ∧
        forest.node? outer = some above ∧ above.history = .deep)

theorem Linked.walksEnd (linked : forest.Linked) : forest.WalksEnd where
  ends _ := linked.exists_wayUp
  known id way up := by
    have ancestorsEq := up.ancestors_eq linked
    exact ⟨ancestorsEq, by rw [path, ancestorsEq]⟩
  unknown id unknown := by
    have ancestorsEq : forest.ancestors id = [] := by
      rw [ancestors, lineage_of_unknown (node?_eq_none_iff.mpr unknown), List.map_nil]
    exact ⟨ancestorsEq, by rw [path, ancestorsEq]; rfl⟩
  isAncestorOrSelf_iff _ _ := linked.isAncestorOrSelf_iff
  tracksHistory_iff _ := linked.tracksHistory_iff

/--
Whatever was tried on a forest, and whether it is frozen or not, no state lies above itself, and a
state that is listed as a child has that parent.  So all walks up end, and so does levelling, also
the one inside an attachment, which works on a forest with two new links.
-/
theorem Buildable.never_cyclic (buildable : forest.Buildable) :
    forest.Linked ∧ forest.WalksEnd ∧
      (∀ id level, Relevels forest id level (relevel forest.size forest id level)) ∧
      ∀ parent child above moved extended, forest.isAncestorOrSelf child parent = false →
        forest.node? parent = some above → forest.contains child = true →
        forest.update child (fun node => node.setParent parent) = .ok moved →
        moved.update parent (fun node => node.addChild child) = .ok extended →
          extended.Linked ∧ Relevels extended child (above.level + 1)
            (relevel extended.size extended child (above.level + 1)) := by
  have linked := buildable.linked
  refine ⟨linked, linked.walksEnd, linked.relevels_size, ?_⟩
  intro parent child above moved extended outside aboveFound known movedEq extendedEq
  have extendedLinked := (linked.link outside aboveFound known movedEq).2 extended extendedEq
  exact ⟨extendedLinked, extendedLinked.relevels_size child (above.level + 1)⟩

/-- `P` is frozen, so `C` is put under it without being listed; the way round is refused. -/
def crossed : Forest Unit Unit :=
  after {} [.insert ⟨"P"⟩, .insert ⟨"C"⟩, .change ⟨"P"⟩ .freeze, .attach ⟨"P"⟩ ⟨"C"⟩,
    .attach ⟨"C"⟩ ⟨"P"⟩]

theorem Buildable.never_cyclic_crossed :
    crossed.frozen = false ∧ crossed.Under ⟨"C"⟩ ⟨"P"⟩ ∧ ¬ crossed.Lists ⟨"P"⟩ ⟨"C"⟩ ∧
      ¬ Relation.TransGen crossed.Under ⟨"P"⟩ ⟨"P"⟩ ∧ crossed.path ⟨"C"⟩ = "P/C" ∧
      crossed.path ⟨"X"⟩ = "" ∧ ∃ refusal, Relevels crossed ⟨"P"⟩ 1 (.error refusal) := by
  have buildable : crossed.Buildable := (Reachable.after .empty _).buildable
  obtain ⟨linked, walks, levelling, _⟩ := buildable.never_cyclic
  have top : crossed.WayUp ⟨"P"⟩ [⟨"P"⟩] := .root rfl rfl
  have under : crossed.Under ⟨"C"⟩ ⟨"P"⟩ := ⟨_, rfl, rfl⟩
  refine ⟨rfl, under, ?_, linked.acyclic _, (walks.known _ _ (.step under top)).2,
    (walks.unknown _ rfl).2, _, levelling ⟨"P"⟩ 1⟩
  rintro ⟨node, found, member⟩
  cases found
  contradiction

end Forest

end Statechart
