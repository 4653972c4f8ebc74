import Statechart.Proofs.Hierarchy.Change

namespace Statechart

variable {δ γ : Type}

namespace Forest

variable {forest changed shape : Forest δ γ}

theorem WellFormed.mem_ancestors_iff_child (wellFormed : shape.WellFormed) {id other : StateId}
    {top : Node δ γ} (found : shape.node? id = some top) (known : shape.contains other = true) :
    id ∈ shape.ancestors other ↔
      other = id ∨ ∃ child ∈ top.children, child ∈ shape.ancestors other := by
  constructor
  · obtain ⟨node, otherFound⟩ := Option.isSome_iff_exists.mp known
    refine wellFormed.induction_up (motive := fun other _ => id ∈ shape.ancestors other →
      other = id ∨ ∃ child ∈ top.children, child ∈ shape.ancestors other) ?_ ?_ otherFound
    · intro other node otherFound root member
      rw [wellFormed.ancestors_eq_cons otherFound, root] at member
      exact Or.inl (List.mem_singleton.mp member).symm
    · intro other node parent above otherFound nested aboveFound _ ih member
      rw [wellFormed.ancestors_eq_cons otherFound, nested, Option.elim_some] at member ⊢
      rcases List.mem_cons.mp member with same | further
      · exact Or.inl same.symm
      · right
        rcases ih further with rfl | ⟨child, childMember, inside⟩
        · exact ⟨other, (wellFormed.mem_children_iff found).mpr ⟨node, otherFound, nested⟩,
            List.mem_cons_self⟩
        · exact ⟨child, childMember, List.mem_cons_of_mem _ inside⟩
  · rintro (rfl | ⟨child, childMember, inside⟩)
    · exact wellFormed.mem_ancestors_self known
    · obtain ⟨below, belowFound, nested⟩ := (wellFormed.mem_children_iff found).mp childMember
      refine wellFormed.mem_ancestors_trans inside ?_
      rw [wellFormed.ancestors_eq_cons belowFound, nested, Option.elim_some]
      exact List.mem_cons_of_mem _ (wellFormed.mem_ancestors_self (contains_of_node? found))

theorem WellFormed.mem_ancestors_of_child (wellFormed : shape.WellFormed)
    {id other child : StateId} {top : Node δ γ} (found : shape.node? id = some top)
    (member : child ∈ top.children) (inside : child ∈ shape.ancestors other) :
    id ∈ shape.ancestors other := by
  obtain ⟨node, otherFound⟩ := known_of_mem_ancestors inside
  exact (wellFormed.mem_ancestors_iff_child found (contains_of_node? otherFound)).mpr
    (Or.inr ⟨child, member, inside⟩)

theorem WellFormed.isAncestorOrSelf_eq (wellFormed : shape.WellFormed) {id : StateId}
    {top : Node δ γ} (found : shape.node? id = some top) (other : StateId) :
    shape.isAncestorOrSelf id other =
      (other == id || top.children.any fun child => shape.isAncestorOrSelf child other) := by
  rw [Bool.eq_iff_iff]
  simp only [Bool.or_eq_true, beq_iff_eq, List.any_eq_true, isAncestorOrSelf_iff]
  constructor
  · intro inside
    obtain ⟨_, otherFound⟩ := known_of_mem_ancestors inside
    exact (wellFormed.mem_ancestors_iff_child found (contains_of_node? otherFound)).mp inside
  · rintro (rfl | ⟨child, member, inside⟩)
    · exact wellFormed.mem_ancestors_self (contains_of_node? found)
    · exact wellFormed.mem_ancestors_of_child found member inside

def Relevelled (chosen : StateId → Bool) (levels : StateId → Nat)
    (forest changed : Forest δ γ) : Prop :=
  Becomes (fun id node => if chosen id then { node with level := levels id } else node)
    forest changed

namespace Relevelled

variable {chosen chosen' : StateId → Bool} {levels : StateId → Nat}

theorem none (forest : Forest δ γ) : Relevelled (fun _ => false) levels forest forest :=
  (Becomes.refl forest).congr fun _ _ _ => rfl

theorem union {middle : Forest δ γ} (first : Relevelled chosen levels forest middle)
    (second : Relevelled chosen' levels middle changed) :
    Relevelled (fun id => chosen id || chosen' id) levels forest changed := by
  refine (Becomes.trans first second).congr fun id node _ => ?_
  cases first : chosen id <;> cases second : chosen' id <;> simp [first, second]

theorem congr (relevelled : Relevelled chosen levels forest changed)
    (same : ∀ id, chosen id = chosen' id) : Relevelled chosen' levels forest changed :=
  Becomes.congr relevelled fun id _ _ => by rw [same id]

end Relevelled

def SameBelow (shape forest : Forest δ γ) (id : StateId) : Prop :=
  ∀ other node, id ∈ shape.ancestors other → shape.node? other = some node →
    ∃ node', forest.node? other = some node' ∧ node'.children = node.children

theorem SameBelow.relevelled {id : StateId} {chosen : StateId → Bool} {levels : StateId → Nat}
    (same : SameBelow shape forest id) (relevelled : Relevelled chosen levels forest changed) :
    SameBelow shape changed id := by
  intro other node inside found
  obtain ⟨node', found', childrenEq⟩ := same other node inside found
  refine ⟨_, by rw [relevelled.node?_eq, found', Option.map_some], ?_⟩
  cases chosen other <;> exact childrenEq

theorem relevelled_update {id : StateId} {level : Nat} {node : Node δ γ}
    {levels : StateId → Nat} (found : forest.node? id = some node) (levelEq : levels id = level)
    (updated : forest.update id (fun node => node.setLevel level) = .ok changed) :
    Relevelled (fun other => other == id) levels forest changed := by
  have keepsId : ∀ node node' : Node δ γ, node.setLevel level = .ok node' →
      node'.id = node.id := by
    intro node node' result
    obtain ⟨_, rfl⟩ := Node.change_eq_ok_iff.mp result
    rfl
  rcases becomes_update keepsId updated with ⟨unknown, _⟩ | ⟨node, node', found, result, becomes⟩
  · rw [found] at unknown
    contradiction
  · obtain ⟨_, rfl⟩ := Node.change_eq_ok_iff.mp result
    refine becomes.congr fun other old original => ?_
    by_cases hit : other = id
    · subst hit
      rw [found] at original
      cases original
      simp [levelEq]
    · simp [hit]

theorem relevelled_each {levels : StateId → Nat} {id : StateId} {children : List StateId}
    {recurse : Forest δ γ → StateId → Change (Forest δ γ)}
    (child_relevelled : ∀ child ∈ children, ∀ {before after : Forest δ γ},
      SameBelow shape before id → recurse before child = .ok after →
      Relevelled (shape.isAncestorOrSelf child) levels before after)
    (same : SameBelow shape forest id)
    (done : Change.each recurse children forest = .ok changed) :
    Relevelled (fun other => children.any fun child => shape.isAncestorOrSelf child other)
      levels forest changed := by
  induction children generalizing forest with
  | nil =>
      cases done
      exact Relevelled.none _
  | cons child children ih =>
      obtain ⟨middle, childDone, rest⟩ := Change.andThen_eq_ok_iff.mp done
      have first := child_relevelled child List.mem_cons_self same childDone
      have later := ih (fun other member => child_relevelled other (List.mem_cons_of_mem _ member))
        (same.relevelled first) rest
      exact first.union later

/--
Levelling anew reaches all states below, provided that it is given enough steps.  The shape is the
forest from which the states below are read off; it need not have the new levels.
-/
theorem relevelled_relevel (wellFormed : shape.WellFormed) {levels : StateId → Nat}
    {steps level : Nat} {id : StateId} {top : Node δ γ} (found : shape.node? id = some top)
    (same : SameBelow shape forest id)
    (shifted : ∀ other node, id ∈ shape.ancestors other → shape.node? other = some node →
      levels other + top.level = level + node.level)
    (enough : ∀ other node, id ∈ shape.ancestors other → shape.node? other = some node →
      node.level < top.level + steps)
    (done : relevel steps forest id level = .ok changed) :
    Relevelled (shape.isAncestorOrSelf id) levels forest changed := by
  have self {id : StateId} {top : Node δ γ} (found : shape.node? id = some top) :
      id ∈ shape.ancestors id :=
    wellFormed.mem_ancestors_self (contains_of_node? found)
  induction steps generalizing forest changed id level top with
  | zero =>
      have := enough id top (self found) found
      omega
  | succ steps ih =>
      obtain ⟨node, nodeFound, childrenEq⟩ := same id top (self found) found
      rw [relevel, nodeFound] at done
      obtain ⟨middle, updated, rest⟩ := Change.andThen_eq_ok_iff.mp done
      rw [childrenEq] at rest
      have levelEq : levels id = level := by
        have := shifted id top (self found) found
        omega
      have first := relevelled_update nodeFound levelEq updated
      have child_relevelled : ∀ child ∈ top.children, ∀ {before after : Forest δ γ},
          SameBelow shape before id → relevel steps before child (level + 1) = .ok after →
          Relevelled (shape.isAncestorOrSelf child) levels before after := by
        intro child childMember before after same childDone
        obtain ⟨below, belowFound, nested⟩ := (wellFormed.mem_children_iff found).mp childMember
        obtain ⟨_, topFound, belowLevel⟩ := wellFormed.level_of_parent belowFound nested
        cases found.symm.trans topFound
        have outer {other : StateId} (inside : child ∈ shape.ancestors other) :
            id ∈ shape.ancestors other :=
          wellFormed.mem_ancestors_of_child found childMember inside
        refine ih belowFound (fun other node inside => same other node (outer inside))
          (fun other node inside otherFound => ?_) (fun other node inside otherFound => ?_)
          childDone
        · have := shifted other node (outer inside) otherFound
          omega
        · have := enough other node (outer inside) otherFound
          omega
      have later := relevelled_each child_relevelled (same.relevelled first) rest
      exact (first.union later).congr fun other => (wellFormed.isAncestorOrSelf_eq found other).symm

theorem Becomes.size_eq {change : StateId → Node δ γ → Node δ γ}
    (becomes : Becomes change forest changed) : changed.size = forest.size := by
  have := congrArg List.length becomes.ids_eq
  simpa [ids, size] using this

def placed (forest : Forest δ γ) (parent child : StateId) (levels : StateId → Nat)
    (id : StateId) (node : Node δ γ) : Node δ γ :=
  { node with
    parent := if id = child then some parent else node.parent
    children :=
      if id = parent ∧ child ∉ node.children then node.children ++ [child] else node.children
    level := if forest.isAncestorOrSelf child id then levels id else node.level }

theorem attach_eq_ok {parent child : StateId}
    (attached : forest.attach parent child = .ok changed) :
    forest.isAncestorOrSelf child parent = false ∧ forest.contains child = true ∧
      ∃ above moved extended, forest.node? parent = some above ∧
        forest.update child (fun node => node.setParent parent) = .ok moved ∧
        moved.update parent (fun node => node.addChild child) = .ok extended ∧
        relevel extended.size extended child (above.level + 1) = .ok changed := by
  unfold attach at attached
  split at attached
  · contradiction
  split at attached
  · contradiction
  next acyclic =>
    split at attached
    · contradiction
    next above aboveFound =>
      split at attached
      · next known =>
        obtain ⟨moved, movedEq, rest⟩ := Change.andThen_eq_ok_iff.mp attached
        obtain ⟨extended, extendedEq, levelled⟩ := Change.andThen_eq_ok_iff.mp rest
        exact ⟨by simpa using acyclic, known, above, moved, extended, aboveFound, movedEq,
          extendedEq, levelled⟩
      · contradiction

theorem Node.setParent_eq_ok {node node' : Node δ γ} {parent : StateId}
    (result : node.setParent parent = .ok node') :
    node' = { node with parent := some parent } ∧
      (node.parent = none ∨ node.parent = some parent) := by
  obtain ⟨moved, change, rest⟩ := bind_eq_ok_iff.mp result
  obtain ⟨_, rfl⟩ := Node.change_eq_ok_iff.mp change
  by_cases own : parent = node.id
  · simp [own, bind, Except.bind, throw, throwThe, MonadExceptOf.throw] at rest
  · cases parentEq : node.parent with
    | none =>
        simp [own, parentEq, pure, Except.pure] at rest
        exact ⟨rest.symm, Or.inl rfl⟩
    | some existing =>
        by_cases same : existing = parent
        · simp [own, parentEq, same, pure, Except.pure] at rest
          exact ⟨rest.symm, Or.inr (by rw [same])⟩
        · simp [own, parentEq, same, throw, throwThe, MonadExceptOf.throw] at rest

theorem Node.setParent_keepsId {node node' : Node δ γ} {parent : StateId}
    (result : node.setParent parent = .ok node') : node'.id = node.id := by
  rw [(Node.setParent_eq_ok result).1]

theorem Node.addChild_keepsId {node node' : Node δ γ} {child : StateId}
    (result : node.addChild child = .ok node') : node'.id = node.id := by
  obtain ⟨_, rfl⟩ := Node.change_eq_ok_iff.mp result
  split <;> rfl

def linked (parent child id : StateId) (node : Node δ γ) : Node δ γ :=
  { node with
    parent := if id = child then some parent else node.parent
    children :=
      if id = parent ∧ child ∉ node.children then node.children ++ [child] else node.children }

theorem becomes_linked {parent child : StateId} {above : Node δ γ} {moved extended : Forest δ γ}
    (apart : parent ≠ child) (known : forest.contains child = true)
    (aboveFound : forest.node? parent = some above)
    (movedEq : forest.update child (fun node => node.setParent parent) = .ok moved)
    (extendedEq : moved.update parent (fun node => node.addChild child) = .ok extended) :
    ∃ below, forest.node? child = some below ∧
      (below.parent = none ∨ below.parent = some parent) ∧
      Becomes (linked parent child) forest extended := by
  rcases becomes_update (fun _ _ => Node.setParent_keepsId) movedEq with
    ⟨unknown, _⟩ | ⟨below, below', belowFound, setResult, toMoved⟩
  · rw [node?_eq_none_iff, known] at unknown
    contradiction
  obtain ⟨rfl, parentEq⟩ := Node.setParent_eq_ok setResult
  have aboveMoved : moved.node? parent = some above := by
    rw [toMoved.node?_eq, aboveFound, Option.map_some, if_neg apart]
  rcases becomes_update (fun _ _ => Node.addChild_keepsId) extendedEq with
    ⟨unknown, _⟩ | ⟨above', above'', aboveFound', addResult, toExtended⟩
  · rw [aboveMoved] at unknown
    contradiction
  cases aboveMoved.symm.trans aboveFound'
  obtain ⟨_, rfl⟩ := Node.change_eq_ok_iff.mp addResult
  refine ⟨below, belowFound, parentEq, (toMoved.trans toExtended).congr fun id node found => ?_⟩
  by_cases isParent : id = parent
  · subst isParent
    cases aboveFound.symm.trans found
    by_cases member : child ∈ above.children <;> simp [linked, apart, member]
  · by_cases isChild : id = child
    · subst isChild
      cases belowFound.symm.trans found
      simp [linked, isParent]
    · simp [linked, isParent, isChild]

theorem sameBelow_of_linked {parent child : StateId} {extended : Forest δ γ}
    (outside : child ∉ forest.ancestors parent)
    (becomes : Becomes (linked parent child) forest extended) :
    SameBelow forest extended child := by
  intro other node inside found
  have differ : other ≠ parent := by
    rintro rfl
    exact outside inside
  refine ⟨_, by rw [becomes.node?_eq, found, Option.map_some], ?_⟩
  simp [linked, differ]

/-- A state was put under a parent, and everything below it was levelled anew. -/
structure Attached (forest : Forest δ γ) (parent child : StateId) (above below : Node δ γ)
    (levels : StateId → Nat) (changed : Forest δ γ) : Prop where
  above_found : forest.node? parent = some above
  below_found : forest.node? child = some below
  free : below.parent = none ∨ below.parent = some parent
  outside : child ∉ forest.ancestors parent
  shifted : ∀ {id node}, child ∈ forest.ancestors id → forest.node? id = some node →
    levels id + below.level = above.level + 1 + node.level
  becomes : Becomes (forest.placed parent child levels) forest changed

theorem WellFormed.exists_attached (wellFormed : forest.WellFormed) {parent child : StateId}
    (attached : forest.attach parent child = .ok changed) :
    ∃ above below levels, forest.Attached parent child above below levels changed := by
  obtain ⟨acyclic, known, above, moved, extended, aboveFound, movedEq, extendedEq, levelled⟩ :=
    attach_eq_ok attached
  have outside : child ∉ forest.ancestors parent := by
    rw [← isAncestorOrSelf_iff, acyclic]
    exact Bool.false_ne_true
  have apart : parent ≠ child := by
    rintro rfl
    exact outside (wellFormed.mem_ancestors_self known)
  obtain ⟨below, belowFound, free, becomes⟩ :=
    becomes_linked apart known aboveFound movedEq extendedEq
  let levels (id : StateId) : Nat :=
    above.level + 1 + (forest.node? id).elim 0 Node.level - below.level
  have shifted {id : StateId} {node : Node δ γ} (inside : child ∈ forest.ancestors id)
      (found : forest.node? id = some node) :
      levels id + below.level = above.level + 1 + node.level := by
    have bound := wellFormed.level_le_of_mem_ancestors found belowFound inside
    simp only [levels, found, Option.elim_some]
    omega
  have enough (other : StateId) (node : Node δ γ) (_ : child ∈ forest.ancestors other)
      (found : forest.node? other = some node) : node.level < below.level + extended.size := by
    have upper := wellFormed.level_le_size found
    have lower := wellFormed.level_pos belowFound
    have sizeEq := becomes.size_eq
    omega
  have relevelled : Relevelled (forest.isAncestorOrSelf child) levels extended changed :=
    relevelled_relevel wellFormed belowFound (sameBelow_of_linked outside becomes)
      (fun _ _ => shifted) enough levelled
  refine ⟨above, below, levels, aboveFound, belowFound, free, outside, shifted, ?_⟩
  refine (becomes.trans relevelled).congr fun id node _ => ?_
  simp only [linked, placed]
  split <;> rfl

namespace Attached

variable {parent child id : StateId} {above below node node' : Node δ γ}
  {levels : StateId → Nat}

theorem image (attached : forest.Attached parent child above below levels changed)
    (found : forest.node? id = some node) :
    changed.node? id = some (forest.placed parent child levels id node) := by
  rw [attached.becomes.node?_eq, found, Option.map_some]

theorem origin (attached : forest.Attached parent child above below levels changed)
    (found : changed.node? id = some node') :
    ∃ node, forest.node? id = some node ∧ node' = forest.placed parent child levels id node := by
  rw [attached.becomes.node?_eq] at found
  obtain ⟨node, original, rfl⟩ := Option.map_eq_some_iff.mp found
  exact ⟨node, original, rfl⟩

theorem children_nodup (attached : forest.Attached parent child above below levels changed)
    (wellFormed : forest.WellFormed) (found : changed.node? id = some node') :
    node'.children.Nodup := by
  obtain ⟨node, original, rfl⟩ := attached.origin found
  have apart := wellFormed.children_nodup original
  simp only [placed]
  split
  · next extends_ =>
    rw [List.nodup_append]
    refine ⟨apart, by simp, ?_⟩
    rintro other member _ single rfl
    rw [List.mem_singleton.mp single] at member
    exact extends_.2 member
  · exact apart

theorem mem_children_iff_moved
    (attached : forest.Attached parent child above below levels changed)
    (wellFormed : forest.WellFormed) (found : changed.node? id = some node') :
    child ∈ node'.children ↔ parent = id := by
  obtain ⟨node, original, rfl⟩ := attached.origin found
  by_cases isParent : parent = id
  · subst isParent
    by_cases member : child ∈ node.children <;> simp [placed, member]
  · have absent : child ∉ node.children := by
      rw [wellFormed.mem_children_iff original]
      rintro ⟨below', belowFound', nested⟩
      cases attached.below_found.symm.trans belowFound'
      have free := attached.free
      rw [nested] at free
      simp [Ne.symm isParent] at free
    simp [placed, isParent, Ne.symm isParent, absent]

theorem mem_children_iff (attached : forest.Attached parent child above below levels changed)
    (wellFormed : forest.WellFormed) {other : StateId} (found : changed.node? id = some node') :
    other ∈ node'.children ↔
      ∃ below', changed.node? other = some below' ∧ below'.parent = some id := by
  by_cases isChild : other = child
  · subst isChild
    rw [attached.mem_children_iff_moved wellFormed found]
    simp [attached.image attached.below_found, placed]
  · obtain ⟨node, original, rfl⟩ := attached.origin found
    have before : other ∈ (forest.placed parent child levels id node).children ↔
        other ∈ node.children := by
      simp only [placed]
      split
      · simp [isChild]
      · rfl
    rw [before, wellFormed.mem_children_iff original]
    constructor
    · rintro ⟨below', original', nested⟩
      exact ⟨_, attached.image original', by simpa [placed, isChild] using nested⟩
    · rintro ⟨below', found', nested⟩
      obtain ⟨below'', original', rfl⟩ := attached.origin found'
      exact ⟨below'', original', by simpa [placed, isChild] using nested⟩

theorem level_of_root (attached : forest.Attached parent child above below levels changed)
    (wellFormed : forest.WellFormed) (found : changed.node? id = some node')
    (root : node'.parent = none) : node'.level = 1 := by
  obtain ⟨node, original, rfl⟩ := attached.origin found
  have notChild : id ≠ child := by
    rintro rfl
    simp [placed] at root
  have wasRoot : node.parent = none := by simpa [placed, notChild] using root
  have notBelow : child ∉ forest.ancestors id := by
    rw [wellFormed.ancestors_eq_cons original, wasRoot]
    simpa using Ne.symm notChild
  have levelEq := wellFormed.level_of_root original wasRoot
  simpa [placed, isAncestorOrSelf_iff, notBelow] using levelEq

theorem level_of_parent (attached : forest.Attached parent child above below levels changed)
    (wellFormed : forest.WellFormed) {up : StateId} (found : changed.node? id = some node')
    (nested : node'.parent = some up) :
    ∃ above', changed.node? up = some above' ∧ node'.level = above'.level + 1 := by
  obtain ⟨node, original, rfl⟩ := attached.origin found
  by_cases isChild : id = child
  · subst isChild
    have upEq : parent = up := by simpa [placed] using nested
    subst upEq
    have self : id ∈ forest.ancestors id :=
      wellFormed.mem_ancestors_self (contains_of_node? original)
    refine ⟨_, attached.image attached.above_found, ?_⟩
    cases original.symm.trans attached.below_found
    have shifted := attached.shifted self original
    simp only [placed, isAncestorOrSelf_iff, self, attached.outside, if_true, if_false]
    omega
  · have wasNested : node.parent = some up := by simpa [placed, isChild] using nested
    obtain ⟨next, nextFound, levelEq⟩ := wellFormed.level_of_parent original wasNested
    refine ⟨_, attached.image nextFound, ?_⟩
    have inside : child ∈ forest.ancestors id ↔ child ∈ forest.ancestors up := by
      rw [wellFormed.ancestors_eq_cons original, wasNested, Option.elim_some, List.mem_cons]
      simp [Ne.symm isChild]
    by_cases under : child ∈ forest.ancestors up
    · have first := attached.shifted (inside.mpr under) original
      have second := attached.shifted under nextFound
      simp only [placed, isAncestorOrSelf_iff, inside, under, if_true]
      omega
    · simpa [placed, isAncestorOrSelf_iff, inside, under] using levelEq

end Attached

theorem WellFormed.attach (wellFormed : forest.WellFormed) {parent child : StateId}
    (attach : forest.attach parent child = .ok changed) : changed.WellFormed := by
  obtain ⟨above, below, levels, attached⟩ := wellFormed.exists_attached attach
  refine ⟨?_, attached.children_nodup wellFormed, attached.mem_children_iff wellFormed,
    attached.level_of_root wellFormed, attached.level_of_parent wellFormed⟩
  rw [attached.becomes.ids_eq]
  exact wellFormed.ids_nodup

end Forest

end Statechart
