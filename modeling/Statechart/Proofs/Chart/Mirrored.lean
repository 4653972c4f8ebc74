import Mathlib.Data.List.Forall2
import Statechart.Proofs.Chart.Frozen
import Statechart.Proofs.Chart.Checked
import Statechart.Proofs.Layer.Nesting

/-!
Compiled forests mirror the declarations they are compiled from.

Declarations are nested, while a forest lists its nodes and keeps parents, children and levels with
them.  Declaring a state appends a leaf and extends the children of one node; so the states of a
declaration stand in the forest in the order in which they are written, each with the place it is
written at.
-/

namespace Statechart

variable {δ γ : Type}

/-- A declared state, with the states that it is nested in, the innermost one first. -/
structure Placement (δ γ : Type) where
  above : List StateId
  state : StateDecl δ γ

namespace Placement

def id (placement : Placement δ γ) : StateId :=
  placement.state.id

def traits (placement : Placement δ γ) : Traits δ γ :=
  placement.state.traits

@[simp] theorem id_mk (above : List StateId) (id : StateId) (traits : Traits δ γ)
    (children : List (StateDecl δ γ)) :
    (⟨above, .mk id traits children⟩ : Placement δ γ).id = id :=
  rfl

end Placement

mutual

def StateDecl.placements (above : List StateId) : StateDecl δ γ → List (Placement δ γ)
  | .mk id traits children => ⟨above, .mk id traits children⟩ :: placementsOf (id :: above) children

def placementsOf (above : List StateId) : List (StateDecl δ γ) → List (Placement δ γ)
  | [] => []
  | state :: rest => state.placements above ++ placementsOf above rest

end

mutual

theorem StateDecl.map_id_placements (above : List StateId) :
    ∀ state : StateDecl δ γ,
      (state.placements above).map Placement.id = state.preorder.map Prod.fst
  | .mk id traits children => by
      rw [StateDecl.placements, StateDecl.preorder, List.map_cons, List.map_cons,
        map_id_placementsOf (id :: above) children]
      rfl

theorem map_id_placementsOf (above : List StateId) :
    ∀ states : List (StateDecl δ γ),
      (placementsOf above states).map Placement.id = (preorderOf states).map Prod.fst
  | [] => by rw [placementsOf, preorderOf, List.map_nil, List.map_nil]
  | state :: rest => by
      rw [placementsOf, preorderOf, List.map_append, List.map_append,
        state.map_id_placements above, map_id_placementsOf above rest]

end

def Traits.onto (traits : Traits δ γ) (entry exit : List (Slot δ γ)) (node : Node δ γ) :
    Node δ γ :=
  { node with
    isFinal := traits.isFinal.getD node.isFinal
    isInitial := traits.isInitial.getD node.isInitial
    history := traits.history.getD node.history
    composition := traits.composition.getD node.composition
    entry := node.entry.extend entry
    exit := node.exit.extend exit }

namespace Node

variable {node changed : Node δ γ}

theorem setIf_eq_ok {α : Type} (read : Node δ γ → α) (put : Node δ γ → α → Node δ γ)
    (put_read : ∀ node, put node (read node) = node) {value : Option α}
    (done : setIf (fun node value => node.change (put node value)) value node = .ok changed) :
    changed = put node (value.getD (read node)) := by
  cases value with
  | none =>
      cases done
      exact (put_read node).symm
  | some value => exact (change_eq_ok_iff.mp done).2.symm

theorem pushAll_eq_ok (read : Node δ γ → ActionList δ γ)
    (put : Node δ γ → ActionList δ γ → Node δ γ) (put_read : ∀ node, put node (read node) = node)
    (read_put : ∀ node list, read (put node list) = list)
    (put_put : ∀ node list other, put (put node list) other = put node other)
    {slots : List (Slot δ γ)}
    (done : slots.foldlM (fun node slot => node.change (put node ((read node).push slot).1)) node =
      .ok changed) :
    changed = put node ((read node).extend slots) := by
  induction slots generalizing node with
  | nil =>
      cases done
      exact (put_read _).symm
  | cons slot slots ih =>
      rw [List.foldlM_cons] at done
      obtain ⟨next, pushed, rest⟩ := bind_eq_ok_iff.mp done
      obtain ⟨_, rfl⟩ := change_eq_ok_iff.mp pushed
      rw [ih rest, read_put, put_put]
      rfl

theorem addEntries_eq_ok {slots : List (Slot δ γ)}
    (done : slots.foldlM addEntry node = .ok changed) :
    changed = { node with entry := node.entry.extend slots } :=
  pushAll_eq_ok entry (fun node entry => { node with entry }) (fun _ => rfl)
    (fun _ _ => rfl) (fun _ _ _ => rfl) done

theorem addExits_eq_ok {slots : List (Slot δ γ)}
    (done : slots.foldlM addExit node = .ok changed) :
    changed = { node with exit := node.exit.extend slots } :=
  pushAll_eq_ok exit (fun node exit => { node with exit }) (fun _ => rfl)
    (fun _ _ => rfl) (fun _ _ _ => rfl) done

theorem applyTo_eq_ok {traits : Traits δ γ} {entry exit : List (Slot δ γ)}
    (done : traits.applyTo entry exit node = .ok changed) :
    changed = traits.onto entry exit node := by
  obtain ⟨first, finalSet, done⟩ := bind_eq_ok_iff.mp done
  obtain ⟨second, initialSet, done⟩ := bind_eq_ok_iff.mp done
  obtain ⟨third, historySet, done⟩ := bind_eq_ok_iff.mp done
  obtain ⟨fourth, compositionSet, done⟩ := bind_eq_ok_iff.mp done
  obtain ⟨fifth, entryAdded, exitAdded⟩ := bind_eq_ok_iff.mp done
  have firstEq := setIf_eq_ok isFinal (fun node isFinal => { node with isFinal })
    (fun _ => rfl) finalSet
  have secondEq := setIf_eq_ok isInitial (fun node isInitial => { node with isInitial })
    (fun _ => rfl) initialSet
  have thirdEq := setIf_eq_ok history (fun node history => { node with history })
    (fun _ => rfl) historySet
  have fourthEq := setIf_eq_ok composition (fun node composition => { node with composition })
    (fun _ => rfl) compositionSet
  subst firstEq secondEq thirdEq fourthEq
  rw [addExits_eq_ok exitAdded, addEntries_eq_ok entryAdded]
  rfl

theorem hook_eq_ok {registry : Registry δ γ}
    (done : (do
      let node ← setIf addEntry (registry.hookSlot? Hook.entryAny) node
      setIf addExit (registry.hookSlot? Hook.exitAny) node) = .ok changed) :
    changed = { node with
      entry := node.entry.extend (registry.hookSlot? Hook.entryAny).toList
      exit := node.exit.extend (registry.hookSlot? Hook.exitAny).toList } := by
  have asFold {set : Node δ γ → Slot δ γ → Except BuildError (Node δ γ)}
      (slot : Option (Slot δ γ)) (node : Node δ γ) :
      setIf set slot node = slot.toList.foldlM set node := by
    cases slot with
    | none => rfl
    | some slot => simp [setIf]
  obtain ⟨between, entryAdded, exitAdded⟩ := bind_eq_ok_iff.mp done
  rw [asFold] at entryAdded exitAdded
  rw [addExits_eq_ok exitAdded, addEntries_eq_ok entryAdded]

def adopt (parent : Option StateId) (children : List StateId) (node : Node δ γ) : Node δ γ :=
  if parent = some node.id then { node with children := node.children ++ children } else node

@[simp] theorem adopt_nil (parent : Option StateId) (node : Node δ γ) :
    node.adopt parent [] = node := by
  unfold adopt
  split
  · rw [List.append_nil]
  · rfl

theorem adopt_of_ne {parent : Option StateId} {children : List StateId}
    (apart : parent ≠ some node.id) : node.adopt parent children = node :=
  if_neg apart

@[simp] theorem id_adopt (parent : Option StateId) (children : List StateId) (node : Node δ γ) :
    (node.adopt parent children).id = node.id := by
  unfold adopt
  split <;> rfl

theorem adopt_adopt (parent : Option StateId) (first second : List StateId) (node : Node δ γ) :
    (node.adopt parent first).adopt parent second = node.adopt parent (first ++ second) := by
  by_cases own : parent = some node.id
  · simp [adopt, own]
  · rw [adopt_of_ne own, adopt_of_ne own, adopt_of_ne own]

/-- The node says what its declaration says, and stands where that is written. -/
structure Mirrors (node : Node δ γ) (placement : Placement δ γ) : Prop where
  id_eq : node.id = placement.id
  parent_eq : node.parent = placement.above.head?
  children_eq : node.children = idsOf placement.state.children
  isFinal_eq : node.isFinal = placement.traits.isFinal.getD false
  isInitial_eq : node.isInitial = placement.traits.isInitial.getD false
  history_eq : node.history = placement.traits.history.getD .none
  composition_eq : node.composition = placement.traits.composition.getD .sequential

theorem Mirrors.adopt {above : List StateId} {id : StateId} {traits : Traits δ γ}
    (leaf : node.Mirrors ⟨above, .mk id traits []⟩) (children : List (StateDecl δ γ)) :
    (node.adopt (some id) (idsOf children)).Mirrors ⟨above, .mk id traits children⟩ := by
  have own : some id = some node.id := congrArg some leaf.id_eq.symm
  rw [Node.adopt, if_pos own]
  refine ⟨leaf.id_eq, leaf.parent_eq, ?_, leaf.isFinal_eq, leaf.isInitial_eq, leaf.history_eq,
    leaf.composition_eq⟩
  rw [leaf.children_eq]
  rfl

def ActsOnly (node changed : Node δ γ) : Prop :=
  ∃ entry exit frozen, changed = { node with entry, exit, frozen }

theorem ActsOnly.refl (node : Node δ γ) : node.ActsOnly node :=
  ⟨node.entry, node.exit, node.frozen, rfl⟩

theorem ActsOnly.trans {middle : Node δ γ} (first : node.ActsOnly middle)
    (second : middle.ActsOnly changed) : node.ActsOnly changed := by
  obtain ⟨_, _, _, rfl⟩ := first
  obtain ⟨entry, exit, frozen, rfl⟩ := second
  exact ⟨entry, exit, frozen, rfl⟩

theorem Mirrors.actsOnly {placement : Placement δ γ} (mirrors : node.Mirrors placement)
    (acts : node.ActsOnly changed) : changed.Mirrors placement := by
  obtain ⟨_, _, _, rfl⟩ := acts
  exact ⟨mirrors.id_eq, mirrors.parent_eq, mirrors.children_eq, mirrors.isFinal_eq,
    mirrors.isInitial_eq, mirrors.history_eq, mirrors.composition_eq⟩

end Node

namespace Forest

variable {forest middle changed : Forest δ γ} {registry : Registry δ γ}

theorem ne_of_fresh {id other : StateId} {node : Node δ γ} (fresh : id ∉ forest.ids)
    (found : forest.node? other = some node) : other ≠ id := by
  rintro rfl
  exact fresh (contains_iff.mp (contains_of_node? found))

theorem placed_eq_adopt {parent child id : StateId} {levels : StateId → Nat} {node : Node δ γ}
    (found : forest.node? id = some node) (apart : id ≠ child)
    (outside : child ∉ forest.ancestors id) (absent : child ∉ node.children) :
    forest.placed parent child levels id node = node.adopt (some parent) [child] := by
  have elsewhere : forest.isAncestorOrSelf child id = false := by
    rw [← Bool.not_eq_true, isAncestorOrSelf_iff]
    exact outside
  have idEq := id_of_node? found
  subst idEq
  by_cases isParent : parent = node.id
  · simp [placed, Node.adopt, elsewhere, apart, absent, isParent]
  · simp [placed, Node.adopt, elsewhere, apart, isParent, Ne.symm isParent]

def Realizes (forest : Forest δ γ) (placements : List (Placement δ γ)) : Prop :=
  ∀ placement ∈ placements, ∃ node, forest.node? placement.id = some node ∧ node.Mirrors placement

/-- Placements were added at the end, and the children among them to their parent. -/
structure Declared (forest : Forest δ γ) (parent : Option StateId) (children : List StateId)
    (placements : List (Placement δ γ)) (changed : Forest δ γ) : Prop where
  wellFormed : changed.WellFormed
  ids_eq : changed.ids = forest.ids ++ placements.map Placement.id
  kept : ∀ {id node}, forest.node? id = some node →
    changed.node? id = some (node.adopt parent children)
  realizes : changed.Realizes placements

namespace Declared

variable {parent : Option StateId} {placements later : List (Placement δ γ)}

theorem refl (wellFormed : forest.WellFormed) (parent : Option StateId) :
    Declared forest parent [] [] forest :=
  ⟨wellFormed, (List.append_nil _).symm, fun found => by rw [found, Node.adopt_nil], nofun⟩

theorem append {children children' : List StateId}
    (first : Declared forest parent children placements middle)
    (second : Declared middle parent children' later changed)
    (outside : ∀ id ∈ parent, id ∉ placements.map Placement.id) :
    Declared forest parent (children ++ children') (placements ++ later) changed where
  wellFormed := second.wellFormed
  ids_eq := by rw [second.ids_eq, first.ids_eq, List.map_append, List.append_assoc]
  kept found := by rw [second.kept (first.kept found), Node.adopt_adopt]
  realizes placement member := by
    rcases List.mem_append.mp member with old | new
    · obtain ⟨node, found, mirrors⟩ := first.realizes placement old
      refine ⟨node, ?_, mirrors⟩
      rw [second.kept found, Node.adopt_of_ne]
      intro isParent
      refine outside node.id isParent ?_
      rw [mirrors.id_eq]
      exact List.mem_map_of_mem old
    · exact second.realizes placement new

theorem nest {above : List StateId} {id : StateId} {traits : Traits δ γ}
    {children : List (StateDecl δ γ)} {siblings : List StateId}
    (own : Declared forest parent siblings [⟨above, .mk id traits []⟩] middle)
    (nested : Declared middle (some id) (idsOf children) later changed) (fresh : id ∉ forest.ids) :
    Declared forest parent siblings (⟨above, .mk id traits children⟩ :: later) changed where
  wellFormed := nested.wellFormed
  ids_eq := by
    rw [nested.ids_eq, own.ids_eq, List.append_assoc]
    rfl
  kept {other node} found := by
    rw [nested.kept (own.kept found), Node.adopt_of_ne]
    rw [Node.id_adopt, id_of_node? found]
    intro same
    exact ne_of_fresh fresh found (Option.some.inj same).symm
  realizes placement member := by
    rcases List.mem_cons.mp member with rfl | inside
    · obtain ⟨leaf, found, mirrors⟩ := own.realizes _ List.mem_cons_self
      exact ⟨_, nested.kept found, mirrors.adopt children⟩
    · exact nested.realizes placement inside

theorem root {id : StateId} {traits : Traits δ γ} {entry exit : List (Slot δ γ)}
    (wellFormed : forest.WellFormed) (fresh : id ∉ forest.ids)
    (inserted : forest.insert id = .ok middle)
    (updated : middle.update id (traits.applyTo entry exit) = .ok changed) :
    Declared forest none [] [⟨[], .mk id traits []⟩] changed := by
  have unknown : forest.contains id = false := by
    rw [← Bool.not_eq_true, contains_iff]
    exact fresh
  rcases (insert_eq_ok inserted).2 with ⟨known, _⟩ | ⟨_, rfl⟩
  · rw [unknown] at known
    contradiction
  have keepsPlace : ∀ node node' : Node δ γ, traits.applyTo entry exit node = .ok node' →
      node.SamePlace node' := fun _ _ done => (Node.Edited.applyTo done).samePlace
  have leafFound : (forest.withLeaf id).node? id = some { id } := by
    rw [node?_withLeaf, node?_eq_none_iff.mpr unknown, if_pos rfl, Option.none_or]
  rcases becomes_update (fun node node' done => (keepsPlace node node' done).id_eq) updated with
    ⟨absent, _⟩ | ⟨node, node', found, applied, becomes⟩
  · rw [leafFound] at absent
    contradiction
  cases leafFound.symm.trans found
  refine ⟨(wellFormed.withLeaf unknown).update keepsPlace updated, ?_, fun {other old} found => ?_,
    fun placement member => ?_⟩
  · rw [becomes.ids_eq]
    simp [ids, withLeaf, Placement.id, StateDecl.id]
  · rw [becomes.node?_eq, node?_withLeaf, found, Option.some_or, Option.map_some,
      if_neg (ne_of_fresh fresh found), Node.adopt_nil]
  · cases List.mem_singleton.mp member
    refine ⟨node', ?_, ?_⟩
    · rw [becomes.node?_eq, Placement.id_mk, leafFound, Option.map_some, if_pos rfl]
    · rw [Node.applyTo_eq_ok applied]
      exact ⟨rfl, rfl, rfl, rfl, rfl, rfl, rfl⟩

theorem attach {parent id : StateId} {above : List StateId} {traits : Traits δ γ}
    (declared : Declared forest none [] [⟨[], .mk id traits []⟩] middle) (fresh : id ∉ forest.ids)
    (attached : middle.attach parent id = .ok changed) :
    Declared forest (some parent) [id] [⟨parent :: above, .mk id traits []⟩] changed := by
  obtain ⟨outer, below, levels, placed⟩ := declared.wellFormed.exists_attached attached
  obtain ⟨leaf, found, mirrors⟩ := declared.realizes _ List.mem_cons_self
  cases placed.below_found.symm.trans found
  have childless : below.children = [] := mirrors.children_eq
  have apart : id ≠ parent := by
    rintro rfl
    exact placed.outside (declared.wellFormed.mem_ancestors_self (contains_of_node? found))
  refine ⟨declared.wellFormed.attach attached, ?_, fun {other node} found => ?_,
    fun placement member => ?_⟩
  · rw [placed.becomes.ids_eq, declared.ids_eq]
    rfl
  · have differ := ne_of_fresh fresh found
    have stays := declared.kept found
    rw [Node.adopt_nil] at stays
    have outside : id ∉ middle.ancestors other := by
      rw [declared.wellFormed.mem_ancestors_iff_child placed.below_found (contains_of_node? stays),
        childless]
      simpa using differ
    have absent : id ∉ node.children := by
      rw [declared.wellFormed.mem_children_iff stays]
      rintro ⟨own, ownFound, nested⟩
      cases placed.below_found.symm.trans ownFound
      rw [mirrors.parent_eq] at nested
      contradiction
    rw [placed.image stays, placed_eq_adopt stays differ outside absent]
  · cases List.mem_singleton.mp member
    refine ⟨_, placed.image placed.below_found, ?_⟩
    refine ⟨mirrors.id_eq, ?_, ?_, mirrors.isFinal_eq, mirrors.isInitial_eq, mirrors.history_eq,
      mirrors.composition_eq⟩
    · simp [Forest.placed]
    · simp [Forest.placed, apart, childless, idsOf, StateDecl.children]

theorem leaf {above : List StateId} {id : StateId} {traits : Traits δ γ}
    (wellFormed : forest.WellFormed) (fresh : id ∉ forest.ids)
    (done : forest.declare registry above.head? id traits = .ok changed) :
    Declared forest above.head? [id] [⟨above, .mk id traits []⟩] changed := by
  obtain ⟨entry, exit, inserted, updated, _, _, insertedEq, updatedEq, done⟩ := declare_eq_ok done
  have root := root wellFormed fresh insertedEq updatedEq
  cases above with
  | nil =>
      cases done
      exact ⟨root.wellFormed, root.ids_eq, root.kept, root.realizes⟩
  | cons parent above => exact root.attach fresh done

mutual

theorem of_declareState (above : List StateId) :
    ∀ (state : StateDecl δ γ) {forest changed : Forest δ γ}, forest.WellFormed →
      (forest.ids ++ (state.placements above).map Placement.id).Nodup →
      (∀ id ∈ above.head?, id ∈ forest.ids) →
      Forest.declareState registry above.head? forest state = .ok changed →
      Declared forest above.head? [state.id] (state.placements above) changed
  | .mk id traits children, forest, changed, wellFormed, once, _, done => by
      -- The state is a leaf when the ones nested in it are declared, and takes them as children.
      rw [StateDecl.placements, List.map_cons, Placement.id_mk] at once
      rw [StateDecl.placements]
      rw [Forest.declareState] at done
      obtain ⟨middle, own, nested⟩ := bind_eq_ok_iff.mp done
      have fresh : id ∉ forest.ids := fun again =>
        List.disjoint_of_nodup_append once again List.mem_cons_self
      have leaf := leaf wellFormed fresh own
      have inside : ∀ parent ∈ (id :: above).head?, parent ∈ middle.ids := by
        intro parent isParent
        cases isParent
        rw [leaf.ids_eq]
        exact List.mem_append_right forest.ids List.mem_cons_self
      have onceMiddle : (middle.ids ++
          (placementsOf (id :: above) children).map Placement.id).Nodup := by
        rw [leaf.ids_eq]
        simpa using once
      have below := of_declareStates (id :: above) children leaf.wellFormed onceMiddle inside nested
      exact leaf.nest below fresh

theorem of_declareStates (above : List StateId) :
    ∀ (states : List (StateDecl δ γ)) {forest changed : Forest δ γ}, forest.WellFormed →
      (forest.ids ++ (placementsOf above states).map Placement.id).Nodup →
      (∀ id ∈ above.head?, id ∈ forest.ids) →
      Forest.declareStates registry above.head? forest states = .ok changed →
      Declared forest above.head? (idsOf states) (placementsOf above states) changed
  | [], forest, changed, wellFormed, _, _, done => by
      rw [Forest.declareStates] at done
      cases done
      rw [placementsOf]
      exact refl wellFormed above.head?
  | state :: rest, forest, changed, wellFormed, once, known, done => by
      rw [placementsOf, List.map_append, ← List.append_assoc] at once
      rw [placementsOf]
      rw [Forest.declareStates] at done
      obtain ⟨middle, own, later⟩ := bind_eq_ok_iff.mp done
      -- The parent was there before, so none of the states already declared gains children.
      have first := of_declareState above state wellFormed once.of_append_left known own
      have outside : ∀ id ∈ above.head?, id ∉ (state.placements above).map Placement.id :=
        fun id isParent => List.disjoint_of_nodup_append once.of_append_left (known id isParent)
      rw [← first.ids_eq] at once
      have stillKnown : ∀ id ∈ above.head?, id ∈ middle.ids := by
        intro id isParent
        rw [first.ids_eq]
        exact List.mem_append_left _ (known id isParent)
      have second := of_declareStates above rest first.wellFormed once stillKnown later
      exact first.append second outside

end

end Declared

structure SameStates (forest changed : Forest δ γ) : Prop where
  ids_eq : changed.ids = forest.ids
  acts : ∀ {id node}, forest.node? id = some node →
    ∃ node', changed.node? id = some node' ∧ node.ActsOnly node'

namespace SameStates

theorem refl (forest : Forest δ γ) : SameStates forest forest :=
  ⟨rfl, fun {_ node} found => ⟨node, found, .refl node⟩⟩

theorem trans (first : SameStates forest middle) (second : SameStates middle changed) :
    SameStates forest changed where
  ids_eq := second.ids_eq.trans first.ids_eq
  acts found := by
    obtain ⟨_, middleFound, acts⟩ := first.acts found
    obtain ⟨node', found', acts'⟩ := second.acts middleFound
    exact ⟨node', found', acts.trans acts'⟩

theorem realizes {placements : List (Placement δ γ)} (same : SameStates forest changed)
    (realizes : forest.Realizes placements) : changed.Realizes placements := by
  intro placement member
  obtain ⟨_, found, mirrors⟩ := realizes placement member
  obtain ⟨node', found', acts⟩ := same.acts found
  exact ⟨node', found', mirrors.actsOnly acts⟩

theorem of_update {id : StateId} {change : Node δ γ → Except BuildError (Node δ γ)}
    (acts : ∀ node node', change node = .ok node' → node.ActsOnly node')
    (updated : forest.update id change = .ok changed) : SameStates forest changed := by
  have keepsId : ∀ node node', change node = .ok node' → node'.id = node.id := by
    intro node node' done
    obtain ⟨_, _, _, rfl⟩ := acts node node' done
    rfl
  rcases becomes_update keepsId updated with ⟨_, rfl⟩ | ⟨node, node', found, done, becomes⟩
  · exact refl _
  · refine ⟨becomes.ids_eq, fun {other old} original => ?_⟩
    refine ⟨_, by rw [becomes.node?_eq, original, Option.map_some], ?_⟩
    split
    · next isChanged =>
      subst isChanged
      cases found.symm.trans original
      exact acts node node' done
    · exact .refl old

theorem of_addHooks (done : forest.addHooks registry = .ok changed) :
    SameStates forest changed := by
  refine foldlM_keeps (motive := SameStates forest) ?_ (refl forest) done
  intro middle id next _ same hooked
  refine same.trans (of_update (fun node node' done => ?_) (Change.toExcept_eq_ok_iff.mp hooked))
  exact ⟨_, _, node.frozen, Node.hook_eq_ok done⟩

theorem of_freeze (done : forest.freeze = .ok changed) : SameStates forest changed := by
  obtain ⟨_, _, rfl⟩ := freeze_eq_ok done
  have becomes := becomes_map Node.sealed (fun _ => rfl) forest
  refine ⟨becomes.ids_eq, fun {id node} found => ⟨node.sealed, ?_, _, _, _, rfl⟩⟩
  have sealedFound := becomes.node?_eq id
  rw [found, Option.map_some] at sealedFound
  exact sealedFound

end SameStates

/-- The node mirrors a declaration, and lies in the states that the declaration is nested in. -/
structure Mirrors (forest : Forest δ γ) (node : Node δ γ) (placement : Placement δ γ) : Prop
    extends node.Mirrors placement where
  ancestors_eq : forest.ancestors placement.id = placement.id :: placement.above
  level_eq : node.level = placement.above.length + 1

mutual

theorem WellFormed.ancestors_of_placements (wellFormed : forest.WellFormed)
    (above : List StateId) (around : above.head?.elim [] forest.ancestors = above) :
    ∀ state : StateDecl δ γ, forest.Realizes (state.placements above) →
      ∀ placement ∈ state.placements above,
        forest.ancestors placement.id = placement.id :: placement.above
  | .mk id traits children, realizes, placement, member => by
      rw [StateDecl.placements] at realizes member
      obtain ⟨node, found, mirrors⟩ := realizes _ List.mem_cons_self
      have own : forest.ancestors id = id :: above := by
        rw [Placement.id_mk] at found
        rw [wellFormed.ancestors_eq_cons found, mirrors.parent_eq, around]
      rcases List.mem_cons.mp member with rfl | inside
      · exact own
      · exact wellFormed.ancestors_of_placementsOf (id :: above) own children
          (fun other inside => realizes other (List.mem_cons_of_mem _ inside)) placement inside

theorem WellFormed.ancestors_of_placementsOf (wellFormed : forest.WellFormed)
    (above : List StateId) (around : above.head?.elim [] forest.ancestors = above) :
    ∀ states : List (StateDecl δ γ), forest.Realizes (placementsOf above states) →
      ∀ placement ∈ placementsOf above states,
        forest.ancestors placement.id = placement.id :: placement.above
  | [], _, placement, member => by
      rw [placementsOf] at member
      contradiction
  | state :: rest, realizes, placement, member => by
      rw [placementsOf] at realizes member
      rcases List.mem_append.mp member with inState | inRest
      · exact wellFormed.ancestors_of_placements above around state
          (fun other inState => realizes other (List.mem_append_left _ inState)) placement inState
      · exact wellFormed.ancestors_of_placementsOf above around rest
          (fun other inRest => realizes other (List.mem_append_right _ inRest)) placement inRest

end

theorem forall₂_of_ids_eq {related : Node δ γ → Placement δ γ → Prop}
    {placements : List (Placement δ γ)} (once : forest.ids.Nodup)
    (idsEq : forest.ids = placements.map Placement.id)
    (each : ∀ placement ∈ placements, ∃ node, forest.node? placement.id = some node ∧
      related node placement) :
    List.Forall₂ related forest.nodes placements := by
  have pairs : List.Forall₂ (· = ·) (forest.nodes.map Node.id) (placements.map Placement.id) := by
    rw [List.forall₂_eq_eq_eq]
    exact idsEq
  rw [List.forall₂_map_left_iff, List.forall₂_map_right_iff] at pairs
  refine List.forall₂_iff_zip.mpr ⟨pairs.length_eq, fun {node placement} paired => ?_⟩
  obtain ⟨isNode, isPlacement⟩ := List.of_mem_zip paired
  have found := node?_of_mem once isNode
  rw [List.forall₂_zip pairs paired] at found
  obtain ⟨_, found', own⟩ := each placement isPlacement
  cases found.symm.trans found'
  exact own

theorem WellFormed.forall₂_mirrors (wellFormed : forest.WellFormed)
    {states : List (StateDecl δ γ)}
    (idsEq : forest.ids = (placementsOf [] states).map Placement.id)
    (realizes : forest.Realizes (placementsOf [] states)) :
    List.Forall₂ forest.Mirrors forest.nodes (placementsOf [] states) := by
  refine forall₂_of_ids_eq wellFormed.ids_nodup idsEq fun placement isPlacement => ?_
  obtain ⟨node, found, mirrors⟩ := realizes placement isPlacement
  have way := wellFormed.ancestors_of_placementsOf [] rfl states realizes placement isPlacement
  refine ⟨node, found, mirrors, way, ?_⟩
  rw [wellFormed.level_eq_length found, ← List.length_map Node.id, ← ancestors, way,
    List.length_cons]

end Forest

theorem Layer.nodup_placements {layer : Layer δ γ} {registry : Registry δ γ}
    (passed : layer.check registry = .ok ()) :
    ((placementsOf [] layer.states).map Placement.id).Nodup := by
  have none := Layer.problems_of_check passed
  simp only [Layer.problems, List.append_eq_nil_iff] at none
  rw [map_id_placementsOf]
  exact (Forest.Declarable.of_stateProblems registry none.1.1).nodup

/-- The states are declared one after the other, and stand in the forest as they are written. -/
theorem Layer.Built.declared {layer : Layer δ γ} {registry : Registry δ γ}
    {declared hooked : Forest δ γ} {open_ : Table δ γ} {chart : Chart δ γ}
    (built : layer.Built registry declared hooked open_ chart) :
    Forest.Declared {} none (idsOf layer.states) (placementsOf [] layer.states) declared := by
  have topLevel : ∀ id ∈ ([] : List StateId).head?, id ∈ ({} : Forest δ γ).ids := by
    intro id isParent
    contradiction
  exact Forest.Declared.of_declareStates [] layer.states Forest.wellFormed_empty
    (Layer.nodup_placements built.passed) topLevel built.declares

namespace Chart

variable {chain : List (Layer δ γ)} {registry : Registry δ γ} {chart : Chart δ γ}

/--
The forest of a compiled chart lists the states of the merged layers as they are written there,
each before those nested in it, and each once.  Every node is frozen; its place in the forest is the
one at which its state is declared, and it has the declared traits.  Machines start where the merged
layers say, or else in their first state at top level that is marked initial.
-/
theorem ofLayers_mirrors_layers (compiled : Chart.ofLayers chain registry = .ok chart) :
    List.Forall₂ chart.forest.Mirrors chart.forest.nodes
        (placementsOf [] (Layer.merge chain).states) ∧
      chart.forest.ids.Nodup ∧ chart.forest.AllFrozen ∧
      chart.initial = (Layer.merge chain).initial.or
        (((Layer.merge chain).states.find? fun state =>
          state.traits.isInitial == some true).map StateDecl.id) := by
  have wellFormed := (wellFormed_of_ofLayers compiled).forest
  obtain ⟨declared, hooked, open_, built⟩ := Layer.exists_built compiled
  have nested := built.declared
  have same := (Forest.SameStates.of_addHooks built.hooks).trans (.of_freeze built.seals)
  have hookedWellFormed := (Forest.Extends.addHooks nested.wellFormed built.hooks).wellFormed
  obtain ⟨_, _, _, chartEq⟩ := assemble_eq_ok built.assembles
  refine ⟨wellFormed.forall₂_mirrors ?_ (same.realizes nested.realizes), wellFormed.ids_nodup,
    (hookedWellFormed.freeze built.seals).2, congrArg Chart.initial chartEq⟩
  rw [same.ids_eq, nested.ids_eq]
  rfl

def household : List (Layer Unit Unit) :=
  [{ states := [.mk ⟨"A"⟩ { isInitial := some true }
      [.mk ⟨"B"⟩ {} [.mk ⟨"D"⟩ { isFinal := some true } []], .mk ⟨"C"⟩ {} []]] },
    { states := [.mk ⟨"A"⟩ { history := some .deep } [.mk ⟨"B"⟩ {} []]] }]

theorem ofLayers_mirrors_layers_household :
    ∃ (chart : Chart Unit Unit) (a b c d : Node Unit Unit),
      Chart.ofLayers household {} = .ok chart ∧ chart.forest.nodes = [a, b, d, c] ∧
      a.history = .deep ∧ a.children = [⟨"B"⟩, ⟨"C"⟩] ∧ c.parent = some ⟨"A"⟩ ∧
      d.isFinal = true ∧ d.level = 3 ∧ chart.forest.ancestors ⟨"D"⟩ = [⟨"D"⟩, ⟨"B"⟩, ⟨"A"⟩] ∧
      chart.initial = some ⟨"A"⟩ := by
  have sound : (Layer.merge household).problems {} = [] := by
    cbv
  obtain ⟨chart, built⟩ := Layer.exists_build sound
  have compiled : Chart.ofLayers household {} = .ok chart :=
    bind_eq_ok_iff.mpr ⟨(), Layer.check_of_problems sound, built⟩
  obtain ⟨mirrors, -, -, initial⟩ := ofLayers_mirrors_layers compiled
  have merged : (Layer.merge household).states =
      [.mk ⟨"A"⟩ { isInitial := some true, history := some .deep }
        [.mk ⟨"B"⟩ {} [.mk ⟨"D"⟩ { isFinal := some true } []], .mk ⟨"C"⟩ {} []]] := by
    cbv
  rw [merged] at mirrors initial
  generalize listed : chart.forest.nodes = nodes at mirrors
  simp only [placementsOf, StateDecl.placements, List.append_nil, List.cons_append,
    List.nil_append] at mirrors
  rcases mirrors with _ | ⟨ofA, _ | ⟨ofB, _ | ⟨ofD, _ | ⟨ofC, _ | _⟩⟩⟩⟩
  exact ⟨chart, _, _, _, _, compiled, listed, ofA.history_eq, ofA.children_eq, ofC.parent_eq,
    ofD.isFinal_eq, ofD.level_eq, ofD.ancestors_eq, initial.trans (by cbv)⟩

end Chart

end Statechart
