import Statechart.Proofs.Chart.Compiled

namespace Statechart

variable {δ γ : Type}

theorem exists_mapM {ε α β : Type} {step : α → Except ε β} {items : List α}
    (succeeds : ∀ item ∈ items, ∃ value, step item = .ok value) :
    ∃ values, items.mapM step = .ok values := by
  induction items with
  | nil => exact ⟨[], rfl⟩
  | cons item items ih =>
      obtain ⟨value, first⟩ := succeeds item List.mem_cons_self
      obtain ⟨values, rest⟩ := ih fun other member => succeeds other (List.mem_cons_of_mem _ member)
      exact ⟨value :: values, by simp [List.mapM_cons, first, rest, bind, Except.bind]; rfl⟩

theorem exists_foldlM {ε σ α : Type} {step : σ → α → Except ε σ} {motive : σ → Prop}
    {items : List α}
    (succeeds : ∀ state item, item ∈ items → motive state →
      ∃ next, step state item = .ok next ∧ motive next)
    {state : σ} (start : motive state) :
    ∃ final, items.foldlM step state = .ok final ∧ motive final := by
  induction items generalizing state with
  | nil => exact ⟨state, rfl, start⟩
  | cons item items ih =>
      obtain ⟨next, first, holds⟩ := succeeds state item List.mem_cons_self start
      obtain ⟨final, rest, done⟩ :=
        ih (fun state other member => succeeds state other (List.mem_cons_of_mem _ member)) holds
      exact ⟨final, by rw [List.foldlM_cons, first]; exact rest, done⟩

namespace ActionRef

theorem exists_slot {owner : Owner} {ref : ActionRef δ γ} (registry : Registry δ γ)
    (none : problem? owner ref = none) : ∃ slot, ref.slot registry = .ok slot := by
  cases ref with
  | written text =>
      simp only [problem?, slot] at none ⊢
      cases parsed : (parse text) with
      | ok part => exact ⟨_, rfl⟩
      | error fault => simp [parsed] at none
  | named name weight => exact ⟨_, rfl⟩
  | direct action weight => exact ⟨_, rfl⟩

theorem exists_slots {owner : Owner} {refs : Option (List (ActionRef δ γ))}
    (registry : Registry δ γ) (none : problems owner refs = []) :
    ∃ slots, ActionRef.slots registry refs = .ok slots := by
  apply exists_mapM
  intro ref member
  exact exists_slot registry (List.filterMap_eq_nil_iff.mp none ref member)

end ActionRef

namespace Node

def Taken (change : Node δ γ → Except BuildError (Node δ γ)) : Prop :=
  ∀ node : Node δ γ, node.frozen = false →
    ∃ changed, change node = .ok changed ∧ changed.frozen = false

namespace Taken

variable {α : Type} {first second : Node δ γ → Except BuildError (Node δ γ)}

theorem bind (taken : Taken first) (taken' : Taken second) :
    Taken fun node => first node >>= second := by
  intro node unfrozen
  obtain ⟨middle, firstEq, middleUnfrozen⟩ := taken node unfrozen
  obtain ⟨last, secondEq, lastUnfrozen⟩ := taken' middle middleUnfrozen
  exact ⟨last, bind_eq_ok_iff.mpr ⟨middle, firstEq, secondEq⟩, lastUnfrozen⟩

theorem edit {edit : NodeEdit δ γ} (opens : edit ≠ .freeze) :
    Taken fun node => node.edit edit := by
  intro node unfrozen
  cases edit with
  | freeze => contradiction
  | _ => exact ⟨_, Node.change_eq_ok_iff.mpr ⟨unfrozen, rfl⟩, unfrozen⟩

theorem setIf (edit : α → NodeEdit δ γ) (opens : ∀ value, edit value ≠ .freeze)
    (value : Option α) :
    Taken (Statechart.setIf (fun node value => node.edit (edit value)) value) := by
  cases value with
  | none => exact fun node unfrozen => ⟨node, rfl, unfrozen⟩
  | some value => exact Taken.edit (opens value)

theorem foldlM (edit : α → NodeEdit δ γ) (opens : ∀ value, edit value ≠ .freeze)
    (values : List α) :
    Taken fun node => values.foldlM (fun node value => node.edit (edit value)) node :=
  fun _ unfrozen => exists_foldlM (fun middle value _ => Taken.edit (opens value) middle) unfrozen

theorem applyTo (traits : Traits δ γ) (entry exit : List (Slot δ γ)) :
    Taken (traits.applyTo entry exit) :=
  (setIf .setFinal nofun traits.isFinal).bind <|
    (setIf .setInitial nofun traits.isInitial).bind <|
    (setIf .setHistory nofun traits.history).bind <|
    (setIf .setComposition nofun traits.composition).bind <|
    (foldlM .addEntry nofun entry).bind <|
    foldlM .addExit nofun exit

theorem hook (registry : Registry δ γ) : Taken fun node : Node δ γ => (do
    let node ← Statechart.setIf Node.addEntry (registry.hookSlot? Hook.entryAny) node
    Statechart.setIf Node.addExit (registry.hookSlot? Hook.exitAny) node) :=
  (setIf .addEntry nofun (registry.hookSlot? Hook.entryAny)).bind
    (setIf .addExit nofun (registry.hookSlot? Hook.exitAny))

end Taken

end Node

namespace Forest

def NodesOpen (forest : Forest δ γ) : Prop :=
  ∀ id node, forest.node? id = some node → node.frozen = false

def GoesThrough (change : Change (Forest δ γ)) : Prop :=
  ∃ changed, change = .ok changed ∧ changed.NodesOpen

variable {forest changed : Forest δ γ}

theorem GoesThrough.andThen {change : Change (Forest δ γ)} {next : Forest δ γ → Change (Forest δ γ)}
    (first : GoesThrough change)
    (second : ∀ middle, change = .ok middle → middle.NodesOpen → GoesThrough (next middle)) :
    GoesThrough (change.andThen next) := by
  obtain ⟨middle, rfl, nodesOpen⟩ := first
  exact second middle rfl nodesOpen

theorem GoesThrough.each {α : Type} {step : Forest δ γ → α → Change (Forest δ γ)}
    (goes : ∀ forest item, forest.NodesOpen → GoesThrough (step forest item)) (items : List α)
    (nodesOpen : forest.NodesOpen) : GoesThrough (Change.each step items forest) := by
  induction items generalizing forest with
  | nil => exact ⟨forest, rfl, nodesOpen⟩
  | cons item items ih =>
      apply (goes forest item nodesOpen).andThen
      intro middle _ middleOpen
      exact ih middleOpen

theorem NodesOpen.update (nodesOpen : forest.NodesOpen) {id : StateId}
    {change : Node δ γ → Except BuildError (Node δ γ)}
    (succeeds : ∀ node, forest.node? id = some node →
      ∃ node', change node = .ok node' ∧ node'.frozen = false ∧ node'.id = node.id) :
    GoesThrough (forest.update id change) := by
  unfold Forest.update
  cases found : forest.node? id with
  | none => exact ⟨forest, rfl, nodesOpen⟩
  | some node =>
      obtain ⟨node', changeEq, unfrozen, idEq⟩ := succeeds node found
      refine ⟨forest.put node', by simp [changeEq], fun other old oldFound => ?_⟩
      rw [(forest.becomes_put node').node?_eq] at oldFound
      obtain ⟨before, beforeFound, rfl⟩ := Option.map_eq_some_iff.mp oldFound
      split
      · exact unfrozen
      · exact nodesOpen _ _ beforeFound

theorem NodesOpen.relevel (nodesOpen : forest.NodesOpen) (steps : Nat) (id : StateId)
    (level : Nat) : GoesThrough (Forest.relevel steps forest id level) := by
  induction steps generalizing forest id level with
  | zero => exact ⟨forest, rfl, nodesOpen⟩
  | succ steps ih =>
      rw [Forest.relevel]
      split
      · exact ⟨forest, rfl, nodesOpen⟩
      · next node _ =>
        have levelled : GoesThrough (forest.update id fun node => node.setLevel level) := by
          apply nodesOpen.update
          intro node found
          have unfrozen := nodesOpen id node found
          exact ⟨_, Node.change_eq_ok_iff.mpr ⟨unfrozen, rfl⟩, unfrozen, rfl⟩
        apply levelled.andThen
        intro middle _ middleOpen
        exact GoesThrough.each (fun forest child open_ => ih open_ child (level + 1)) _ middleOpen

structure Growing (forest : Forest δ γ) : Prop where
  wellFormed : forest.WellFormed
  unfrozen : forest.frozen = false
  nodesOpen : forest.NodesOpen

namespace Growing

theorem empty : ({} : Forest δ γ).Growing :=
  ⟨wellFormed_empty, rfl, fun _ _ found => by contradiction⟩

theorem insert (growing : forest.Growing) {id : StateId} (fresh : forest.contains id = false) :
    forest.insert id = .ok (forest.withLeaf id) ∧ (forest.withLeaf id).Growing := by
  refine ⟨?_, growing.wellFormed.withLeaf fresh, growing.unfrozen, fun other node found => ?_⟩
  · simp [Forest.insert, growing.unfrozen, fresh, withLeaf]
  · rw [node?_withLeaf] at found
    rcases Option.or_eq_some_iff.mp found with old | ⟨_, new⟩
    · exact growing.nodesOpen other node old
    · split at new
      · cases new
        rfl
      · contradiction

structure Refits (forest changed : Forest δ γ) : Prop where
  growing : changed.Growing
  ids_eq : changed.ids = forest.ids
  samePlace : ∀ {id node}, forest.node? id = some node →
    ∃ node', changed.node? id = some node' ∧ node.SamePlace node'

theorem update (growing : forest.Growing) (id : StateId)
    {change : Node δ γ → Except BuildError (Node δ γ)} (taken : Node.Taken change)
    (keeps : ∀ node node', change node = .ok node' → node.SamePlace node') :
    ∃ changed, forest.update id change = .ok changed ∧ Refits forest changed := by
  have goes : GoesThrough (forest.update id change) := by
    apply growing.nodesOpen.update
    intro node found
    obtain ⟨node', changeEq, unfrozen⟩ := taken node (growing.nodesOpen id node found)
    exact ⟨node', changeEq, unfrozen, (keeps node node' changeEq).id_eq⟩
  obtain ⟨changed, updated, nodesOpen⟩ := goes
  have wellFormed := growing.wellFormed.update keeps updated
  rcases becomes_update (fun node node' result => (keeps node node' result).id_eq) updated with
    ⟨_, rfl⟩ | ⟨node, node', found, result, becomes⟩
  · exact ⟨changed, updated, growing, rfl, fun {_ node} found => ⟨node, found, .refl node⟩⟩
  · refine ⟨changed, updated, ⟨wellFormed, becomes.frozen_eq.trans growing.unfrozen, nodesOpen⟩,
      becomes.ids_eq, fun {other old} oldFound => ?_⟩
    refine ⟨_, by rw [becomes.node?_eq, oldFound, Option.map_some], ?_⟩
    split
    · next same =>
      subst same
      cases found.symm.trans oldFound
      exact keeps node node' result
    · exact .refl old

theorem attach (growing : forest.Growing) {parent child : StateId} {leaf : Node δ γ}
    (known : forest.contains parent = true) (found : forest.node? child = some leaf)
    (root : leaf.parent = none) (childless : leaf.children = []) (apart : parent ≠ child) :
    ∃ changed, forest.attach parent child = .ok changed ∧ changed.Growing ∧
      changed.ids = forest.ids := by
  -- Nothing lies below a state that has just been declared, so its parent does not either.
  have outside : forest.isAncestorOrSelf child parent = false := by
    rw [← Bool.not_eq_true, isAncestorOrSelf_iff,
      growing.wellFormed.mem_ancestors_iff_child found known, childless]
    simpa using apart
  obtain ⟨above, aboveFound⟩ := Option.isSome_iff_exists.mp known
  have goes : GoesThrough (forest.attach parent child) := by
    simp only [Forest.attach, growing.unfrozen, outside, aboveFound, contains_of_node? found,
      Bool.false_eq_true, if_false, if_true]
    have moved : GoesThrough (forest.update child fun node => node.setParent parent) := by
      apply growing.nodesOpen.update
      intro node nodeFound
      cases found.symm.trans nodeFound
      have unfrozen := growing.nodesOpen child leaf found
      have idEq := id_of_node? found
      refine ⟨{ leaf with parent := some parent }, ?_, unfrozen, rfl⟩
      simp [Node.setParent, Node.change, unfrozen, root, idEq, apart, bind, Except.bind, pure,
        Except.pure]
    apply moved.andThen
    intro middle _ middleOpen
    have extended : GoesThrough (middle.update parent fun node => node.addChild child) := by
      apply middleOpen.update
      intro node nodeFound
      have unfrozen := middleOpen parent node nodeFound
      refine ⟨_, Node.change_eq_ok_iff.mpr ⟨unfrozen, rfl⟩, ?_, ?_⟩ <;> split <;>
        first | exact unfrozen | rfl
    apply extended.andThen
    intro last _ lastOpen
    exact lastOpen.relevel _ _ _
  obtain ⟨changed, attached, nodesOpen⟩ := goes
  obtain ⟨_, _, _, placed⟩ := growing.wellFormed.exists_attached attached
  exact ⟨changed, attached, ⟨growing.wellFormed.attach attached,
    placed.becomes.frozen_eq.trans growing.unfrozen, nodesOpen⟩, placed.becomes.ids_eq⟩

end Growing

/-- States that are not there yet, each once, of which the references can be resolved. -/
structure Declarable (registry : Registry δ γ) (present : List StateId)
    (entries : List (StateId × Traits δ γ)) : Prop where
  nodup : (entries.map Prod.fst).Nodup
  fresh : ∀ entry ∈ entries, entry.1 ∉ present
  entry_ok : ∀ entry ∈ entries, ∃ slots, ActionRef.slots registry entry.2.entry = .ok slots
  exit_ok : ∀ entry ∈ entries, ∃ slots, ActionRef.slots registry entry.2.exit = .ok slots

namespace Declarable

variable {registry : Registry δ γ} {present : List StateId}
  {entries later : List (StateId × Traits δ γ)}

theorem left (declarable : Declarable registry present (entries ++ later)) :
    Declarable registry present entries where
  nodup := by
    have nodup := declarable.nodup
    rw [List.map_append] at nodup
    exact nodup.of_append_left
  fresh entry member := declarable.fresh entry (List.mem_append_left later member)
  entry_ok entry member := declarable.entry_ok entry (List.mem_append_left later member)
  exit_ok entry member := declarable.exit_ok entry (List.mem_append_left later member)

/-- Once the first states have been declared, the others still can be. -/
theorem right (declarable : Declarable registry present (entries ++ later)) :
    Declarable registry (present ++ entries.map Prod.fst) later where
  nodup := by
    have nodup := declarable.nodup
    rw [List.map_append] at nodup
    exact nodup.of_append_right
  fresh entry member := by
    have nodup := declarable.nodup
    rw [List.map_append] at nodup
    rw [List.mem_append, not_or]
    refine ⟨declarable.fresh entry (List.mem_append_right entries member), fun again => ?_⟩
    exact List.disjoint_of_nodup_append nodup again (List.mem_map_of_mem member)
  entry_ok entry member := declarable.entry_ok entry (List.mem_append_right entries member)
  exit_ok entry member := declarable.exit_ok entry (List.mem_append_right entries member)

theorem cons {id : StateId} {traits : Traits δ γ} {slots slots' : List (Slot δ γ)}
    (fresh : id ∉ present) (entryEq : ActionRef.slots registry traits.entry = .ok slots)
    (exitEq : ActionRef.slots registry traits.exit = .ok slots')
    (rest : Declarable registry (id :: present) entries) :
    Declarable registry present ((id, traits) :: entries) where
  nodup := by
    rw [List.map_cons, List.nodup_cons]
    refine ⟨fun again => ?_, rest.nodup⟩
    obtain ⟨entry, member, same⟩ := List.mem_map.mp again
    exact rest.fresh entry member (by rw [same]; exact List.mem_cons_self)
  fresh := by
    intro entry member
    rcases List.mem_cons.mp member with rfl | member
    · exact fresh
    · exact fun again => rest.fresh entry member (List.mem_cons_of_mem id again)
  entry_ok := by
    intro entry member
    rcases List.mem_cons.mp member with rfl | member
    · exact ⟨slots, entryEq⟩
    · exact rest.entry_ok entry member
  exit_ok := by
    intro entry member
    rcases List.mem_cons.mp member with rfl | member
    · exact ⟨slots', exitEq⟩
    · exact rest.exit_ok entry member

theorem of_stateProblems (registry : Registry δ γ) (none : stateProblems present entries = []) :
    Declarable registry present entries := by
  induction entries generalizing present with
  | nil => exact ⟨List.nodup_nil, nofun, nofun, nofun⟩
  | cons entry entries ih =>
      obtain ⟨id, traits⟩ := entry
      rw [stateProblems] at none
      simp only [List.append_eq_nil_iff, ite_eq_right_iff, reduceCtorEq, imp_false] at none
      obtain ⟨⟨⟨fresh, entryNone⟩, exitNone⟩, later⟩ := none
      obtain ⟨slots, entryEq⟩ := ActionRef.exists_slots registry entryNone
      obtain ⟨slots', exitEq⟩ := ActionRef.exists_slots registry exitNone
      exact cons fresh entryEq exitEq (ih later)

end Declarable

theorem Growing.declare (growing : forest.Growing) {registry : Registry δ γ}
    {parent : Option StateId} {id : StateId} {traits : Traits δ γ}
    (known : ∀ above ∈ parent, forest.contains above = true)
    {later : List (StateId × Traits δ γ)}
    (declarable : Declarable registry forest.ids ((id, traits) :: later)) :
    ∃ changed, forest.declare registry parent id traits = .ok changed ∧ changed.Growing ∧
      changed.ids = forest.ids ++ [id] := by
  obtain ⟨entry, entryEq⟩ := declarable.entry_ok _ List.mem_cons_self
  obtain ⟨exit, exitEq⟩ := declarable.exit_ok _ List.mem_cons_self
  have fresh : forest.contains id = false := by
    rw [← Bool.not_eq_true, contains_iff]
    exact declarable.fresh _ List.mem_cons_self
  obtain ⟨inserted, insertedGrowing⟩ := growing.insert fresh
  obtain ⟨updated, updatedEq, refits⟩ := insertedGrowing.update id
    (Node.Taken.applyTo traits entry exit) fun _ _ done =>
      (Node.Edited.applyTo done).samePlace
  have updatedIds : updated.ids = forest.ids ++ [id] := by
    rw [refits.ids_eq]
    simp [ids, withLeaf]
  have insertedEq := Change.toExcept_eq_ok_iff.mpr inserted
  have updatedEq := Change.toExcept_eq_ok_iff.mpr updatedEq
  cases parent with
  | none =>
      refine ⟨updated, ?_, refits.growing, updatedIds⟩
      simp [Forest.declare, entryEq, exitEq, insertedEq, updatedEq, bind, Except.bind, pure,
        Except.pure]
  | some parent =>
      have parentKnown := known parent rfl
      have apart : parent ≠ id := by
        rintro rfl
        rw [parentKnown] at fresh
        contradiction
      have leafFound : (forest.withLeaf id).node? id = some { id } := by
        rw [node?_withLeaf, node?_eq_none_iff.mpr fresh, if_pos rfl, Option.none_or]
      obtain ⟨leaf, found, same⟩ := refits.samePlace leafFound
      have parentListed : updated.contains parent = true := by
        rw [contains_iff, updatedIds]
        exact List.mem_append_left [id] (contains_iff.mp parentKnown)
      obtain ⟨changed, attached, changedGrowing, idsEq⟩ :=
        refits.growing.attach parentListed found same.parent_eq same.children_eq apart
      refine ⟨changed, ?_, changedGrowing, idsEq.trans updatedIds⟩
      have attachedEq := Change.toExcept_eq_ok_iff.mpr attached
      simp [Forest.declare, entryEq, exitEq, insertedEq, updatedEq, attachedEq, bind, Except.bind]

mutual

theorem Growing.declareState {registry : Registry δ γ} {parent : Option StateId} :
    ∀ (state : StateDecl δ γ) {forest : Forest δ γ}, forest.Growing →
      (∀ above ∈ parent, forest.contains above = true) →
      Declarable registry forest.ids state.preorder →
      ∃ changed, Forest.declareState registry parent forest state = .ok changed ∧
        changed.Growing ∧ changed.ids = forest.ids ++ state.preorder.map Prod.fst
  | .mk id traits children, forest, growing, known, declarable => by
      rw [StateDecl.preorder] at declarable
      obtain ⟨middle, own, middleGrowing, middleIds⟩ := growing.declare known declarable
      rw [← List.singleton_append] at declarable
      have inside : ∀ above ∈ some id, middle.contains above = true := by
        intro above same
        cases same
        rw [contains_iff, middleIds]
        exact List.mem_append_right forest.ids List.mem_cons_self
      obtain ⟨changed, nested, changedGrowing, changedIds⟩ :=
        declareStates children middleGrowing inside (middleIds ▸ declarable.right)
      refine ⟨changed, ?_, changedGrowing, ?_⟩
      · rw [Forest.declareState]
        exact bind_eq_ok_iff.mpr ⟨middle, own, nested⟩
      · simp [changedIds, middleIds, StateDecl.preorder]

theorem Growing.declareStates {registry : Registry δ γ} {parent : Option StateId} :
    ∀ (states : List (StateDecl δ γ)) {forest : Forest δ γ}, forest.Growing →
      (∀ above ∈ parent, forest.contains above = true) →
      Declarable registry forest.ids (preorderOf states) →
      ∃ changed, Forest.declareStates registry parent forest states = .ok changed ∧
        changed.Growing ∧ changed.ids = forest.ids ++ (preorderOf states).map Prod.fst
  | [], forest, growing, _, _ => by
      refine ⟨forest, ?_, growing, ?_⟩
      · rw [Forest.declareStates]
      · simp [preorderOf]
  | state :: rest, forest, growing, known, declarable => by
      rw [preorderOf] at declarable
      obtain ⟨middle, own, middleGrowing, middleIds⟩ :=
        declareState state growing known declarable.left
      have stillKnown : ∀ above ∈ parent, middle.contains above = true := by
        intro above isParent
        rw [contains_iff, middleIds]
        exact List.mem_append_left _ (contains_iff.mp (known above isParent))
      obtain ⟨changed, later, changedGrowing, changedIds⟩ :=
        declareStates rest middleGrowing stillKnown (middleIds ▸ declarable.right)
      refine ⟨changed, ?_, changedGrowing, ?_⟩
      · rw [Forest.declareStates]
        exact bind_eq_ok_iff.mpr ⟨middle, own, later⟩
      · simp [changedIds, middleIds, preorderOf]

end

theorem Growing.addHooks (growing : forest.Growing) (registry : Registry δ γ) :
    ∃ changed, forest.addHooks registry = .ok changed ∧ changed.Growing ∧
      changed.ids = forest.ids := by
  refine exists_foldlM (motive := fun changed : Forest δ γ =>
    changed.Growing ∧ changed.ids = forest.ids) ?_ ⟨growing, rfl⟩
  intro middle id _ ⟨middleGrowing, middleIds⟩
  obtain ⟨changed, hooked, refits⟩ :=
    middleGrowing.update id (Node.Taken.hook registry) fun _ _ done =>
      (Node.Edited.hook done).samePlace
  exact ⟨changed, Change.toExcept_eq_ok_iff.mpr hooked, refits.growing,
    refits.ids_eq.trans middleIds⟩

theorem freezeNodes_of_open {nodes : List (Node δ γ)}
    (open_ : ∀ node ∈ nodes, node.frozen = false) :
    freezeNodes nodes = (nodes.map Node.sealed, none) := by
  induction nodes with
  | nil => rfl
  | cons node nodes ih =>
      have own := open_ node List.mem_cons_self
      have rest := ih fun other member => open_ other (List.mem_cons_of_mem node member)
      simp [freezeNodes, Node.freeze, Node.change, own, rest, Node.sealed]

theorem Growing.freeze (growing : forest.Growing) :
    ∃ changed, forest.freeze = .ok changed ∧ changed.frozen = true ∧
      changed.ids = forest.ids := by
  have open_ : ∀ node ∈ forest.nodes, node.frozen = false := by
    intro node member
    exact growing.nodesOpen _ node (node?_of_mem growing.wellFormed.ids_nodup member)
  refine ⟨{ nodes := forest.nodes.map Node.sealed, frozen := true }, ?_, rfl, ?_⟩
  · simp [Forest.freeze, growing.unfrozen, freezeNodes_of_open open_]
  · simp [ids, Function.comp_def, Node.sealed]

end Forest

end Statechart
