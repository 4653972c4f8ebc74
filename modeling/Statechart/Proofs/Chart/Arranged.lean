import Statechart.Proofs.Chart.Tabled
import Statechart.Proofs.Layer.Precedence

namespace Statechart

variable {δ γ : Type}

namespace Node

structure Performs (registry : Registry δ γ) (entryHooks exitHooks : List String) (node : Node δ γ)
    (placement : Placement δ γ) : Prop where
  entry : ActionList.Collects registry placement.entryRefs entryHooks node.entry
  exit : ActionList.Collects registry placement.exitRefs exitHooks node.exit

def hooked (registry : Registry δ γ) (node : Node δ γ) : Node δ γ :=
  { node with
    entry := node.entry.extend (registry.hookSlot? Hook.entryAny).toList
    exit := node.exit.extend (registry.hookSlot? Hook.exitAny).toList }

theorem Performs.hooked {registry : Registry δ γ} {node : Node δ γ} {placement : Placement δ γ}
    (performs : node.Performs registry [] [] placement) :
    (node.hooked registry).Performs registry [Hook.entryAny] [Hook.exitAny] placement := by
  have entry := performs.entry.extend [Hook.entryAny]
  have exit := performs.exit.extend [Hook.exitAny]
  rw [Registry.hooked_singleton] at entry exit
  exact ⟨entry, exit⟩

end Node

namespace Forest

variable {forest middle changed : Forest δ γ} {registry : Registry δ γ}

def declarePlacement (registry : Registry δ γ) (forest : Forest δ γ)
    (placement : Placement δ γ) : Except BuildError (Forest δ γ) :=
  forest.declare registry placement.above.head? placement.id placement.traits

mutual

theorem declareState_eq_foldlM (registry : Registry δ γ) (above : List StateId) :
    ∀ (state : StateDecl δ γ) (forest : Forest δ γ),
      declareState registry above.head? forest state =
        (state.placements above).foldlM (declarePlacement registry) forest
  | .mk id traits children, forest => by
      rw [declareState, StateDecl.placements, List.foldlM_cons]
      exact bind_congr fun middle =>
        declareStates_eq_foldlM registry (id :: above) children middle

theorem declareStates_eq_foldlM (registry : Registry δ γ) (above : List StateId) :
    ∀ (states : List (StateDecl δ γ)) (forest : Forest δ γ),
      declareStates registry above.head? forest states =
        (placementsOf above states).foldlM (declarePlacement registry) forest
  | [], forest => by
      rw [declareStates, placementsOf]
      rfl
  | state :: rest, forest => by
      rw [declareStates, placementsOf, List.foldlM_append,
        declareState_eq_foldlM registry above state]
      exact bind_congr fun middle => declareStates_eq_foldlM registry above rest middle

end

theorem performs_of_declarePlacement {placement : Placement δ γ} (wellFormed : forest.WellFormed)
    (fresh : placement.id ∉ forest.ids)
    (done : forest.declarePlacement registry placement = .ok changed) :
    ∃ node, changed.node? placement.id = some node ∧ node.Performs registry [] [] placement := by
  obtain ⟨entry, exit, inserted, updated, entryEq, exitEq, insertedEq, updatedEq, done⟩ :=
    declare_eq_ok done
  have toInserted := (Extends.insert wellFormed insertedEq).1.wellFormed
  have toUpdated := (Extends.update toInserted
    (fun _ _ applied => (Node.Edited.applyTo applied).samePlace) updatedEq).wellFormed
  have leafFound : inserted.node? placement.id = some { id := placement.id } := by
    have unknown : forest.contains placement.id = false := by
      rw [← Bool.not_eq_true, contains_iff]
      exact fresh
    rcases (insert_eq_ok insertedEq).2 with ⟨known, _⟩ | ⟨_, rfl⟩
    · rw [unknown] at known
      contradiction
    · rw [node?_withLeaf, node?_eq_none_iff.mpr unknown, if_pos rfl, Option.none_or]
  obtain ⟨own, ownFound, performs⟩ : ∃ own, updated.node? placement.id = some own ∧
      own.Performs registry [] [] placement := by
    rcases becomes_update
        (fun _ _ applied => (Node.Edited.applyTo applied).samePlace.id_eq) updatedEq with
      ⟨absent, _⟩ | ⟨leaf, own, found, applied, becomes⟩
    · rw [leafFound] at absent
      contradiction
    · cases leafFound.symm.trans found
      refine ⟨own, by rw [becomes.node?_eq, leafFound, Option.map_some, if_pos rfl], ?_⟩
      rw [Node.applyTo_eq_ok applied]
      exact ⟨.of_slots _ entryEq, .of_slots _ exitEq⟩
  cases parentEq : placement.above.head? with
  | none =>
      rw [parentEq] at done
      cases done
      exact ⟨own, ownFound, performs⟩
  | some parent =>
      rw [parentEq] at done
      obtain ⟨_, _, _, placed⟩ := toUpdated.exists_attached done
      exact ⟨_, placed.image ownFound, performs.entry, performs.exit⟩

def Performs (registry : Registry δ γ) (entryHooks exitHooks : List String) (forest : Forest δ γ)
    (placements : List (Placement δ γ)) : Prop :=
  ∀ placement ∈ placements, ∃ node, forest.node? placement.id = some node ∧
    node.Performs registry entryHooks exitHooks placement

theorem performs_of_foldlM {placements declared : List (Placement δ γ)}
    (wellFormed : forest.WellFormed) (performs : forest.Performs registry [] [] declared)
    (once : (forest.ids ++ placements.map Placement.id).Nodup)
    (done : placements.foldlM (declarePlacement registry) forest = .ok changed) :
    changed.Performs registry [] [] (declared ++ placements) := by
  induction placements generalizing forest declared with
  | nil =>
      cases done
      rwa [List.append_nil]
  | cons placement placements ih =>
      rw [List.foldlM_cons] at done
      obtain ⟨middle, own, rest⟩ := bind_eq_ok_iff.mp done
      rw [List.map_cons] at once
      have fresh : placement.id ∉ forest.ids := fun again =>
        List.disjoint_of_nodup_append once again List.mem_cons_self
      have leaf := Declared.leaf wellFormed fresh own
      have onceMiddle : (middle.ids ++ placements.map Placement.id).Nodup := by
        rw [leaf.ids_eq, List.append_assoc]
        exact once
      have performsMiddle : middle.Performs registry [] [] (declared ++ [placement]) := by
        intro other member
        rcases List.mem_append.mp member with old | new
        · obtain ⟨node, found, performs⟩ := performs other old
          refine ⟨_, leaf.kept found, ?_⟩
          unfold Node.adopt
          split
          · exact ⟨performs.entry, performs.exit⟩
          · exact performs
        · cases List.mem_singleton.mp new
          exact performs_of_declarePlacement wellFormed fresh own
      have all := ih leaf.wellFormed performsMiddle onceMiddle rest
      rwa [List.append_assoc, List.singleton_append] at all

theorem becomes_hooked_of_foldlM {ids : List StateId} (once : ids.Nodup)
    (done : ids.foldlM (fun forest id =>
      (forest.update id fun node => do
        let node ← setIf Node.addEntry (registry.hookSlot? Hook.entryAny) node
        setIf Node.addExit (registry.hookSlot? Hook.exitAny) node).toExcept) forest =
      .ok changed) :
    Becomes (fun id node => if id ∈ ids then node.hooked registry else node) forest changed := by
  induction ids generalizing forest with
  | nil =>
      cases done
      exact (Becomes.refl _).congr fun _ _ _ => by simp
  | cons id ids ih =>
      rw [List.foldlM_cons] at done
      obtain ⟨middle, own, rest⟩ := bind_eq_ok_iff.mp done
      obtain ⟨absent, once⟩ := List.nodup_cons.mp once
      have later := ih once rest
      rcases becomes_update (fun _ _ hooked => (Node.Edited.hook hooked).samePlace.id_eq)
          (Change.toExcept_eq_ok_iff.mp own) with
        ⟨unknown, rfl⟩ | ⟨node, node', found, hooked, becomes⟩
      · refine later.congr fun other old original => ?_
        have differ : other ≠ id := by
          rintro rfl
          rw [unknown] at original
          contradiction
        simp [differ]
      · cases Node.hook_eq_ok hooked
        -- The state is not listed again, so what follows does not add its hooks a second time.
        refine (becomes.trans later).congr fun other old original => ?_
        by_cases same : other = id
        · subst same
          cases found.symm.trans original
          simp [absent, Node.hooked]
        · simp [same]

theorem performs_of_addHooks {placements : List (Placement δ γ)} (once : forest.ids.Nodup)
    (performs : forest.Performs registry [] [] placements)
    (done : forest.addHooks registry = .ok changed) :
    changed.Performs registry [Hook.entryAny] [Hook.exitAny] placements := by
  intro placement member
  obtain ⟨node, found, performs⟩ := performs placement member
  refine ⟨node.hooked registry, ?_, performs.hooked⟩
  have listed : placement.id ∈ forest.ids := contains_iff.mp (contains_of_node? found)
  rw [(becomes_hooked_of_foldlM once done).node?_eq, found, Option.map_some, if_pos listed]

end Forest

namespace Chart

variable {chain upper : List (Layer δ γ)} {registry : Registry δ γ} {chart : Chart δ γ}
  {transitions : List (Transition δ γ)}

/-- A node runs what is declared of its state on entry and exit, and the hooks of every state. -/
structure Runs (registry : Registry δ γ) (node : Node δ γ) (placement : Placement δ γ) : Prop where
  id_eq : node.id = placement.id
  entry : ActionList.InOrder registry placement.entryRefs [Hook.entryAny] node.entry
  exit : ActionList.InOrder registry placement.exitRefs [Hook.exitAny] node.exit

/-- What a layer declares runs with the weight that the layer gives it. -/
structure Heeds (registry : Registry δ γ) (chart : Chart δ γ) (transitions : List (Transition δ γ))
    (layer : Layer δ γ) : Prop where
  states : ∀ placement ∈ placementsOf [] layer.states, ∃ node,
    chart.forest.node? placement.id = some node ∧
      ActionList.Prefers registry placement.entryRefs node.entry ∧
      ActionList.Prefers registry placement.exitRefs node.exit
  transitions : ∃ first rest, transitions = first ++ rest ∧
    List.Forall₂ (fun transition declaration =>
      transition.source = declaration.source ∧ transition.target = declaration.destination ∧
        transition.event = declaration.event ∧
        ActionList.Prefers registry declaration.refs transition.actions) first layer.transitions

theorem runs_of_ofLayers (compiled : Chart.ofLayers chain registry = .ok chart) :
    List.Forall₂ (Runs registry) chart.forest.nodes
      (placementsOf [] (Layer.merge chain).states) := by
  obtain ⟨declared, hooked, open_, built⟩ := Layer.exists_built compiled
  have listed := built.declared
  have once := Layer.nodup_placements built.passed
  have declares := built.declares
  rw [show (none : Option StateId) = ([] : List StateId).head? from rfl,
    Forest.declareStates_eq_foldlM] at declares
  have performs := Forest.performs_of_foldlM Forest.wellFormed_empty
    (fun _ member => absurd member List.not_mem_nil) once declares
  have performsHooked :=
    Forest.performs_of_addHooks listed.wellFormed.ids_nodup performs built.hooks
  have same := (Forest.SameStates.of_addHooks built.hooks).trans (.of_freeze built.seals)
  obtain ⟨_, _, forestEq⟩ := Forest.freeze_eq_ok built.seals
  have becomes := Forest.becomes_map Node.sealed (fun _ => rfl) hooked
  have idsEq : chart.forest.ids =
      (placementsOf [] (Layer.merge chain).states).map Placement.id := by
    rw [same.ids_eq, listed.ids_eq]
    rfl
  refine Forest.forall₂_of_ids_eq (idsEq ▸ once) idsEq fun placement member => ?_
  obtain ⟨node, found, own⟩ := performsHooked placement member
  have idEq : node.id = placement.id := Forest.id_of_node? found
  refine ⟨node.sealed, ?_, idEq, own.entry.sort.inOrder, own.exit.sort.inOrder⟩
  rw [forestEq]
  exact (becomes.node?_eq placement.id).trans (by rw [found, Option.map_some])

theorem exists_runs {placements : List (Placement δ γ)} {placement : Placement δ γ}
    (runs : List.Forall₂ (Runs registry) chart.forest.nodes placements)
    (once : chart.forest.ids.Nodup) (member : placement ∈ placements) :
    ∃ node, chart.forest.node? placement.id = some node ∧ Runs registry node placement := by
  obtain ⟨node, inForest, own⟩ := exists_related_left runs member
  exact ⟨node, own.id_eq ▸ Forest.node?_of_mem once inForest, own⟩

theorem prefers_of_growInto {declared merged : List (TransitionDecl δ γ)}
    (grows : GrowInto declared merged)
    (carries : List.Forall₂ (Carries registry) transitions merged) :
    ∃ first rest, transitions = first ++ rest ∧
      List.Forall₂ (fun transition declaration =>
        transition.source = declaration.source ∧ transition.target = declaration.destination ∧
          transition.event = declaration.event ∧
          ActionList.Prefers registry declaration.refs transition.actions) first declared := by
  induction grows generalizing transitions with
  | nil added => exact ⟨[], transitions, rfl, .nil⟩
  | cons own _ ih =>
      cases carries with
      | cons carried further =>
          obtain ⟨first, rest, rfl, prefers⟩ := ih further
          obtain ⟨sourceEq, targetEq, eventEq, _⟩ := TransitionDecl.same_iff.mp own.same
          obtain ⟨more, refsEq⟩ := own.refs
          refine ⟨_ :: first, rest, rfl, .cons ⟨?_, ?_, ?_, ?_⟩ prefers⟩
          · rw [carried.source_eq, sourceEq]
          · rw [carried.target_eq, targetEq]
          · rw [carried.event_eq, eventEq]
          · have arranges := carried.inOrder.arranges
            rw [← refsEq] at arranges
            exact arranges.prefers

theorem heeds_of_precedes {layer merged : Layer δ γ} (precedes : layer.Precedes merged)
    (once : chart.forest.ids.Nodup)
    (runs : List.Forall₂ (Runs registry) chart.forest.nodes (placementsOf [] merged.states))
    (carries : List.Forall₂ (Carries registry) transitions merged.transitions) :
    chart.Heeds registry transitions layer := by
  refine ⟨fun placement member => ?_, prefers_of_growInto precedes.transitions carries⟩
  obtain ⟨grown, grownMember, grows⟩ := precedes.states placement member
  obtain ⟨node, found, own⟩ := exists_runs runs once grownMember
  rw [grows.id_eq] at found
  obtain ⟨more, entryEq⟩ := grows.entry
  obtain ⟨more', exitEq⟩ := grows.exit
  have entry := own.entry.arranges
  have exit := own.exit.arranges
  rw [← entryEq] at entry
  rw [← exitEq] at exit
  exact ⟨node, found, entry.prefers, exit.prefers⟩

/--
The lists of actions of a compiled chart.  The references of the merged layer are bound in their
order, the registered hooks of the point follow with the weight of hooks, of the slots with one
handler the first one stays, and the rest is sorted by descending weight with ties in this order.
So no handler runs twice at one point, hooks that are not declared there themselves run behind all
declared actions whose weight is not below theirs, and the more derived layers of the chain decide
on the weights of the actions they declare.
-/
theorem ofLayers_arranges_actions (compiled : Chart.ofLayers chain registry = .ok chart) :
    List.Forall₂ (Runs registry) chart.forest.nodes
        (placementsOf [] (Layer.merge chain).states) ∧
      ∃ transitions, chart.table.transitions.Perm transitions ∧
        List.Forall₂ (Carries registry) transitions (Layer.merge chain).transitions ∧
        ∀ upper lower, chain = upper ++ lower →
          chart.Heeds registry transitions (Layer.merge upper) := by
  have runs := runs_of_ofLayers compiled
  obtain ⟨transitions, carries, offers⟩ := exists_transitions_of_ofLayers compiled
  refine ⟨runs, transitions, offers.perm, carries, ?_⟩
  rintro upper lower rfl
  exact heeds_of_precedes (Layer.precedes_merge upper lower)
    (wellFormed_of_ofLayers compiled).forest.ids_nodup runs carries

def idle (tag : Nat) : Action Unit Unit :=
  ⟨tag, fun _ data => ⟨data, [], none⟩⟩

def handlers : Registry Unit Unit where
  actions :=
    [("shared", idle 0), ("alias", idle 0), ("early", idle 1), ("late", idle 2),
      ("entryAny", idle 3), ("transitFromAnyToAny", idle 4), ("transitFromAToAOngo", idle 5)]

/-- Both layers declare the shared action and the missing one, with different weights. -/
def contested : List (Layer Unit Unit) :=
  [{ states := [.mk ⟨"A"⟩ { entry := some [.written "shared:20", .written "missing"] } []]
     transitions := [{ source := ⟨"A"⟩, event := ⟨"go"⟩, actions := some [.written "late"] }] },
    { states := [.mk ⟨"A"⟩
        { entry := some [.written "alias:5", .written "early:30", .written " late : -20",
            .written "missing:50"] } []] }]

theorem ofLayers_arranges_actions_contested :
    ∃ (chart : Chart Unit Unit) (node : Node Unit Unit) (transition : Transition Unit Unit),
      Chart.ofLayers contested handlers = .ok chart ∧ chart.forest.nodes = [node] ∧
      chart.table.transitions = [transition] ∧
      (node.entry.slots.map fun slot => (slot.handler.key, slot.weight)) =
        [(.tag 1, 30), (.tag 0, 20), (.name "missing", 10), (.tag 3, -10), (.tag 2, -20)] ∧
      (transition.actions.slots.map fun slot => (slot.handler.key, slot.weight)) =
        [(.tag 2, 10), (.tag 5, -10), (.tag 4, -10)] := by
  have sound : (Layer.merge contested).problems handlers = [] := rfl
  obtain ⟨chart, built⟩ := Layer.exists_build sound
  have compiled : Chart.ofLayers contested handlers = .ok chart :=
    bind_eq_ok_iff.mpr ⟨(), Layer.check_of_problems sound, built⟩
  obtain ⟨runs, transitions, perm, carries, -⟩ := ofLayers_arranges_actions compiled
  have mergedStates : placementsOf [] (Layer.merge contested).states =
      [⟨[], ⟨"A"⟩, { entry := some [.written "shared:20", .written "missing", .written "alias:5",
          .written "early:30", .written " late : -20", .written "missing:50"] }, []⟩] := by
    cbv
  have mergedTransitions : (Layer.merge contested).transitions =
      [{ source := ⟨"A"⟩, event := ⟨"go"⟩, actions := some [.written "late"] }] := by
    cbv
  rw [mergedStates] at runs
  rw [mergedTransitions] at carries
  generalize listed : chart.forest.nodes = nodes at runs
  rcases runs with _ | ⟨ofA, _ | _⟩
  rcases carries with _ | ⟨ofGo, _ | _⟩
  have entryBound : List.mapM (ActionRef.slot handlers) [.written "shared:20", .written "missing",
      .written "alias:5", .written "early:30", .written " late : -20", .written "missing:50"] =
      .ok [⟨.action (idle 0), 20⟩, ⟨.standIn "missing" none, 10⟩, ⟨.action (idle 0), 5⟩,
        ⟨.action (idle 1), 30⟩, ⟨.action (idle 2), -20⟩, ⟨.standIn "missing" none, 50⟩] := rfl
  have actionsBound : List.mapM (ActionRef.slot handlers) [.written "late"] =
      .ok [⟨.action (idle 2), 10⟩] := by
    cbv
  have hooks : handlers.hooked (Hook.forTransition ⟨"A"⟩ ⟨"A"⟩ ⟨"go"⟩) =
      [⟨.action (idle 5), -10⟩, ⟨.action (idle 4), -10⟩] := rfl
  have actionsEq := ofGo.inOrder.arranges.eq_sort actionsBound
  refine ⟨chart, _, _, compiled, listed, List.perm_singleton.mp perm, ?_, ?_⟩
  · rw [ofA.entry.arranges.eq_sort entryBound]
    cbv
  · change _ = ActionList.sort ⟨firstOfEach ([⟨.action (idle 2), 10⟩] ++
      handlers.hooked (Hook.forTransition ⟨"A"⟩ ⟨"A"⟩ ⟨"go"⟩))⟩ at actionsEq
    rw [actionsEq, hooks]
    cbv

end Chart

end Statechart
