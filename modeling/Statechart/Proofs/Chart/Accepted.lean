import Statechart.Proofs.Chart.Compiled

namespace Statechart

variable {δ γ : Type}

namespace Forest

variable {forest changed : Forest δ γ}

theorem put_put {node node' : Node δ γ} (same : node'.id = node.id) :
    (forest.put node).put node' = forest.put node' := by
  unfold put
  rw [List.map_map]
  congr 1
  refine List.map_congr_left fun old _ => ?_
  by_cases hit : old.id = node.id <;> simp [hit, same]

theorem put_of_node? {id : StateId} {node : Node δ γ} (apart : forest.ids.Nodup)
    (found : forest.node? id = some node) : forest.put node = forest := by
  have same : ∀ old ∈ forest.nodes, (if old.id = node.id then node else old) = old := by
    intro old member
    split
    · next hit => exact List.inj_on_of_nodup_map apart (mem_of_node? found) member hit.symm
    · rfl
  unfold put
  rw [List.map_congr_left same, List.map_id']

namespace Reachable

theorem put (reachable : forest.Reachable) {id : StateId} {node node' : Node δ γ}
    (found : forest.node? id = some node) (edited : node.Edited node') :
    (forest.put node').Reachable := by
  induction edited generalizing forest with
  | refl =>
      rw [put_of_node? reachable.buildable.sound.ids_nodup found]
      exact reachable
  | @step node middle changed edit done rest ih =>
      have idEq : middle.id = id :=
        (Node.samePlace_of_edit done).2.id_eq.trans (id_of_node? found)
      have edited : (forest.put middle).Reachable := by
        have step := Reachable.edit reachable (.change id edit)
        simpa [Forest.edit, Forest.update, found, done] using step
      have middleFound : (forest.put middle).node? id = some middle := by
        rw [(forest.becomes_put middle).node?_eq, found, Option.map_some, if_pos idEq.symm]
      rw [← put_put rest.samePlace.id_eq]
      exact ih edited middleFound

theorem update (reachable : forest.Reachable) {id : StateId}
    {change : Node δ γ → Except BuildError (Node δ γ)}
    (edits : ∀ node node', change node = .ok node' → node.Edited node')
    (updated : forest.update id change = .ok changed) : changed.Reachable := by
  unfold Forest.update at updated
  split at updated
  · cases updated
    exact reachable
  · next node found =>
    split at updated
    · next node' result =>
      cases updated
      exact reachable.put found (edits node node' result)
    · contradiction

theorem insert (reachable : forest.Reachable) {id : StateId}
    (inserted : forest.insert id = .ok changed) : changed.Reachable := by
  have step := Reachable.edit reachable (.insert id)
  rwa [Forest.edit, inserted] at step

theorem attach (reachable : forest.Reachable) {parent child : StateId}
    (attached : forest.attach parent child = .ok changed) : changed.Reachable := by
  have step := Reachable.edit reachable (.attach parent child)
  rwa [Forest.edit, attached] at step

theorem freeze (reachable : forest.Reachable) (frozen : forest.freeze = .ok changed) :
    changed.Reachable := by
  have step := Reachable.edit reachable .freeze
  rwa [Forest.edit, frozen] at step

theorem declare (reachable : forest.Reachable) {registry : Registry δ γ}
    {parent : Option StateId} {id : StateId} {traits : Traits δ γ}
    (declared : forest.declare registry parent id traits = .ok changed) : changed.Reachable := by
  obtain ⟨entry, exit, inserted, updated, _, _, insertedEq, updatedEq, placed⟩ :=
    declare_eq_ok declared
  have reached := (reachable.insert insertedEq).update (fun _ _ => Node.Edited.applyTo) updatedEq
  cases parent with
  | none =>
      cases placed
      exact reached
  | some parent => exact reached.attach placed

mutual

theorem declareState {registry : Registry δ γ} {parent : Option StateId} :
    ∀ (state : StateDecl δ γ) {forest changed : Forest δ γ}, forest.Reachable →
      Forest.declareState registry parent forest state = .ok changed → changed.Reachable
  | .mk id traits children, forest, changed, reachable, declared => by
      rw [Forest.declareState] at declared
      obtain ⟨middle, own, nested⟩ := bind_eq_ok_iff.mp declared
      exact declareStates children (reachable.declare own) nested

theorem declareStates {registry : Registry δ γ} {parent : Option StateId} :
    ∀ (states : List (StateDecl δ γ)) {forest changed : Forest δ γ}, forest.Reachable →
      Forest.declareStates registry parent forest states = .ok changed → changed.Reachable
  | [], forest, changed, reachable, declared => by
      rw [Forest.declareStates] at declared
      cases declared
      exact reachable
  | state :: rest, forest, changed, reachable, declared => by
      rw [Forest.declareStates] at declared
      obtain ⟨middle, own, later⟩ := bind_eq_ok_iff.mp declared
      exact declareStates rest (declareState state reachable own) later

end

theorem addHooks (reachable : forest.Reachable) {registry : Registry δ γ}
    (done : forest.addHooks registry = .ok changed) : changed.Reachable :=
  foldlM_keeps (fun _ _ _ _ reached hooked =>
    update reached (fun _ _ => Node.Edited.hook) (Change.toExcept_eq_ok_iff.mp hooked))
    reachable done

end Reachable

end Forest

namespace Table.Reachable

variable {table changed : Table δ γ} {registry : Registry δ γ}

theorem declarations (reachable : table.Reachable) {declarations : List (TransitionDecl δ γ)}
    (done : declarations.foldlM (Table.declare registry) table = .ok changed) :
    changed.Reachable := by
  refine foldlM_keeps (motive := Table.Reachable) ?_ reachable done
  intro middle declaration next _ reached declared
  obtain ⟨transition, _, added⟩ := bind_eq_ok_iff.mp declared
  have step := add reached transition
  rwa [Change.toExcept_eq_ok_iff.mp added] at step

theorem sealed (reachable : table.Reachable) (frozen : table.freeze = .ok changed) :
    changed.Reachable := by
  have step := freeze reachable
  rwa [frozen] at step

end Table.Reachable

namespace Chart

variable {chain : List (Layer δ γ)} {registry : Registry δ γ} {chart : Chart δ γ}

theorem accepted_of_ofLayers (compiled : Chart.ofLayers chain registry = .ok chart) :
    chart.Accepted := by
  obtain ⟨declared, hooked, open_, built⟩ := Layer.exists_built compiled
  have toHooked := (Forest.Reachable.declareStates _ .empty built.declares).addHooks built.hooks
  exact ⟨chart.forest, chart.table, _, toHooked.freeze built.seals,
    (Table.Reachable.empty.declarations built.adds).sealed built.seals_table, built.assembles⟩

theorem Accepted.initial_known (accepted : chart.Accepted) {id : StateId}
    (initial : chart.initial = some id) : chart.forest.contains id = true := by
  obtain ⟨forest, table, named, _, _, assembled⟩ := accepted
  obtain ⟨_, _, known, rfl⟩ := assemble_eq_ok assembled
  exact known id initial

end Chart

end Statechart
