import Statechart.Chart.Assembly
import Statechart.Proofs.Chart.WellFormed

namespace Statechart

variable {δ γ : Type}

theorem foldlM_keeps {ε σ α : Type} {step : σ → α → Except ε σ} {motive : σ → Prop}
    {items : List α}
    (keeps : ∀ state item next, item ∈ items → motive state → step state item = .ok next →
      motive next)
    {state final : σ} (start : motive state) (done : items.foldlM step state = .ok final) :
    motive final := by
  induction items generalizing state with
  | nil =>
      cases done
      exact start
  | cons item items ih =>
      rw [List.foldlM_cons] at done
      obtain ⟨next, first, rest⟩ := bind_eq_ok_iff.mp done
      exact ih (fun state item next member => keeps state item next (List.mem_cons_of_mem _ member))
        (keeps state item next List.mem_cons_self start first) rest

theorem Change.toExcept_eq_ok_iff {σ : Type} {change : Change σ} {changed : σ} :
    change.toExcept = .ok changed ↔ change = .ok changed := by
  cases change <;> simp [Change.toExcept]

inductive Node.Edited : Node δ γ → Node δ γ → Prop where
  | refl {node : Node δ γ} : Edited node node
  | step {node middle changed : Node δ γ} (edit : NodeEdit δ γ)
      (done : node.edit edit = .ok middle) (rest : Edited middle changed) : Edited node changed

namespace Node.Edited

variable {node middle changed : Node δ γ}

theorem trans (first : node.Edited middle) (second : middle.Edited changed) :
    node.Edited changed := by
  induction first with
  | refl => exact second
  | step edit done _ ih => exact .step edit done (ih second)

theorem edit (edit : NodeEdit δ γ) (done : node.edit edit = .ok changed) : node.Edited changed :=
  .step edit done .refl

theorem setIf {α : Type} {set : Node δ γ → α → Except BuildError (Node δ γ)} {value : Option α}
    (edits : ∀ node value node', set node value = .ok node' → node.Edited node')
    (done : Statechart.setIf set value node = .ok changed) : node.Edited changed := by
  cases value with
  | none =>
      cases done
      exact .refl
  | some value => exact edits node value changed done

theorem foldlM {α : Type} {set : Node δ γ → α → Except BuildError (Node δ γ)} {values : List α}
    (edits : ∀ node value node', set node value = .ok node' → node.Edited node')
    (done : values.foldlM set node = .ok changed) : node.Edited changed :=
  foldlM_keeps (fun middle value next _ edited result =>
    edited.trans (edits middle value next result)) .refl done

theorem applyTo {traits : Traits δ γ} {entry exit : List (Slot δ γ)}
    (done : traits.applyTo entry exit node = .ok changed) : node.Edited changed := by
  obtain ⟨first, finalSet, done⟩ := bind_eq_ok_iff.mp done
  obtain ⟨second, initialSet, done⟩ := bind_eq_ok_iff.mp done
  obtain ⟨third, historySet, done⟩ := bind_eq_ok_iff.mp done
  obtain ⟨fourth, compositionSet, done⟩ := bind_eq_ok_iff.mp done
  obtain ⟨fifth, entryAdded, exitAdded⟩ := bind_eq_ok_iff.mp done
  have toFirst := setIf (fun _ value _ => edit (.setFinal value)) finalSet
  have toSecond := setIf (fun _ value _ => edit (.setInitial value)) initialSet
  have toThird := setIf (fun _ value _ => edit (.setHistory value)) historySet
  have toFourth := setIf (fun _ value _ => edit (.setComposition value)) compositionSet
  have toFifth := foldlM (fun _ slot _ => edit (.addEntry slot)) entryAdded
  have toLast := foldlM (fun _ slot _ => edit (.addExit slot)) exitAdded
  exact ((((toFirst.trans toSecond).trans toThird).trans toFourth).trans toFifth).trans toLast

theorem hook {registry : Registry δ γ}
    (done : (do
      let node ← Statechart.setIf Node.addEntry (registry.hookSlot? Hook.entryAny) node
      Statechart.setIf Node.addExit (registry.hookSlot? Hook.exitAny) node) = .ok changed) :
    node.Edited changed := by
  obtain ⟨between, entryAdded, exitAdded⟩ := bind_eq_ok_iff.mp done
  have first := setIf (fun _ slot _ => edit (.addEntry slot)) entryAdded
  have second := setIf (fun _ slot _ => edit (.addExit slot)) exitAdded
  exact first.trans second

theorem samePlace (edited : node.Edited changed) : node.SamePlace changed := by
  induction edited with
  | refl => exact .refl _
  | step edit done _ ih => exact (samePlace_of_edit done).2.trans ih

end Node.Edited

namespace Forest

theorem declare_eq_ok {forest changed : Forest δ γ} {registry : Registry δ γ}
    {parent : Option StateId} {id : StateId} {traits : Traits δ γ}
    (done : forest.declare registry parent id traits = .ok changed) :
    ∃ entry exit inserted updated,
      ActionRef.slots registry traits.entry = .ok entry ∧
      ActionRef.slots registry traits.exit = .ok exit ∧
      forest.insert id = .ok inserted ∧
      inserted.update id (traits.applyTo entry exit) = .ok updated ∧
      parent.elim (.ok updated) (fun parent => updated.attach parent id) = .ok changed := by
  obtain ⟨entry, entryEq, done⟩ := bind_eq_ok_iff.mp done
  obtain ⟨exit, exitEq, done⟩ := bind_eq_ok_iff.mp done
  obtain ⟨inserted, insertedEq, done⟩ := bind_eq_ok_iff.mp done
  obtain ⟨updated, updatedEq, done⟩ := bind_eq_ok_iff.mp done
  refine ⟨entry, exit, inserted, updated, entryEq, exitEq,
    Change.toExcept_eq_ok_iff.mp insertedEq, Change.toExcept_eq_ok_iff.mp updatedEq, ?_⟩
  cases parent with
  | none =>
      cases done
      rfl
  | some parent => exact Change.toExcept_eq_ok_iff.mp done

/-- A well-formed forest with all states of another one. -/
structure Extends (forest changed : Forest δ γ) : Prop where
  wellFormed : changed.WellFormed
  contains : ∀ id, forest.contains id = true → changed.contains id = true

namespace Extends

variable {forest changed : Forest δ γ}

theorem refl (wellFormed : forest.WellFormed) : Extends forest forest :=
  ⟨wellFormed, fun _ known => known⟩

theorem trans {middle : Forest δ γ} (first : Extends forest middle)
    (second : Extends middle changed) : Extends forest changed :=
  ⟨second.wellFormed, fun id known => second.contains id (first.contains id known)⟩

theorem insert (wellFormed : forest.WellFormed) {id : StateId}
    (inserted : forest.insert id = .ok changed) :
    Extends forest changed ∧ changed.contains id = true := by
  rcases (insert_eq_ok inserted).2 with ⟨known, rfl⟩ | ⟨unknown, rfl⟩
  · exact ⟨refl wellFormed, known⟩
  · refine ⟨⟨wellFormed.withLeaf unknown, fun other known => ?_⟩, ?_⟩
    · rw [Forest.contains, node?_withLeaf, Option.isSome_or, Bool.or_eq_true]
      exact Or.inl known
    · rw [Forest.contains, node?_withLeaf, Option.isSome_or, if_pos rfl]
      exact Bool.or_true _

theorem update (wellFormed : forest.WellFormed) {id : StateId}
    {change : Node δ γ → Except BuildError (Node δ γ)}
    (keeps : ∀ node node', change node = .ok node' → node.SamePlace node')
    (updated : forest.update id change = .ok changed) : Extends forest changed := by
  refine ⟨wellFormed.update keeps updated, fun other known => ?_⟩
  rcases becomes_update (fun node node' result => (keeps node node' result).id_eq) updated with
    ⟨_, rfl⟩ | ⟨_, _, _, _, becomes⟩
  · exact known
  · rw [becomes.contains_eq]
    exact known

theorem attach (wellFormed : forest.WellFormed) {parent child : StateId}
    (attached : forest.attach parent child = .ok changed) : Extends forest changed := by
  refine ⟨wellFormed.attach attached, fun other known => ?_⟩
  obtain ⟨_, _, _, placed⟩ := wellFormed.exists_attached attached
  rw [placed.becomes.contains_eq]
  exact known

theorem freeze (wellFormed : forest.WellFormed) (frozen : forest.freeze = .ok changed) :
    Extends forest changed := by
  refine ⟨(wellFormed.freeze frozen).1, fun other known => ?_⟩
  obtain ⟨_, _, rfl⟩ := freeze_eq_ok frozen
  rw [contains_iff] at known ⊢
  simpa [ids, List.map_map, Function.comp_def, Node.sealed] using known

theorem declare {registry : Registry δ γ} {parent : Option StateId} {id : StateId}
    {traits : Traits δ γ} (wellFormed : forest.WellFormed)
    (declared : forest.declare registry parent id traits = .ok changed) :
    Extends forest changed ∧ changed.contains id = true := by
  obtain ⟨entry, exit, inserted, updated, _, _, insertedEq, updatedEq, placed⟩ :=
    declare_eq_ok declared
  obtain ⟨toInserted, known⟩ := insert wellFormed insertedEq
  have toUpdated := update toInserted.wellFormed
    (fun _ _ done => (Node.Edited.applyTo done).samePlace) updatedEq
  cases parent with
  | none =>
      cases placed
      exact ⟨toInserted.trans toUpdated, toUpdated.contains id known⟩
  | some parent =>
      have toAttached := attach toUpdated.wellFormed placed
      exact ⟨(toInserted.trans toUpdated).trans toAttached,
        toAttached.contains id (toUpdated.contains id known)⟩

mutual

theorem declareState {registry : Registry δ γ} {parent : Option StateId} :
    ∀ (state : StateDecl δ γ) {forest changed : Forest δ γ}, forest.WellFormed →
      Forest.declareState registry parent forest state = .ok changed →
      Extends forest changed ∧ ∀ entry ∈ state.preorder, changed.contains entry.1 = true
  | .mk id traits children, forest, changed, wellFormed, declared => by
      rw [Forest.declareState] at declared
      obtain ⟨middle, own, nested⟩ := bind_eq_ok_iff.mp declared
      obtain ⟨toMiddle, known⟩ := declare wellFormed own
      obtain ⟨toLast, below⟩ := declareStates children toMiddle.wellFormed nested
      refine ⟨toMiddle.trans toLast, fun entry member => ?_⟩
      rw [StateDecl.preorder, List.mem_cons] at member
      rcases member with rfl | member
      · exact toLast.contains id known
      · exact below entry member

theorem declareStates {registry : Registry δ γ} {parent : Option StateId} :
    ∀ (states : List (StateDecl δ γ)) {forest changed : Forest δ γ}, forest.WellFormed →
      Forest.declareStates registry parent forest states = .ok changed →
      Extends forest changed ∧ ∀ entry ∈ preorderOf states, changed.contains entry.1 = true
  | [], forest, changed, wellFormed, declared => by
      rw [Forest.declareStates] at declared
      cases declared
      refine ⟨refl wellFormed, fun entry member => ?_⟩
      rw [preorderOf] at member
      contradiction
  | state :: rest, forest, changed, wellFormed, declared => by
      rw [Forest.declareStates] at declared
      obtain ⟨middle, own, later⟩ := bind_eq_ok_iff.mp declared
      obtain ⟨toMiddle, inState⟩ := declareState state wellFormed own
      obtain ⟨toLast, inRest⟩ := declareStates rest toMiddle.wellFormed later
      refine ⟨toMiddle.trans toLast, fun entry member => ?_⟩
      rw [preorderOf, List.mem_append] at member
      rcases member with member | member
      · exact toLast.contains entry.1 (inState entry member)
      · exact inRest entry member

end

theorem addHooks {registry : Registry δ γ} (wellFormed : forest.WellFormed)
    (done : forest.addHooks registry = .ok changed) : Extends forest changed := by
  refine foldlM_keeps (motive := Extends forest) ?_ (refl wellFormed) done
  intro middle id next _ toMiddle hooked
  exact toMiddle.trans (update toMiddle.wellFormed
    (fun _ _ done => (Node.Edited.hook done).samePlace) (Change.toExcept_eq_ok_iff.mp hooked))

end Extends

theorem wellFormed_empty : ({} : Forest δ γ).WellFormed := by
  refine ⟨List.nodup_nil, ?_, ?_, ?_, ?_⟩ <;>
    · intros
      contradiction

end Forest

namespace Transition

theorem sameEnds_of_withKind {transition changed : Transition δ γ} {kind : TransitionKind}
    (done : transition.withKind kind = .ok changed) : transition.SameEnds changed := by
  unfold withKind at done
  split at done
  · contradiction
  · cases done
    exact ⟨rfl, rfl, rfl⟩

theorem sameEnds_of_addAction {transition changed : Transition δ γ} {slot : Slot δ γ}
    (done : transition.addAction slot = .ok changed) : transition.SameEnds changed := by
  unfold addAction change at done
  split at done
  · contradiction
  · cases done
    exact ⟨rfl, rfl, rfl⟩

end Transition

theorem TransitionDecl.ends_of_transition {declaration : TransitionDecl δ γ}
    {registry : Registry δ γ} {transition : Transition δ γ}
    (done : declaration.transition registry = .ok transition) :
    transition.source = declaration.source ∧ transition.target = declaration.destination := by
  obtain ⟨guard, _, done⟩ := bind_eq_ok_iff.mp done
  obtain ⟨bare, kindSet, done⟩ := bind_eq_ok_iff.mp done
  obtain ⟨slots, _, done⟩ := bind_eq_ok_iff.mp done
  have kept := foldlM_keeps (motive := fun state => bare.SameEnds state)
    (fun state slot next _ same added => same.trans (Transition.sameEnds_of_addAction added))
    ⟨rfl, rfl, rfl⟩ done
  obtain ⟨sourceEq, targetEq, _⟩ := (Transition.sameEnds_of_withKind kindSet).trans kept
  exact ⟨sourceEq, targetEq⟩

namespace TransitionDecl

/-- The transition of a declaration, hooks apart. -/
def hookless (registry : Registry δ γ) (declaration : TransitionDecl δ γ) :
    Except BuildError (Transition δ γ) := do
  let guard ← declaration.resolveGuard registry
  let bare : Transition δ γ :=
    { source := declaration.source
      target := declaration.destination
      event := declaration.event
      guard
      priority := declaration.priority.getD Priority.normal }
  let bare ← bare.withKind declaration.effectiveKind
  let slots ← ActionRef.slots registry declaration.actions
  slots.foldlM Transition.addAction bare

theorem transition_eq_hookless {registry : Registry δ γ} (none : registry.actions = [])
    (declaration : TransitionDecl δ γ) :
    declaration.transition registry = declaration.hookless registry := by
  have noHooks : declaration.hookSlots registry = [] := by
    unfold hookSlots
    rw [List.filterMap_eq_nil_iff]
    intro name _
    rw [Registry.hookSlot?, Registry.action?, none]
    rfl
  unfold transition hookless
  rw [noHooks]
  simp

end TransitionDecl

theorem Table.declare_empty :
    Table.declare ({} : Registry δ γ) = fun table declaration =>
      declaration.hookless {} >>= fun transition => (table.add transition).toExcept := by
  funext table declaration
  rw [Table.declare, TransitionDecl.transition_eq_hookless rfl]

def Table.HasEnds (table : Table δ γ) (good : StateId → StateId → Prop) : Prop :=
  ∀ transition ∈ table.transitions, good transition.source transition.target

namespace Table

variable {table changed : Table δ γ} {good : StateId → StateId → Prop}

theorem keyed_of_add {transition : Transition δ γ} (keyed : table.Keyed)
    (added : table.add transition = .ok changed) : changed.Keyed := by
  have left := keyed_add keyed transition
  rw [added] at left
  exact left

theorem hasEnds_of_add {transition : Transition δ γ} (ends : table.HasEnds good)
    (own : good transition.source transition.target)
    (added : table.add transition = .ok changed) : changed.HasEnds good := by
  unfold add at added
  split at added
  · contradiction
  cases added
  intro other member
  rcases List.mem_cons.mp ((place_perm transition table.groups).mem_iff.mp member) with rfl | old
  · exact own
  · exact ends other old

theorem keyed_of_freeze (keyed : table.Keyed) (frozen : table.freeze = .ok changed) :
    changed.Keyed := by
  have left := keyed_freeze keyed
  rw [frozen] at left
  exact left

theorem hasEnds_of_freeze (ends : table.HasEnds good) (frozen : table.freeze = .ok changed) :
    changed.HasEnds good := by
  have left := groups_left_freeze table
  rw [frozen, Change.left_ok] at left
  intro transition member
  obtain ⟨group, inTable, inGroup⟩ := List.mem_flatMap.mp member
  rcases left with same | sorted
  · rw [same] at inTable
    exact ends transition (List.mem_flatMap.mpr ⟨group, inTable, inGroup⟩)
  · rw [sorted] at inTable
    obtain ⟨old, oldInTable, _, _, same⟩ := sameEnds_of_mem_freezeGroups inTable
    obtain ⟨before, beforeInGroup, sourceEq, targetEq, _⟩ := same transition inGroup
    rw [sourceEq, targetEq]
    exact ends before (List.mem_flatMap.mpr ⟨old, oldInTable, beforeInGroup⟩)

theorem of_declarations (good : StateId → StateId → Prop)
    {declarations : List (TransitionDecl δ γ)} {registry : Registry δ γ}
    (known : ∀ declaration ∈ declarations, good declaration.source declaration.destination)
    (done : declarations.foldlM (declare registry) {} = .ok changed) :
    changed.Keyed ∧ changed.HasEnds good := by
  have empty : ({} : Table δ γ).Keyed ∧ ({} : Table δ γ).HasEnds good :=
    ⟨fun _ member => by contradiction, fun _ member => by contradiction⟩
  refine foldlM_keeps (motive := fun table => table.Keyed ∧ table.HasEnds good) ?_ empty done
  intro table declaration next member ⟨keyed, ends⟩ declared
  obtain ⟨transition, built, added⟩ := bind_eq_ok_iff.mp declared
  have addedEq := Change.toExcept_eq_ok_iff.mp added
  obtain ⟨sourceEq, targetEq⟩ := TransitionDecl.ends_of_transition built
  refine ⟨keyed_of_add keyed addedEq, hasEnds_of_add ends ?_ addedEq⟩
  rw [sourceEq, targetEq]
  exact known declaration member

end Table

namespace Layer

variable {layer : Layer δ γ} {registry : Registry δ γ}

theorem problems_of_check (passed : layer.check registry = .ok ()) :
    layer.problems registry = [] := by
  unfold check at passed
  split at passed
  · next none => exact none
  · contradiction
  · contradiction

theorem declared_of_unknownState? {declared : List StateId} {referrer : Referrer} {id : StateId}
    (none : unknownState? declared referrer id = none) : id ∈ declared := by
  unfold unknownState? at none
  split at none
  · next member => exact member
  · contradiction

theorem declared_ends (passed : layer.check registry = .ok ())
    {declaration : TransitionDecl δ γ} (member : declaration ∈ layer.transitions) :
    declaration.source ∈ layer.declaredStates.map Prod.fst ∧
      declaration.destination ∈ layer.declaredStates.map Prod.fst := by
  have none := problems_of_check passed
  simp only [problems, List.append_eq_nil_iff, List.flatMap_eq_nil_iff] at none
  have own := none.2 declaration member
  simp only [TransitionDecl.problems, List.append_eq_nil_iff, Option.toList_eq_nil_iff] at own
  obtain ⟨⟨⟨⟨source, target⟩, _⟩, _⟩, _⟩ := own
  refine ⟨declared_of_unknownState? source, ?_⟩
  unfold TransitionDecl.destination
  cases targetEq : declaration.target with
  | none => exact declared_of_unknownState? source
  | some id =>
      rw [targetEq] at target
      exact declared_of_unknownState? target

/-- The stages in which a layer was checked and built, up to the chart. -/
structure Built (layer : Layer δ γ) (registry : Registry δ γ) (declared hooked : Forest δ γ)
    (open_ : Table δ γ) (chart : Chart δ γ) : Prop where
  passed : layer.check registry = .ok ()
  declares : Forest.declareStates registry none {} layer.states = .ok declared
  hooks : declared.addHooks registry = .ok hooked
  adds : layer.transitions.foldlM (Table.declare registry) {} = .ok open_
  seals : hooked.freeze = .ok chart.forest
  seals_table : open_.freeze = .ok chart.table
  assembles : Chart.assemble chart.forest chart.table layer.effectiveInitial = .ok chart

theorem exists_built {chart : Chart δ γ} (compiled : layer.compile registry = .ok chart) :
    ∃ declared hooked open_, layer.Built registry declared hooked open_ chart := by
  obtain ⟨_, passed, built⟩ := bind_eq_ok_iff.mp compiled
  obtain ⟨declared, declares, built⟩ := bind_eq_ok_iff.mp built
  obtain ⟨hooked, hooks, built⟩ := bind_eq_ok_iff.mp built
  obtain ⟨open_, adds, built⟩ := bind_eq_ok_iff.mp built
  obtain ⟨forest, seals, built⟩ := bind_eq_ok_iff.mp built
  obtain ⟨table, seals_table, assembles⟩ := bind_eq_ok_iff.mp built
  obtain ⟨_, _, _, rfl⟩ := Chart.assemble_eq_ok assembles
  exact ⟨declared, hooked, open_, passed, declares, hooks, adds,
    Change.toExcept_eq_ok_iff.mp seals, Change.toExcept_eq_ok_iff.mp seals_table, assembles⟩

end Layer

namespace Chart

variable {chain : List (Layer δ γ)} {registry : Registry δ γ} {chart : Chart δ γ}

theorem wellFormed_and_ends_of_ofLayers (compiled : Chart.ofLayers chain registry = .ok chart) :
    chart.WellFormed ∧ chart.table.HasEnds fun source target =>
      chart.forest.contains source = true ∧ chart.forest.contains target = true := by
  obtain ⟨declared, hooked, open_, built⟩ := Layer.exists_built compiled
  obtain ⟨toDeclared, declaredKnown⟩ :=
    Forest.Extends.declareStates _ Forest.wellFormed_empty built.declares
  have toHooked := Forest.Extends.addHooks toDeclared.wellFormed built.hooks
  have toFrozen := Forest.Extends.freeze toHooked.wellFormed built.seals
  have known : ∀ id ∈ (Layer.merge chain).declaredStates.map Prod.fst,
      chart.forest.contains id = true := by
    intro id member
    obtain ⟨entry, entryMember, rfl⟩ := List.mem_map.mp member
    exact (toHooked.trans toFrozen).contains entry.1 (declaredKnown entry entryMember)
  obtain ⟨keyed, ends⟩ := Table.of_declarations
    (fun source target => chart.forest.contains source = true ∧ chart.forest.contains target = true)
    (fun declaration member =>
      (Layer.declared_ends built.passed member).imp (known _) (known _)) built.adds
  have ends' := Table.hasEnds_of_freeze ends built.seals_table
  exact ⟨⟨toFrozen.wellFormed, Table.keyed_of_freeze keyed built.seals_table,
    fun transition member => (ends' transition member).2⟩, ends'⟩

theorem wellFormed_of_ofLayers (compiled : Chart.ofLayers chain registry = .ok chart) :
    chart.WellFormed :=
  (wellFormed_and_ends_of_ofLayers compiled).1

end Chart

end Statechart
