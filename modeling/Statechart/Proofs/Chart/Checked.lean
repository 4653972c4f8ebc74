import Statechart.Proofs.Chart.Growing

namespace Statechart

variable {δ γ : Type}

theorem Transition.exists_addAction {transition : Transition δ γ}
    (unfrozen : transition.frozen = false) (slot : Slot δ γ) :
    ∃ changed, transition.addAction slot = .ok changed ∧ changed.frozen = false :=
  ⟨{ transition with actions := (transition.actions.push slot).1 },
    by simp [addAction, change, unfrozen], unfrozen⟩

namespace TransitionDecl

variable {declared : List StateId} {registry : Registry δ γ} {declaration : TransitionDecl δ γ}

theorem exists_resolveGuard (none : declaration.guardProblem? registry = none) :
    ∃ guard, declaration.resolveGuard registry = .ok guard := by
  unfold guardProblem? at none
  unfold resolveGuard
  cases given : declaration.guard with
  | none => exact ⟨_, rfl⟩
  | some ref =>
      cases ref with
      | direct guard => exact ⟨guard, rfl⟩
      | named name =>
          rw [given] at none
          cases found : registry.guard? name with
          | none => simp [found] at none
          | some guard => exact ⟨guard, by simp [found]⟩

theorem destination_of_internal (none : declaration.internalProblem? = none)
    (internal : declaration.effectiveKind = .internal) :
    declaration.source = declaration.destination := by
  unfold internalProblem? at none
  unfold effectiveKind at internal
  unfold destination
  cases target : declaration.target with
  | none => rfl
  | some target =>
      cases kind : declaration.kind with
      | none => simp [kind, target] at internal
      | some kind => simp_all

theorem exists_transition (none : declaration.problems declared registry = []) :
    ∃ transition, declaration.transition registry = .ok transition ∧
      transition.frozen = false := by
  simp only [problems, List.append_eq_nil_iff, Option.toList_eq_nil_iff] at none
  obtain ⟨⟨⟨_, kindNone⟩, guardNone⟩, actionsNone⟩ := none
  obtain ⟨guard, guardEq⟩ := exists_resolveGuard guardNone
  obtain ⟨slots, slotsEq⟩ := ActionRef.exists_slots registry actionsNone
  let bare : Transition δ γ :=
    { source := declaration.source
      target := declaration.destination
      event := declaration.event
      guard
      priority := declaration.priority.getD Priority.normal }
  have kindEq : bare.withKind declaration.effectiveKind =
      .ok { bare with kind := declaration.effectiveKind } := by
    apply if_neg
    rintro ⟨internal, elsewhere⟩
    exact elsewhere (destination_of_internal kindNone internal)
  obtain ⟨transition, built, unfrozen⟩ : ∃ transition,
      (slots ++ declaration.hookSlots registry).foldlM Transition.addAction
        { bare with kind := declaration.effectiveKind } = .ok transition ∧
      transition.frozen = false :=
    exists_foldlM (motive := fun transition : Transition δ γ => transition.frozen = false)
      (fun _ slot _ unfrozen => Transition.exists_addAction unfrozen slot) rfl
  refine ⟨transition, bind_eq_ok_iff.mpr ⟨guard, guardEq, ?_⟩, unfrozen⟩
  exact bind_eq_ok_iff.mpr ⟨_, kindEq, bind_eq_ok_iff.mpr ⟨slots, slotsEq, built⟩⟩

end TransitionDecl

namespace Table

structure Growing (table : Table δ γ) : Prop where
  unfrozen : table.frozen = false
  transitionsOpen : ∀ transition ∈ table.transitions, transition.frozen = false

namespace Growing

variable {table : Table δ γ}

theorem empty : ({} : Table δ γ).Growing :=
  ⟨rfl, fun _ member => by contradiction⟩

theorem add (growing : table.Growing) {transition : Transition δ γ}
    (unfrozen : transition.frozen = false) :
    ∃ changed, table.add transition = .ok changed ∧ changed.Growing := by
  refine ⟨{ table with groups := place transition table.groups }, ?_, growing.unfrozen, ?_⟩
  · simp [Table.add, growing.unfrozen]
  · intro other member
    rcases List.mem_cons.mp ((place_perm transition table.groups).mem_iff.mp member) with rfl | old
    · exact unfrozen
    · exact growing.transitionsOpen other old

theorem declare (growing : table.Growing) {declared : List StateId} {registry : Registry δ γ}
    {declaration : TransitionDecl δ γ} (none : declaration.problems declared registry = []) :
    ∃ changed, table.declare registry declaration = .ok changed ∧ changed.Growing := by
  obtain ⟨transition, built, unfrozen⟩ := TransitionDecl.exists_transition none
  obtain ⟨changed, added, changedGrowing⟩ := growing.add unfrozen
  exact ⟨changed, bind_eq_ok_iff.mpr ⟨transition, built, Change.toExcept_eq_ok_iff.mpr added⟩,
    changedGrowing⟩

end Growing

theorem freezeTransitions_of_open {transitions : List (Transition δ γ)}
    (open_ : ∀ transition ∈ transitions, transition.frozen = false) :
    (freezeTransitions transitions).2 = none := by
  induction transitions with
  | nil => rfl
  | cons transition transitions ih =>
      have own := open_ transition List.mem_cons_self
      have rest := ih fun other member => open_ other (List.mem_cons_of_mem transition member)
      simp [freezeTransitions, Transition.freeze, Transition.change, own, rest]

theorem freezeGroups_of_open {groups : List (TransitionGroup δ γ)}
    (open_ : ∀ group ∈ groups, ∀ transition ∈ group.transitions, transition.frozen = false) :
    (freezeGroups groups).2 = none := by
  induction groups with
  | nil => rfl
  | cons group groups ih =>
      have own : (freezeTransitions (byPriority group.transitions)).2 = none := by
        apply freezeTransitions_of_open
        intro transition member
        exact open_ group List.mem_cons_self transition (List.mem_mergeSort.mp member)
      have rest := ih fun other member => open_ other (List.mem_cons_of_mem group member)
      unfold freezeGroups
      split
      · next stopped => simp [stopped] at own
      · exact rest

theorem Growing.freeze {table : Table δ γ} (growing : table.Growing) :
    ∃ changed, table.freeze = .ok changed ∧ changed.frozen = true := by
  have done : (freezeGroups table.groups).2 = none := by
    apply freezeGroups_of_open
    intro group inTable transition inGroup
    exact growing.transitionsOpen transition (List.mem_flatMap.mpr ⟨group, inTable, inGroup⟩)
  refine ⟨{ groups := (freezeGroups table.groups).1, frozen := true }, ?_, rfl⟩
  unfold Table.freeze
  rw [growing.unfrozen, if_neg Bool.false_ne_true]
  split
  · next stopped => simp [stopped] at done
  · next result => rw [result]

end Table

theorem StateDecl.id_mem_preorderOf {state : StateDecl δ γ} {states : List (StateDecl δ γ)}
    (member : state ∈ states) : state.id ∈ (preorderOf states).map Prod.fst := by
  induction states with
  | nil => contradiction
  | cons first rest ih =>
      rw [preorderOf, List.map_append, List.mem_append]
      rcases List.mem_cons.mp member with rfl | further
      · obtain ⟨id, traits, children⟩ := state
        rw [StateDecl.preorder]
        exact Or.inl List.mem_cons_self
      · exact Or.inr (ih further)

namespace Layer

variable {layer : Layer δ γ} {registry : Registry δ γ}

theorem effectiveInitial_declared (none : layer.problems registry = []) {id : StateId}
    (initial : layer.effectiveInitial = some id) : id ∈ layer.declaredStates.map Prod.fst := by
  simp only [problems, List.append_eq_nil_iff, Option.toList_eq_nil_iff] at none
  rcases Option.or_eq_some_iff.mp initial with named | ⟨_, marked⟩
  · rw [named] at none
    exact declared_of_unknownState? none.1.2
  · obtain ⟨state, found, rfl⟩ := Option.map_eq_some_iff.mp marked
    exact StateDecl.id_mem_preorderOf (List.mem_of_find?_eq_some found)

theorem exists_build (none : layer.problems registry = []) :
    ∃ chart, layer.build registry = .ok chart := by
  have statesNone : stateProblems [] layer.declaredStates = [] := by
    simp only [problems, List.append_eq_nil_iff] at none
    exact none.1.1
  have transitionsNone : ∀ declaration ∈ layer.transitions,
      declaration.problems (layer.declaredStates.map Prod.fst) registry = [] := by
    simp only [problems, List.append_eq_nil_iff, List.flatMap_eq_nil_iff] at none
    exact none.2
  -- What a stage needs is open until the last ones, which freeze the forest and the table.
  obtain ⟨declared, declaredEq, declaredGrowing, declaredIds⟩ : ∃ declared,
      Forest.declareStates registry Option.none {} layer.states = .ok declared ∧
      declared.Growing ∧ declared.ids = [] ++ layer.declaredStates.map Prod.fst :=
    Forest.Growing.declareStates layer.states Forest.Growing.empty (by simp)
      (Forest.Declarable.of_stateProblems registry statesNone)
  obtain ⟨hooked, hookedEq, hookedGrowing, hookedIds⟩ := declaredGrowing.addHooks registry
  obtain ⟨forest, forestEq, forestFrozen, forestIds⟩ := hookedGrowing.freeze
  obtain ⟨open_, tableEq, growing⟩ : ∃ open_,
      layer.transitions.foldlM (Table.declare registry) {} = .ok open_ ∧ open_.Growing :=
    exists_foldlM (motive := Table.Growing)
      (fun table declaration member growing => growing.declare (transitionsNone declaration member))
      Table.Growing.empty
  obtain ⟨table, frozenEq, tableFrozen⟩ := growing.freeze
  have assembled : ∃ chart, Chart.assemble forest table layer.effectiveInitial = .ok chart := by
    unfold Chart.assemble
    rw [if_pos ⟨forestFrozen, tableFrozen⟩]
    cases initial : layer.effectiveInitial with
    | none => exact ⟨_, rfl⟩
    | some id =>
        have known : forest.contains id = true := by
          rw [Forest.contains_iff, forestIds, hookedIds, declaredIds]
          exact List.mem_append_right _ (effectiveInitial_declared none initial)
        exact ⟨_, if_pos known⟩
  obtain ⟨chart, chartEq⟩ := assembled
  refine ⟨chart, bind_eq_ok_iff.mpr ⟨declared, declaredEq, bind_eq_ok_iff.mpr ⟨hooked, hookedEq,
    bind_eq_ok_iff.mpr ⟨open_, tableEq, bind_eq_ok_iff.mpr ⟨forest, ?_,
    bind_eq_ok_iff.mpr ⟨table, ?_, chartEq⟩⟩⟩⟩⟩⟩
  · exact Change.toExcept_eq_ok_iff.mpr forestEq
  · exact Change.toExcept_eq_ok_iff.mpr frozenEq

end Layer

namespace BuildError

def Single (error : BuildError) : Prop :=
  error.problems = [error]

theorem allProblems_eq_self {errors : List BuildError} (single : ∀ error ∈ errors, error.Single) :
    allProblems errors = errors := by
  induction errors with
  | nil => rw [allProblems]
  | cons error errors ih =>
      have own : error.problems = [error] := single error List.mem_cons_self
      rw [allProblems, own, ih fun other member => single other (List.mem_cons_of_mem error member)]
      rfl

theorem single_configuration (cause : Cause) : (configuration cause).Single := by
  rw [Single, problems]

end BuildError

open BuildError in
theorem ActionRef.single_of_mem_problems {owner : Owner} {refs : Option (List (ActionRef δ γ))}
    {error : BuildError} (member : error ∈ ActionRef.problems owner refs) : error.Single := by
  obtain ⟨ref, _, reported⟩ := List.mem_filterMap.mp member
  cases ref with
  | written text =>
      simp only [problem?] at reported
      split at reported
      · contradiction
      · cases reported
        exact single_configuration _
  | named name weight =>
      simp only [problem?] at reported
      split at reported
      · cases reported
        exact single_configuration _
      · contradiction
  | direct action weight => contradiction

theorem single_of_unknownState? {declared : List StateId} {referrer : Referrer} {id : StateId}
    {error : BuildError} (reported : unknownState? declared referrer id = some error) :
    error.Single := by
  unfold unknownState? at reported
  split at reported
  · contradiction
  · cases reported
    rw [BuildError.Single, BuildError.problems]

theorem single_of_mem_stateProblems {declared : List StateId}
    {entries : List (StateId × Traits δ γ)} {error : BuildError}
    (member : error ∈ stateProblems declared entries) : error.Single := by
  induction entries generalizing declared with
  | nil => contradiction
  | cons entry entries ih =>
      obtain ⟨id, traits⟩ := entry
      rw [stateProblems] at member
      simp only [List.mem_append] at member
      rcases member with ((again | onEntry) | onExit) | later
      · split at again
        · cases List.mem_singleton.mp again
          exact BuildError.single_configuration _
        · contradiction
      · exact ActionRef.single_of_mem_problems onEntry
      · exact ActionRef.single_of_mem_problems onExit
      · exact ih later

theorem TransitionDecl.single_of_mem_problems {declared : List StateId} {registry : Registry δ γ}
    {declaration : TransitionDecl δ γ} {error : BuildError}
    (member : error ∈ declaration.problems declared registry) : error.Single := by
  simp only [problems, List.mem_append, Option.mem_toList] at member
  rcases member with (((source | target) | kind) | guard) | actions
  · exact single_of_unknownState? source
  · obtain ⟨id, _, reported⟩ := Option.bind_eq_some_iff.mp target
    exact single_of_unknownState? reported
  · unfold internalProblem? at kind
    split at kind
    · split at kind
      · contradiction
      · cases kind
        exact BuildError.single_configuration _
    · contradiction
  · unfold guardProblem? at guard
    split at guard
    · split at guard
      · contradiction
      · cases guard
        exact BuildError.single_configuration _
    · contradiction
  · exact ActionRef.single_of_mem_problems actions

namespace Layer

variable {layer : Layer δ γ} {registry : Registry δ γ}

theorem single_of_mem_problems {error : BuildError} (member : error ∈ layer.problems registry) :
    error.Single := by
  simp only [problems, List.mem_append, Option.mem_toList] at member
  rcases member with (states | initial) | transitions
  · exact single_of_mem_stateProblems states
  · obtain ⟨id, _, reported⟩ := Option.bind_eq_some_iff.mp initial
    exact single_of_unknownState? reported
  · obtain ⟨declaration, _, reported⟩ := List.mem_flatMap.mp transitions
    exact declaration.single_of_mem_problems reported

theorem check_of_problems (none : layer.problems registry = []) :
    layer.check registry = .ok () := by
  rw [check, none]

theorem problems_of_check_eq_error {error : BuildError}
    (failed : layer.check registry = .error error) :
    layer.problems registry ≠ [] ∧ error.problems = layer.problems registry := by
  have single : ∀ problem ∈ layer.problems registry, problem.Single :=
    fun _ => single_of_mem_problems
  unfold check at failed
  split at failed
  · contradiction
  · next found =>
    cases failed
    rw [found] at single ⊢
    exact ⟨List.cons_ne_nil _ _, single _ List.mem_cons_self⟩
  · next some_ _ =>
    cases failed
    rw [BuildError.problems, BuildError.allProblems_eq_self single]
    exact ⟨some_, rfl⟩

end Layer

/-- What stops a chain of layers from being compiled is the check and nothing after it. -/
theorem Chart.ofLayers_eq_error_iff {chain : List (Layer δ γ)} {registry : Registry δ γ}
    {error : BuildError} :
    Chart.ofLayers chain registry = .error error ↔
      (Layer.merge chain).check registry = .error error := by
  cases checked : (Layer.merge chain).check registry with
  | ok =>
      obtain ⟨chart, built⟩ := Layer.exists_build (Layer.problems_of_check checked)
      have compiled : Chart.ofLayers chain registry = .ok chart :=
        bind_eq_ok_iff.mpr ⟨(), checked, built⟩
      rw [compiled]
      exact iff_of_false nofun nofun
  | error reported =>
      have same : Chart.ofLayers chain registry = .error reported := by
        rw [Chart.ofLayers, Layer.compile, checked]
        rfl
      rw [same]
      simp

theorem Chart.exists_error_of_problems {chain : List (Layer δ γ)} {registry : Registry δ γ}
    (nonempty : (Layer.merge chain).problems registry ≠ []) :
    ∃ error, Chart.ofLayers chain registry = .error error ∧
      error.problems = (Layer.merge chain).problems registry := by
  cases checked : (Layer.merge chain).check registry with
  | ok => exact absurd (Layer.problems_of_check checked) nonempty
  | error error =>
      exact ⟨error, Chart.ofLayers_eq_error_iff.mpr checked,
        (Layer.problems_of_check_eq_error checked).2⟩

/--
Checking and building agree: what is checked without a problem can be built, and what cannot be
compiled has exactly the problems that the check reports.
-/
theorem Chart.ofLayers_agrees_with_check (chain : List (Layer δ γ)) (registry : Registry δ γ) :
    ((∃ chart, Chart.ofLayers chain registry = .ok chart) ↔
      (Layer.merge chain).problems registry = []) ∧
    (∀ layer : Layer δ γ, layer.problems registry = [] →
      ∃ chart, layer.build registry = .ok chart) ∧
    ∀ error, Chart.ofLayers chain registry = .error error →
      (Layer.merge chain).problems registry ≠ [] ∧
        error.problems = (Layer.merge chain).problems registry := by
  refine ⟨⟨?_, fun none => ?_⟩, fun layer => Layer.exists_build, fun error failed => ?_⟩
  · rintro ⟨chart, compiled⟩
    obtain ⟨_, passed, _⟩ := bind_eq_ok_iff.mp compiled
    exact Layer.problems_of_check passed
  · obtain ⟨chart, built⟩ := Layer.exists_build none
    exact ⟨chart, bind_eq_ok_iff.mpr ⟨(), Layer.check_of_problems none, built⟩⟩
  · exact Layer.problems_of_check_eq_error (Chart.ofLayers_eq_error_iff.mp failed)

def nesting : List (Layer Unit Unit) :=
  [{ states := [.mk ⟨"A"⟩ {} [.mk ⟨"B"⟩ {} []]]
     transitions := [{ source := ⟨"B"⟩, event := ⟨"stay"⟩ }] },
    { initial := some ⟨"A"⟩, states := [.mk ⟨"A"⟩ { isInitial := some true } []] }]

def astray : List (Layer Unit Unit) :=
  [{ initial := some ⟨"C"⟩, states := [.mk ⟨"A"⟩ {} [.mk ⟨"B"⟩ {} []]] }]

theorem Chart.ofLayers_agrees_with_check_nesting :
    (∃ chart, Chart.ofLayers nesting {} = .ok chart) ∧
      (∃ chart, (Layer.merge nesting).build {} = .ok chart) ∧
      ∃ error, Chart.ofLayers astray {} = .error error ∧
        error.problems = [.unknownState ⟨"C"⟩ .machineInitial] := by
  have sound : (Layer.merge nesting).problems {} = [] := by
    cbv
  have unsound : (Layer.merge astray).problems {} = [.unknownState ⟨"C"⟩ .machineInitial] := by
    cbv
  have agrees := Chart.ofLayers_agrees_with_check nesting {}
  have differs := Chart.ofLayers_agrees_with_check astray {}
  refine ⟨agrees.1.mpr sound, agrees.2.1 _ sound, ?_⟩
  cases compiled : Chart.ofLayers astray {} with
  | ok chart =>
      have none := differs.1.mp ⟨chart, compiled⟩
      rw [unsound] at none
      contradiction
  | error error => exact ⟨error, rfl, (differs.2.2 error compiled).2.trans unsound⟩

end Statechart
