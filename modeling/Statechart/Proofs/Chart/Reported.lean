import Statechart.Proofs.Chart.Checked
import Statechart.Proofs.Layer.Merged
import Statechart.Proofs.Text.Trimmed

namespace Statechart

variable {δ γ : Type}

/-- One problem for each faulty item, in the order of the items. -/
inductive OnePer {α : Type} (faulty : α → BuildError → Prop) : List α → List BuildError → Prop where
  | nil : OnePer faulty [] []
  | reported {item : α} {items : List α} {problem : BuildError} {problems : List BuildError}
      (fault : faulty item problem) (rest : OnePer faulty items problems) :
      OnePer faulty (item :: items) (problem :: problems)
  | sound {item : α} {items : List α} {problems : List BuildError}
      (faultless : ∀ problem, ¬ faulty item problem) (rest : OnePer faulty items problems) :
      OnePer faulty (item :: items) problems

theorem onePer_iff {α : Type} {faulty : α → BuildError → Prop} {find : α → Option BuildError}
    (found : ∀ item problem, faulty item problem ↔ find item = some problem) {items : List α}
    {problems : List BuildError} :
    OnePer faulty items problems ↔ problems = items.filterMap find := by
  constructor
  · intro onePer
    induction onePer with
    | nil => rfl
    | reported fault _ ih => rw [List.filterMap_cons_some ((found _ _).mp fault), ih]
    | @sound item _ _ faultless _ ih =>
        have nothing : find item = none := by
          refine Option.eq_none_iff_forall_ne_some.mpr fun problem hit => ?_
          exact faultless problem ((found item problem).mpr hit)
        rw [List.filterMap_cons_none nothing, ih]
  · rintro rfl
    induction items with
    | nil => exact .nil
    | cons item items ih =>
        cases hit : find item with
        | none =>
            rw [List.filterMap_cons_none hit]
            refine .sound (fun problem fault => ?_) ih
            rw [(found item problem).mp fault] at hit
            contradiction
        | some problem =>
            rw [List.filterMap_cons_some hit]
            exact .reported ((found item problem).mpr hit) ih

/-- A place in a layer at which one thing is checked. -/
inductive Site (δ γ : Type) where
  /-- A state, with those declared before it. -/
  | state (earlier : List StateId) (id : StateId)
  | reference (owner : Owner) (ref : ActionRef δ γ)
  | initial (id : StateId)
  | source (declaration : TransitionDecl δ γ)
  | target (declaration : TransitionDecl δ γ)
  | kind (declaration : TransitionDecl δ γ)
  | guard (declaration : TransitionDecl δ γ)

namespace Site

/-- What is wrong with a site, given the declared states. -/
inductive Faulty (declared : List StateId) (registry : Registry δ γ) :
    Site δ γ → BuildError → Prop where
  | repeated {earlier : List StateId} {id : StateId} (again : id ∈ earlier) :
      Faulty declared registry (.state earlier id) (.configuration (.declaredTwice id))
  | unreadable {owner : Owner} {text : String} {fault : DescriptorFault}
      (refused : ActionRef.parse text = .error fault) :
      Faulty declared registry (.reference owner (.written text))
        (.configuration (.descriptorOf owner fault))
  | nameless {owner : Owner} {name : String} {weight : Weight}
      (blank : ∀ character ∈ name.toList, Text.isBlank character = true) :
      Faulty declared registry (.reference owner (.named name weight))
        (.configuration (.emptyReference owner))
  | startsNowhere {id : StateId} (unknown : id ∉ declared) :
      Faulty declared registry (.initial id) (.unknownState id .machineInitial)
  | leavesNowhere {declaration : TransitionDecl δ γ} (unknown : declaration.source ∉ declared) :
      Faulty declared registry (.source declaration)
        (.unknownState declaration.source (.declaration declaration.owner))
  | leadsNowhere {declaration : TransitionDecl δ γ} {target : StateId}
      (given : declaration.target = some target) (unknown : target ∉ declared) :
      Faulty declared registry (.target declaration)
        (.unknownState target (.declaration declaration.owner))
  | leadsAway {declaration : TransitionDecl δ γ} {target : StateId}
      (internal : declaration.kind = some .internal) (given : declaration.target = some target)
      (elsewhere : target ≠ declaration.source) :
      Faulty declared registry (.kind declaration)
        (.configuration (.internalDeclared declaration.owner target))
  | unguarded {declaration : TransitionDecl δ γ} {name : String}
      (given : declaration.guard = some (.named name)) (missing : registry.guard? name = none) :
      Faulty declared registry (.guard declaration)
        (.configuration (.guardUnknown declaration.owner name))

def references (owner : Owner) (refs : Option (List (ActionRef δ γ))) : List (Site δ γ) :=
  (refs.getD []).map (.reference owner)

end Site

mutual

/-- The sites of a state and of the states nested in it, given the states declared before it. -/
def StateDecl.sites (earlier : List StateId) : StateDecl δ γ → List (Site δ γ)
  | .mk id traits children =>
    .state earlier id ::
      (Site.references (.state id) traits.entry ++ Site.references (.state id) traits.exit ++
        sitesOf (earlier ++ [id]) children)

def sitesOf (earlier : List StateId) : List (StateDecl δ γ) → List (Site δ γ)
  | [] => []
  | state :: rest =>
    state.sites earlier ++ sitesOf (earlier ++ state.preorder.map Prod.fst) rest

end

def TransitionDecl.sites (declaration : TransitionDecl δ γ) : List (Site δ γ) :=
  [.source declaration, .target declaration, .kind declaration, .guard declaration] ++
    Site.references declaration.owner declaration.actions

def Layer.sites (layer : Layer δ γ) : List (Site δ γ) :=
  sitesOf [] layer.states ++ layer.initial.toList.map .initial ++
    layer.transitions.flatMap TransitionDecl.sites

/-- The problems of a layer are these, each once and in this order. -/
def Layer.Reports (layer : Layer δ γ) (registry : Registry δ γ) : List BuildError → Prop :=
  OnePer (Site.Faulty (layer.declaredStates.map Prod.fst) registry) layer.sites

theorem Text.isEmpty_trim_iff {text : List Char} :
    (Text.trim text).isEmpty = true ↔ ∀ character ∈ text, Text.isBlank character = true := by
  rw [List.isEmpty_iff, Text.trim_eq_nil_iff]

theorem unknownState?_eq_some_iff {declared : List StateId} {referrer : Referrer} {id : StateId}
    {problem : BuildError} :
    unknownState? declared referrer id = some problem ↔
      id ∉ declared ∧ .unknownState id referrer = problem := by
  simp [unknownState?]

namespace Site

variable {declared : List StateId} {registry : Registry δ γ}

def problem? (declared : List StateId) (registry : Registry δ γ) : Site δ γ → Option BuildError
  | .state earlier id =>
    if id ∈ earlier then some (.configuration (.declaredTwice id)) else none
  | .reference owner ref => ref.problem? owner
  | .initial id => unknownState? declared .machineInitial id
  | .source declaration =>
    unknownState? declared (.declaration declaration.owner) declaration.source
  | .target declaration =>
    declaration.target.bind (unknownState? declared (.declaration declaration.owner))
  | .kind declaration => declaration.internalProblem?
  | .guard declaration => declaration.guardProblem? registry

theorem faulty_reference {owner : Owner} {ref : ActionRef δ γ} {problem : BuildError}
    (found : ref.problem? owner = some problem) :
    Faulty declared registry (.reference owner ref) problem := by
  cases ref with
  | written text =>
      simp only [ActionRef.problem?] at found
      split at found
      · contradiction
      · next refused =>
        cases found
        exact .unreadable refused
  | named name weight =>
      obtain ⟨blank, same⟩ := Option.ite_none_right_eq_some.mp found
      cases same
      exact .nameless (Text.isEmpty_trim_iff.mp blank)
  | direct action weight => contradiction

theorem faulty_kind {declaration : TransitionDecl δ γ} {problem : BuildError}
    (found : declaration.internalProblem? = some problem) :
    Faulty declared registry (.kind declaration) problem := by
  unfold TransitionDecl.internalProblem? at found
  split at found
  · next target internal given =>
    obtain ⟨elsewhere, same⟩ := Option.ite_none_left_eq_some.mp found
    cases same
    exact .leadsAway internal given elsewhere
  · contradiction

theorem faulty_guard {declaration : TransitionDecl δ γ} {problem : BuildError}
    (found : declaration.guardProblem? registry = some problem) :
    Faulty declared registry (.guard declaration) problem := by
  unfold TransitionDecl.guardProblem? at found
  split at found
  · next name given =>
    obtain ⟨missing, same⟩ := Option.ite_none_left_eq_some.mp found
    cases same
    exact .unguarded given (by simpa using missing)
  · contradiction

theorem faulty_iff (site : Site δ γ) (problem : BuildError) :
    site.Faulty declared registry problem ↔ site.problem? declared registry = some problem := by
  constructor
  · intro faulty
    cases faulty with
    | repeated again => exact if_pos again
    | unreadable refused => simp [problem?, ActionRef.problem?, refused]
    | nameless blank => exact if_pos (Text.isEmpty_trim_iff.mpr blank)
    | startsNowhere unknown => exact if_neg unknown
    | leavesNowhere unknown => exact if_neg unknown
    | leadsNowhere given unknown =>
        rw [problem?, given]
        exact if_neg unknown
    | leadsAway internal given elsewhere =>
        simp [problem?, TransitionDecl.internalProblem?, internal, given, elsewhere]
    | unguarded given missing =>
        simp [problem?, TransitionDecl.guardProblem?, given, missing]
  · intro found
    cases site with
    | state earlier id =>
        obtain ⟨again, same⟩ := Option.ite_none_right_eq_some.mp found
        cases same
        exact .repeated again
    | reference owner ref => exact faulty_reference found
    | initial id =>
        obtain ⟨unknown, rfl⟩ := unknownState?_eq_some_iff.mp found
        exact .startsNowhere unknown
    | source declaration =>
        obtain ⟨unknown, rfl⟩ := unknownState?_eq_some_iff.mp found
        exact .leavesNowhere unknown
    | target declaration =>
        obtain ⟨target, given, found⟩ := Option.bind_eq_some_iff.mp found
        obtain ⟨unknown, rfl⟩ := unknownState?_eq_some_iff.mp found
        exact .leadsNowhere given unknown
    | kind declaration => exact faulty_kind found
    | guard declaration => exact faulty_guard found

end Site

theorem stateProblems_congr {declared declared' : List StateId}
    (same : ∀ id, id ∈ declared ↔ id ∈ declared') (entries : List (StateId × Traits δ γ)) :
    stateProblems declared entries = stateProblems declared' entries := by
  induction entries generalizing declared declared' with
  | nil => rfl
  | cons entry entries ih =>
      obtain ⟨id, traits⟩ := entry
      have sameNext (other : StateId) : other ∈ id :: declared ↔ other ∈ id :: declared' := by
        rw [List.mem_cons, List.mem_cons, same]
      simp only [stateProblems, same, ih sameNext]

theorem stateProblems_cons {declared : List StateId} {id : StateId} {traits : Traits δ γ}
    {entries : List (StateId × Traits δ γ)} :
    stateProblems declared ((id, traits) :: entries) =
      (if id ∈ declared then [.configuration (.declaredTwice id)] else []) ++
        ActionRef.problems (.state id) traits.entry ++
        ActionRef.problems (.state id) traits.exit ++
        stateProblems (declared ++ [id]) entries := by
  rw [stateProblems]
  congr 1
  exact stateProblems_congr (fun other => by simp [or_comm]) entries

theorem stateProblems_append (declared : List StateId)
    (entries later : List (StateId × Traits δ γ)) :
    stateProblems declared (entries ++ later) =
      stateProblems declared entries ++ stateProblems (declared ++ entries.map Prod.fst) later := by
  induction entries generalizing declared with
  | nil => rw [List.nil_append, List.map_nil, List.append_nil]; rfl
  | cons entry entries ih =>
      obtain ⟨id, traits⟩ := entry
      rw [List.cons_append, stateProblems_cons, stateProblems_cons, ih, List.map_cons]
      simp only [List.append_assoc, List.singleton_append]

section

variable {declared : List StateId} {registry : Registry δ γ}

theorem filterMap_references (owner : Owner) (refs : Option (List (ActionRef δ γ))) :
    (Site.references owner refs).filterMap (Site.problem? declared registry) =
      ActionRef.problems owner refs := by
  rw [Site.references, List.filterMap_map]
  rfl

mutual

theorem StateDecl.filterMap_sites :
    ∀ (state : StateDecl δ γ) (earlier : List StateId),
      (state.sites earlier).filterMap (Site.problem? declared registry) =
        stateProblems earlier state.preorder
  | .mk id traits children, earlier => by
      have first : [Site.state earlier id].filterMap (Site.problem? declared registry) =
          if id ∈ earlier then [.configuration (.declaredTwice id)] else [] := by
        by_cases again : id ∈ earlier <;> simp [Site.problem?, again]
      rw [StateDecl.sites, ← List.singleton_append, List.filterMap_append, List.filterMap_append,
        List.filterMap_append, first, filterMap_references, filterMap_references,
        filterMap_sitesOf children, StateDecl.preorder, stateProblems_cons]
      simp only [List.append_assoc]

theorem filterMap_sitesOf :
    ∀ (states : List (StateDecl δ γ)) (earlier : List StateId),
      (sitesOf earlier states).filterMap (Site.problem? declared registry) =
        stateProblems earlier (preorderOf states)
  | [], earlier => rfl
  | state :: rest, earlier => by
      rw [sitesOf, List.filterMap_append, state.filterMap_sites, filterMap_sitesOf rest, preorderOf,
        stateProblems_append]

end

theorem TransitionDecl.filterMap_sites (declaration : TransitionDecl δ γ) :
    declaration.sites.filterMap (Site.problem? declared registry) =
      declaration.problems declared registry := by
  rw [sites, List.filterMap_append, filterMap_references, problems]
  simp only [filterMap_cons_eq_append, List.filterMap_nil, List.append_nil, List.append_assoc]
  rfl

end

namespace Layer

variable {layer : Layer δ γ} {registry : Registry δ γ} {problems : List BuildError}

theorem filterMap_sites (layer : Layer δ γ) (registry : Registry δ γ) :
    layer.sites.filterMap (Site.problem? (layer.declaredStates.map Prod.fst) registry) =
      layer.problems registry := by
  have initialEq : (layer.initial.toList.map Site.initial).filterMap
      (Site.problem? (layer.declaredStates.map Prod.fst) registry) =
        (layer.initial.bind
          (unknownState? (layer.declaredStates.map Prod.fst) .machineInitial)).toList := by
    cases layer.initial with
    | none => rfl
    | some id => exact (filterMap_cons_eq_append _ _ _).trans (List.append_nil _)
  rw [sites, List.filterMap_append, List.filterMap_append, filterMap_sitesOf, initialEq,
    List.filterMap_flatMap]
  simp only [TransitionDecl.filterMap_sites]
  rfl

theorem reports_iff : layer.Reports registry problems ↔ problems = layer.problems registry := by
  rw [Reports, onePer_iff Site.faulty_iff, filterMap_sites]

theorem error_of_check {error : BuildError} (failed : layer.check registry = .error error) :
    layer.problems registry = [error] ∨
      2 ≤ (layer.problems registry).length ∧ error = .several (layer.problems registry) := by
  unfold check at failed
  split at failed
  · contradiction
  · next problem found =>
    cases failed
    exact Or.inl found
  · next nonempty notOne =>
    cases failed
    right
    cases found : layer.problems registry with
    | nil => exact absurd found nonempty
    | cons first rest =>
        cases rest with
        | nil => exact absurd found (notOne first)
        | cons second rest => exact ⟨by simp, rfl⟩

end Layer

/--
Whatever layers and registry, there is just one list with a problem for each faulty site of the
merged layer, in the order of the sites.  Compiling fails if the list is not empty, and the error is
the problem itself if there is only one, and else all of them in this order.
-/
theorem Chart.ofLayers_reports_faulty_sites (chain : List (Layer δ γ)) (registry : Registry δ γ) :
    ∃ problems, (∀ listed, (Layer.merge chain).Reports registry listed ↔ listed = problems) ∧
      ((∃ error, Chart.ofLayers chain registry = .error error) ↔ problems ≠ []) ∧
      ∀ error, Chart.ofLayers chain registry = .error error →
        error.problems = problems ∧
          (problems = [error] ∨ 2 ≤ problems.length ∧ error = .several problems) := by
  refine ⟨_, fun listed => Layer.reports_iff, ⟨?_, fun nonempty => ?_⟩, fun error failed => ?_⟩
  · rintro ⟨error, failed⟩
    exact (Layer.problems_of_check_eq_error (Chart.ofLayers_eq_error_iff.mp failed)).1
  · obtain ⟨error, failed, _⟩ := Chart.exists_error_of_problems nonempty
    exact ⟨error, failed⟩
  · have checked := Chart.ofLayers_eq_error_iff.mp failed
    exact ⟨(Layer.problems_of_check_eq_error checked).2, Layer.error_of_check checked⟩

def broken : List (Layer Unit Unit) :=
  [ { states := [.mk ⟨"A"⟩ { entry := some [.written "a", .written "a:b"] } [.mk ⟨"A"⟩ {} []]]
      transitions :=
        [ { source := ⟨"C"⟩
            target := some ⟨"A"⟩
            event := ⟨"go"⟩
            guard := some (.named "ready")
            actions := some [.named " " 10]
            kind := some .internal } ] },
    { initial := some ⟨"D"⟩
      transitions := [{ source := ⟨"A"⟩, target := some ⟨"E"⟩, event := ⟨"go"⟩ }] } ]

theorem Chart.ofLayers_reports_faulty_sites_broken :
    ∃ error, Chart.ofLayers broken {} = .error error ∧
      error.problems =
        [ .configuration (.descriptorOf (.state ⟨"A"⟩) (.badWeight "a:b" "b")),
          .configuration (.declaredTwice ⟨"A"⟩),
          .unknownState ⟨"D"⟩ .machineInitial,
          .unknownState ⟨"C"⟩ (.declaration (.transition ⟨"C"⟩ ⟨"go"⟩)),
          .configuration (.internalDeclared (.transition ⟨"C"⟩ ⟨"go"⟩) ⟨"A"⟩),
          .configuration (.guardUnknown (.transition ⟨"C"⟩ ⟨"go"⟩) "ready"),
          .configuration (.emptyReference (.transition ⟨"C"⟩ ⟨"go"⟩)),
          .unknownState ⟨"E"⟩ (.declaration (.transition ⟨"A"⟩ ⟨"go"⟩)) ] := by
  obtain ⟨problems, listed, fails, reports⟩ :=
    Chart.ofLayers_reports_faulty_sites broken {}
  have problemsEq := (listed _).mp (Layer.reports_iff.mpr rfl)
  have nonempty : problems ≠ [] := by
    rw [← problemsEq]
    cbv
    simp
  obtain ⟨error, failed⟩ := fails.mpr nonempty
  refine ⟨error, failed, ?_⟩
  rw [(reports error failed).1, ← problemsEq]
  cbv

end Statechart
