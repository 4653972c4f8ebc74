import Statechart.Proofs.Chart.Compiled
import Statechart.Proofs.Run.Departure
import Statechart.Proofs.Run.Session

namespace Statechart

variable {δ γ : Type}

namespace Chart

variable {chart : Chart δ γ} {composite : Node δ γ} {departure : Option Departure}
  {memory : Memory} {journal : Journal} {active : List (Node δ γ)} {leaf : StateId}

/-- Where landing on a composite leads after a departure from it. -/
structure Restores (chart : Chart δ γ) (composite : Node δ γ) (departure : Option Departure)
    (leaf : StateId) : Prop where
  afresh : composite.history = .none ∨ departure = none →
    chart.forest.DefaultsTo composite.id leaf
  shallow : composite.history = .shallow → ∀ last child, departure = some last →
    chart.forest.node? last.child = some child → child.isFinal = false →
    chart.forest.DefaultsTo last.child leaf
  deep : composite.history = .deep → ∀ last, departure = some last →
    (∀ node ∈ chart.forest.lineage last.leaf, last.child ∈ chart.forest.ancestors node.id →
      node.isFinal = false) →
    leaf = last.leaf

theorem Way.exists_child (wellFormed : chart.forest.WellFormed)
    (found : chart.forest.node? composite.id = some composite) {last : Departure}
    {path : List (Node δ γ)} (way : chart.Way composite last path) :
    ∃ inner child, path = inner ++ [child] ∧ child.id = last.child ∧
      chart.forest.node? child.id = some child ∧ child.parent = some composite.id := by
  obtain ⟨child, lastEq, idEq⟩ := Option.map_eq_some_iff.mp way.child_eq
  obtain ⟨inner, rfl⟩ := List.getLast?_eq_some_iff.mp lastEq
  have up := wellFormed.ascends_lineage last.leaf
  rw [way.lineage_eq, List.append_assoc, List.singleton_append,
    wellFormed.lineage_eq_cons found] at up
  exact ⟨inner, child, rfl, idEq, up.of_append.found_of_mem List.mem_cons_self,
    up.of_append.parent_eq⟩

theorem Way.within (wellFormed : chart.forest.WellFormed)
    (found : chart.forest.node? composite.id = some composite) {last : Departure}
    {path : List (Node δ γ)} (way : chart.Way composite last path) {node : Node δ γ}
    (member : node ∈ path) : last.child ∈ chart.forest.ancestors node.id := by
  obtain ⟨inner, child, pathEq, idEq, _, _⟩ := way.exists_child wellFormed found
  obtain ⟨before, after, split⟩ := List.append_of_mem member
  have up := wellFormed.ascends_lineage last.leaf
  rw [way.lineage_eq, split, List.append_assoc, List.cons_append] at up
  have childListed : child ∈ node :: after := by
    have lastEq : (before ++ node :: after).getLast? = some child := by
      rw [← split, pathEq, List.getLast?_concat]
    rw [List.getLast?_append_of_ne_nil _ (List.cons_ne_nil node after)] at lastEq
    exact List.mem_of_getLast? lastEq
  rw [Forest.ancestors, up.of_append.lineage_eq, ← idEq]
  exact List.mem_map_of_mem (List.mem_append_left _ childListed)

section

variable {last : Departure}

theorem defaultsTo_of_land (wellFormed : chart.forest.WellFormed)
    (found : chart.forest.node? composite.id = some composite)
    (recalls : chart.Recalls composite departure memory (chart.forest.lineage composite.id))
    (rests : (chart.land memory composite.id).rest = .ok leaf)
    (afresh : composite.history = .none ∨ departure = none) :
    chart.forest.DefaultsTo composite.id leaf := by
  rw [land_eq_descend found] at rests
  rcases afresh with without | never
  · rw [without] at rests
    exact defaultsTo_of_descend wellFormed found rests
  · rw [descend_of_none (recalls.nothing never)] at rests
    exact defaultsTo_of_descend wellFormed found rests

theorem defaultsTo_of_land_shallow (wellFormed : chart.forest.WellFormed)
    (found : chart.forest.node? composite.id = some composite)
    (notFinal : composite.isFinal = false)
    (recalls : chart.Recalls composite departure memory (chart.forest.lineage composite.id))
    (rests : (chart.land memory composite.id).rest = .ok leaf)
    (shallow : composite.history = .shallow) (departed : departure = some last)
    {child : Node δ γ} (childFound : chart.forest.node? last.child = some child)
    (childGoesOn : child.isFinal = false) : chart.forest.DefaultsTo last.child leaf := by
  obtain ⟨path, way, remembered, _⟩ := recalls.way last departed
  obtain ⟨inner, node, rfl, idEq, nodeFound, parent⟩ := way.exists_child wellFormed found
  rw [← idEq, nodeFound] at childFound
  cases childFound
  have kept := remembered (by simp [shallow]) child List.getLast?_concat childGoesOn
  rw [land_eq_descend found, shallow] at rests
  rw [← idEq]
  exact defaultsTo_of_shallow wellFormed nodeFound parent found notFinal kept rests

theorem leaf_eq_of_land_deep (wellFormed : chart.forest.WellFormed)
    (found : chart.forest.node? composite.id = some composite)
    (notFinal : composite.isFinal = false)
    (recalls : chart.Recalls composite departure memory (chart.forest.lineage composite.id))
    (rests : (chart.land memory composite.id).rest = .ok leaf)
    (deep : composite.history = .deep) (departed : departure = some last)
    (wayGoesOn : ∀ node ∈ chart.forest.lineage last.leaf,
      last.child ∈ chart.forest.ancestors node.id → node.isFinal = false) :
    leaf = last.leaf := by
  obtain ⟨path, way, _, retraces⟩ := recalls.way last departed
  have pathGoesOn (node : Node δ γ) (member : node ∈ path) : node.isFinal = false := by
    refine wayGoesOn node ?_ (way.within wellFormed found member)
    rw [way.lineage_eq]
    exact List.mem_append_left _ member
  have remembered := retraces deep
    (fun node member => wellFormed.parent_ne_of_mem_lineage member) pathGoesOn
  have lineageEq : chart.forest.lineage last.leaf =
      path.reverse.reverse ++ chart.forest.lineage composite.id := by
    rw [List.reverse_reverse, way.lineage_eq]
  have goesOn : ∀ node ∈ composite :: path.reverse, node.isFinal = false := by
    intro node member
    rcases List.mem_cons.mp member with rfl | below
    · exact notFinal
    · exact pathGoesOn node (List.mem_reverse.mp below)
  have follows : Retraces memory path.reverse := fun node member =>
    remembered node (List.mem_reverse.mp member)
  have enough : chart.forest.size < composite.level + chart.forest.size := by
    have := wellFormed.level_pos found
    omega
  have restored := rest_of_deep wellFormed found lineageEq goesOn follows way.atRest enough
  rw [land_eq_descend found, deep, restored] at rests
  exact (Except.ok.inj rests).symm

theorem restores_of_land (wellFormed : chart.forest.WellFormed)
    (found : chart.forest.node? composite.id = some composite)
    (notFinal : composite.isFinal = false)
    (recalls : chart.Recalls composite departure memory (chart.forest.lineage composite.id))
    (rests : (chart.land memory composite.id).rest = .ok leaf) :
    chart.Restores composite departure leaf where
  afresh := defaultsTo_of_land wellFormed found recalls rests
  shallow shallow _ _ departed :=
    defaultsTo_of_land_shallow wellFormed found notFinal recalls rests shallow departed
  deep deep _ departed :=
    leaf_eq_of_land_deep wellFormed found notFinal recalls rests deep departed

end

theorem Recalls.inward (recalls : chart.Recalls composite journal.departure memory active)
    {calls : List (PlannedCall δ γ)} (inward : Inward calls) :
    chart.Recalls composite
      ((calls.map Call.named).foldl (Journal.call chart.forest composite.id) journal).departure
      (calls.foldl chart.rememberCall memory) active := by
  rw [Journal.calls_of_ne, foldl_rememberCall_of_inward inward]
  · exact recalls
  · intro node member
    exact absurd member (inward node)

theorem rest_landAfter (wellFormed : chart.forest.WellFormed) (memory : Memory)
    (calls : List (PlannedCall δ γ)) {id : StateId} (known : chart.forest.contains id = true) :
    (chart.landAfter memory calls id).rest =
      (chart.land ((chart.landAfter memory calls id).calls.foldl chart.rememberCall memory)
        id).rest := by
  obtain ⟨entered, leaf, landEq, _, _⟩ :=
    land_eq wellFormed (calls.foldl chart.rememberCall memory) known
  rw [landAfter, Plan.calls_after, Plan.rest_after, List.foldl_append, landEq,
    foldl_rememberCall_of_inward (inward_enters entered), landEq]

/-- When a transition has entered its target, the memory agrees with the last departure. -/
theorem recalls_of_route (wellFormed : chart.forest.WellFormed)
    (found : chart.forest.node? composite.id = some composite)
    (atRest : chart.forest.AtRest journal.current)
    (recalls : chart.Recalls composite journal.departure memory
      (chart.forest.lineage journal.current))
    {transition : Transition δ γ} {exits enters descent : List (Node δ γ)}
    (route : chart.Route journal.current transition exits enters descent leaf) :
    chart.Recalls composite
      (((routeCalls transition exits enters descent).map Call.named).foldl
        (Journal.call chart.forest composite.id) journal).departure
      ((routeCalls transition exits enters descent).foldl chart.rememberCall memory)
      (chart.forest.lineage transition.target) := by
  have outward := recalls_of_exits wellFormed found atRest route.current_eq recalls
  have entered := outward.enter enters
  have inward := (inward_enters (enters.reverse ++ descent)).perform transition
  rw [← route.target_eq] at entered
  rw [routeCalls, List.map_append, List.foldl_append, List.foldl_append]
  exact entered.inward inward

theorem recalls_of_start (wellFormed : chart.forest.WellFormed) {initial : StateId}
    (known : chart.forest.contains initial = true) {event : EventId} {context : γ}
    {work : Work δ γ} {effect : Effect δ γ Outcome}
    (forgotten : work.memory.child? composite.id = none) (never : journal.departure = none)
    (started : chart.start initial event context work = .ok effect)
    (rested : effect.result = .rested leaf) :
    chart.forest.AtRest leaf ∧
      (∀ active, chart.Recalls composite
        ((Note.calls effect.notes).foldl (Journal.call chart.forest composite.id)
          journal).departure effect.work.memory active) ∧
      (chart.land effect.work.memory initial).rest = .ok leaf := by
  obtain ⟨rests, callsEq, memoryEq⟩ := carryOut_rested started rested
  obtain ⟨descent, leaf', planEq, atRest, _⟩ := startPlan_eq wellFormed work.memory known
  have landed := rest_landAfter wellFormed work.memory
    ((chart.forest.lineage initial).reverse.map .enter) known
  rw [← startPlan, rests, ← memoryEq] at landed
  rw [planEq] at rests callsEq memoryEq
  cases rests
  refine ⟨atRest, fun active => ?_, landed.symm⟩
  have nothing : chart.Recalls composite journal.departure work.memory active := by
    refine ⟨fun _ => forgotten, fun last departed => ?_⟩
    rw [never] at departed
    contradiction
  rw [callsEq, memoryEq]
  exact nothing.inward (inward_enters ((chart.forest.lineage initial).reverse ++ descent))

theorem recalls_of_fire (wellFormed : chart.WellFormed)
    (found : chart.forest.node? composite.id = some composite)
    (atRest : chart.forest.AtRest journal.current) {finishEvent : EventId}
    {occurrence : Occurrence γ} {work : Work δ γ} {effect : Effect δ γ Outcome}
    (fired : chart.fire journal.current finishEvent occurrence work = .ok (some effect))
    (rested : effect.result = .rested leaf)
    (recalls : chart.Recalls composite journal.departure work.memory
      (chart.forest.lineage journal.current)) :
    chart.forest.AtRest leaf ∧
      chart.Recalls composite
        ((Note.calls effect.notes).foldl (Journal.call chart.forest composite.id)
          journal).departure effect.work.memory (chart.forest.lineage leaf) ∧
      ∀ transition, chart.select? journal.current occurrence = some transition →
        transition.kind ≠ .internal →
        chart.Recalls composite
          ((Note.calls effect.notes).foldl (Journal.call chart.forest composite.id)
            journal).departure effect.work.memory (chart.forest.lineage transition.target) ∧
        (chart.land effect.work.memory transition.target).rest = .ok leaf := by
  obtain ⟨transition, selected, rests, callsEq, memoryEq⟩ := fire_rested fired rested
  obtain ⟨around, known, _, _⟩ := wellFormed.select?_eq_some selected
  rw [callsEq, memoryEq]
  by_cases internal : transition.kind = .internal
  · rw [transitionPlan_of_internal internal] at rests ⊢
    cases rests
    have inward : Inward [.perform transition] := (inward_enters []).perform transition
    refine ⟨atRest, recalls.inward inward, fun transition' selected' moves => ?_⟩
    cases selected.symm.trans selected'
    contradiction
  · obtain ⟨exits, enters, descent, leaf', route, planEq⟩ :=
      exists_route wellFormed.forest work.memory around known internal
    have landed := rest_landAfter wellFormed.forest work.memory
      (chart.unwind journal.current transition.source ++
        passage transition (chart.forest.lineage transition.source)
          (chart.forest.lineage transition.target)) known
    rw [← transitionPlan_of_moves internal, rests] at landed
    rw [planEq] at rests landed ⊢
    cases rests
    have recalled := recalls_of_route wellFormed.forest found atRest recalls route
    refine ⟨route.rests, ?_, fun transition' selected' moves => ?_⟩
    · rw [route.leaf_eq]
      exact recalled.enter descent.reverse
    · cases selected.symm.trans selected'
      exact ⟨recalled, landed.symm⟩

end Chart

namespace Machine

variable {machine next : Machine δ γ} {notes : List (Note γ)} {composite : Node δ γ}
  {journal : Journal} {chart : Chart δ γ}

theorem follow_tellOf (machine : Machine δ γ) (occurrence : Occurrence γ) (stage : Stage)
    {forest : Forest δ γ} {id : StateId} :
    journal.follow forest id (machine.tellOf occurrence stage) =
      journal.note forest id
        (.notified (.step stage machine.current occurrence.event occurrence.context)) := by
  unfold tellOf tell
  dsimp only
  split <;> split <;> rfl

/-- The journal of a session agrees with the machine. -/
def Recalls (machine : Machine δ γ) (composite : Node δ γ) (journal : Journal) : Prop :=
  machine.InPhase
    (journal.departure = none ∧ machine.memory.child? composite.id = none ∧
      machine.chart.forest.contains machine.current = true)
    (journal.current = machine.current ∧ machine.chart.forest.AtRest machine.current ∧
      machine.chart.Recalls composite journal.departure machine.memory
        (machine.chart.forest.lineage machine.current))
    True

theorem follow_completed (machine : Machine δ γ) (occurrence : Occurrence γ) (leaf : StateId)
    {forest : Forest δ γ} {id : StateId} (quiet : Note.notifications notes = []) :
    journal.follow forest id
        (machine.tellOf occurrence .began ++ notes ++
          machine.tellOf occurrence (.completed leaf) ++ machine.tellOf occurrence .ended) =
      { (Note.calls notes).foldl (Journal.call forest id) journal with current := leaf } := by
  rw [Journal.follow_append, Journal.follow_append, Journal.follow_append, follow_tellOf,
    follow_tellOf, follow_tellOf]
  simp only [Journal.note]
  rw [Journal.follow_of_quiet quiet]

theorem recalls_of_handled {occurrence : Occurrence γ}
    (handled : Handled machine occurrence next notes) (wellFormed : machine.chart.WellFormed)
    (found : machine.chart.forest.node? composite.id = some composite)
    (status : machine.status = .busy) (recalls : machine.Recalls composite journal) :
    next.Recalls composite (journal.follow machine.chart.forest composite.id notes) := by
  obtain ⟨currentEq, atRest, active⟩ := (inPhase_of_active (Or.inr status)).mp recalls
  cases handled with
  | declined fired =>
      rw [Journal.follow_append, Journal.follow_append, follow_tellOf, follow_tellOf,
        follow_tellOf]
      exact recalls
  | @completed effect leaf fired rested =>
      rw [← currentEq] at fired atRest active
      obtain ⟨atRest', active', _⟩ :=
        Chart.recalls_of_fire wellFormed found atRest fired rested active
      rw [follow_completed machine occurrence leaf (Chart.accounted_fire fired).quiet]
      exact (inPhase_of_active (Or.inr status)).mpr ⟨rfl, atRest', active'⟩
  | failed fired failed => exact inPhase_of_error rfl

theorem recalls_of_move (move : Move machine notes next) (wellFormed : machine.chart.WellFormed)
    (found : machine.chart.forest.node? composite.id = some composite)
    (recalls : machine.Recalls composite journal) :
    next.Recalls composite (journal.follow machine.chart.forest composite.id notes) := by
  cases move with
  | launch status started rested =>
      obtain ⟨never, forgotten, known⟩ := (inPhase_of_initialized status).mp recalls
      obtain ⟨atRest, active, _⟩ :=
        Chart.recalls_of_start wellFormed.forest known forgotten never started rested
      rw [Journal.follow_append, Journal.follow_of_quiet (Chart.accounted_carryOut started).quiet]
      exact (inPhase_of_active (Or.inr rfl)).mpr ⟨rfl, atRest, active _⟩
  | collapse status started failed => exact inPhase_of_error rfl
  | take status =>
      have active := (inPhase_of_active status).mp recalls
      exact (inPhase_of_active (Or.inr rfl)).mpr active
  | handle status waiting processed =>
      have step := recalls_of_handled (handled_of_process processed) wellFormed found status recalls
      exact step
  | settle status empty =>
      have active := (inPhase_of_active (Or.inr status)).mp recalls
      exact (inPhase_of_active (Or.inl rfl)).mpr active
  | @shutdown context status =>
      rcases status_shutdown machine context with ended | failed
      · exact (inPhase_of_terminated ended).mpr trivial
      · exact inPhase_of_error failed
  | abandon status => exact (inPhase_of_terminated rfl).mpr trivial
  | adjust options observers data => exact recalls

theorem recalls_of_moves (moves : Moves machine notes next) (wellFormed : machine.chart.WellFormed)
    (found : machine.chart.forest.node? composite.id = some composite)
    (recalls : machine.Recalls composite journal) :
    next.Recalls composite (journal.follow machine.chart.forest composite.id notes) := by
  induction moves generalizing journal with
  | refl => exact recalls
  | step move _ ih =>
      have chartEq := move.chart_eq
      have rest := ih (chartEq ▸ wellFormed) (chartEq ▸ found)
        (recalls_of_move move wellFormed found recalls)
      rw [chartEq] at rest
      rw [Journal.follow_append]
      exact rest

/-- A move that lands on a state: the start, or a transition to it that completes. -/
inductive Lands (target : StateId) : Machine δ γ → List (Note γ) → Machine δ γ → Prop where
  | start {machine : Machine δ γ} {context : γ} {effect : Effect δ γ Chart.Outcome}
      {leaf : StateId} (status : machine.status = .initialized)
      (initial : machine.current = target)
      (started : machine.chart.start machine.current machine.options.startEvent context
        machine.toWork = .ok effect)
      (rested : effect.result = .rested leaf) :
      Lands target machine
        (effect.notes ++ [.logged (.started leaf), .notified (.started leaf context)])
        (machine.launched effect leaf)
  | transition {machine next : Machine δ γ} {occurrence : Occurrence γ}
      {queue : List (Occurrence γ)} {notes : List (Note γ)} {transition : Transition δ γ}
      (status : machine.status = .busy) (waiting : machine.queue = occurrence :: queue)
      (selected : machine.chart.select? machine.current occurrence = some transition)
      (moves : transition.kind ≠ .internal) (declared : transition.target = target)
      (processed : process { machine with queue } occurrence = .ok (next, notes))
      (completes : next.status ≠ .error) : Lands target machine notes next

theorem Lands.move {target : StateId} (lands : Lands target machine notes next) :
    Move machine notes next := by
  cases lands with
  | start status _ started rested => exact .launch status started rested
  | transition status waiting _ _ _ processed _ => exact .handle status waiting processed

theorem restores_of_lands (lands : Lands composite.id machine notes next)
    (wellFormed : machine.chart.WellFormed)
    (found : machine.chart.forest.node? composite.id = some composite)
    (notFinal : composite.isFinal = false) (recalls : machine.Recalls composite journal) :
    machine.chart.Restores composite
      (journal.follow machine.chart.forest composite.id notes).departure next.current := by
  cases lands with
  | start status initial started rested =>
      obtain ⟨never, forgotten, known⟩ := (inPhase_of_initialized status).mp recalls
      obtain ⟨_, active, landed⟩ :=
        Chart.recalls_of_start wellFormed.forest known forgotten never started rested
      rw [initial] at landed
      rw [Journal.follow_append, Journal.follow_of_quiet (Chart.accounted_carryOut started).quiet]
      exact Chart.restores_of_land wellFormed.forest found notFinal (active _) landed
  | transition status waiting selected moves declared processed completes =>
      obtain ⟨currentEq, atRest, active⟩ := (inPhase_of_active (Or.inr status)).mp recalls
      cases handled_of_process processed with
      | declined fired =>
          have unselected := Chart.fire_eq_ok_none fired
          rw [selected] at unselected
          contradiction
      | @completed effect leaf fired rested =>
          rw [follow_completed _ _ leaf (Chart.accounted_fire fired).quiet]
          dsimp only at fired
          rw [← currentEq] at fired atRest active selected
          obtain ⟨_, _, landing⟩ :=
            Chart.recalls_of_fire wellFormed found atRest fired rested active
          obtain ⟨recalled, landed⟩ := landing _ selected moves
          rw [declared] at recalled landed
          exact Chart.restores_of_land wellFormed.forest found notFinal recalled landed
      | failed fired failed => exact absurd rfl completes

/--
Throughout a session, landing on a composite restores what the last departure from it left, whatever
happened since: with shallow history the child that was left, gone down from by default, and with
deep history the state that was the current one.  Without history, or before any departure, landing
goes down by default.
-/
theorem landing_restores {chain : List (Layer δ γ)} {registry : Registry δ γ}
    (compiled : Chart.ofLayers chain registry = .ok chart) {initial : StateId} {data : δ}
    (created : startingIn chart initial data = .ok machine)
    (found : chart.forest.node? composite.id = some composite)
    (notFinal : composite.isFinal = false) {before after : Machine δ γ} {later : List (Note γ)}
    (moves : Moves machine notes before) (lands : Lands composite.id before later after) :
    chart.Restores composite
      (Journal.follow chart.forest composite.id ⟨initial, none⟩ (notes ++ later)).departure
      after.current := by
  have wellFormed := Chart.wellFormed_of_ofLayers compiled
  obtain ⟨known, rfl⟩ := startingIn_eq_ok created
  have recalls : Recalls { data, chart, current := initial } composite ⟨initial, none⟩ :=
    (inPhase_of_initialized rfl).mpr ⟨rfl, rfl, known⟩
  have recalls' := recalls_of_moves moves wellFormed found recalls
  have chartEq : before.chart = chart := moves.chart_eq
  rw [← chartEq] at found wellFormed
  have restores := restores_of_lands lands wellFormed found notFinal recalls'
  rw [chartEq] at restores
  rw [Journal.follow_append]
  exact restores

/-- `P` keeps deep history and holds `C`, with `E` and `F` in it; `x` leads into `P` and out. -/
def errand : Layer Unit Unit where
  states :=
    [.mk ⟨"A"⟩ {} [],
      .mk ⟨"P"⟩ { history := some .deep } [.mk ⟨"C"⟩ {} [.mk ⟨"E"⟩ {} [], .mk ⟨"F"⟩ {} []]]]
  transitions :=
    [{ source := ⟨"A"⟩, target := some ⟨"P"⟩, event := ⟨"x"⟩ },
      { source := ⟨"E"⟩, target := some ⟨"F"⟩, event := ⟨"y"⟩ },
      { source := ⟨"P"⟩, target := some ⟨"A"⟩, event := ⟨"x"⟩ }]

def errandActs : List (Act Unit Unit) :=
  [⟨"x"⟩, ⟨"y"⟩, ⟨"x"⟩].map fun event => .ask 3 (.fire event ())

theorem landing_restores_errand :
    ∃ (chart : Chart Unit Unit) (machine before after : Machine Unit Unit)
      (composite : Node Unit Unit) (notes later : List (Note Unit)),
      Chart.ofLayers [errand] {} = .ok chart ∧ startingIn chart ⟨"A"⟩ () = .ok machine ∧
      composite.id = ⟨"P"⟩ ∧ composite.history = .deep ∧ Moves machine notes before ∧
      Lands composite.id before later after ∧
      (Journal.follow chart.forest composite.id ⟨⟨"A"⟩, none⟩ (notes ++ later)).departure =
        some ⟨⟨"C"⟩, ⟨"F"⟩⟩ ∧
      after.current = ⟨"F"⟩ := by
  have session : ((Chart.ofLayers [errand] {}).toOption.bind fun chart =>
      (startingIn chart ⟨"A"⟩ ()).toOption.bind fun machine =>
        (machine.run errandActs).toOption.bind fun ending =>
          (chart.forest.node? ⟨"P"⟩).bind fun composite =>
            (ending.1.chart.select? ending.1.current ⟨⟨"x"⟩, ()⟩).bind fun transition =>
              (process { ending.1 with queue := [], status := .busy } ⟨⟨"x"⟩, ()⟩).toOption.map
                fun landing =>
                  decide (composite.isFinal = false ∧ composite.history = .deep ∧
                    ending.1.status = .idle ∧ ending.1.queue = [] ∧
                    transition.kind ≠ .internal ∧ transition.target = ⟨"P"⟩ ∧
                    landing.1.status ≠ .error ∧
                    (Journal.follow chart.forest ⟨"P"⟩ ⟨⟨"A"⟩, none⟩
                      (ending.2 ++ [.queued .caller ⟨⟨"x"⟩, ()⟩] ++ landing.2)).departure =
                      some ⟨⟨"C"⟩, ⟨"F"⟩⟩ ∧
                    ∀ node ∈ chart.forest.lineage ⟨"F"⟩, node.isFinal = false)) =
      some true := by
    simp only [Chart.ofLayers, Layer.compile, Layer.build, Table.declare_empty]
    decide +kernel
  obtain ⟨chart, compiled, session⟩ := Option.bind_eq_some_iff.mp session
  obtain ⟨machine, created, session⟩ := Option.bind_eq_some_iff.mp session
  obtain ⟨⟨middle, notes⟩, done, session⟩ := Option.bind_eq_some_iff.mp session
  obtain ⟨composite, found, session⟩ := Option.bind_eq_some_iff.mp session
  obtain ⟨transition, selected, session⟩ := Option.bind_eq_some_iff.mp session
  obtain ⟨⟨after, later⟩, processed, landing⟩ := Option.map_eq_some_iff.mp session
  rw [toOption_eq_some_iff] at compiled created done processed
  obtain ⟨notFinal, deep, idle, empty, moves, declared, completes, departed, goesOn⟩ :=
    of_decide_eq_true landing
  have idEq : composite.id = ⟨"P"⟩ := Forest.id_of_node? found
  rw [← idEq] at found departed declared
  let before : Machine Unit Unit :=
    { middle with queue := middle.queue ++ [⟨⟨"x"⟩, ()⟩], status := .busy }
  have taken : Move middle [.queued .caller ⟨⟨"x"⟩, ()⟩] before := .take (Or.inl idle)
  have reached := (moves_of_run done).trans (.single taken)
  have waiting : before.queue = [⟨⟨"x"⟩, ()⟩] := congrArg (· ++ [⟨⟨"x"⟩, ()⟩]) empty
  have lands : Lands composite.id before later after :=
    .transition rfl waiting selected moves declared processed completes
  have restores := landing_restores compiled created found notFinal reached lands
  refine ⟨chart, machine, _, after, composite, _, later, compiled, created, idEq, deep, reached,
    lands, departed, ?_⟩
  exact restores.deep deep ⟨⟨"C"⟩, ⟨"F"⟩⟩ departed fun node member _ => goesOn node member

end Machine

end Statechart
