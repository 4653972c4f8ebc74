import Statechart.Proofs.Run.Lifecycle
import Statechart.Proofs.Run.Protocol

namespace Statechart

variable {δ γ : Type}

namespace Itinerary

/-- Passages that lead from a state to another one, each from where the one before ended. -/
inductive Leads {τ : Type} : StateId → List (Passage τ) → StateId → Prop where
  | none {state : StateId} : Leads state [] state
  | onward {passage : Passage τ} {passages : List (Passage τ)} {last : StateId}
      (rest : Leads passage.target passages last) :
      Leads passage.source (passage :: passages) last

namespace Leads

variable {τ : Type} {first middle last : StateId} {passages later : List (Passage τ)}

theorem single (passage : Passage τ) : Leads passage.source [passage] passage.target :=
  .onward .none

theorem append (leads : Leads first passages middle) (further : Leads middle later last) :
    Leads first (passages ++ later) last := by
  induction leads with
  | none => exact further
  | onward _ ih => exact .onward (ih further)

theorem path_eq (leads : Leads first passages last) (some_passage : passages ≠ []) :
    path ⟨passages⟩ = first :: passages.map Passage.target := by
  cases leads with
  | none => contradiction
  | onward rest => rfl

end Leads

end Itinerary

open Itinerary

namespace Notification

def passage? : Notification γ → Option (Passage Unit)
  | .step (.completed target) origin event _ => some ⟨origin, target, event, ()⟩
  | _ => none

def rest? : Notification γ → Option StateId
  | .started leaf _ => some leaf
  | .step (.completed target) _ _ _ => some target
  | _ => none

namespace Handlings

variable {first current : StateId} {told : List (Notification γ)}

theorem leads (handled : Handlings first told current) :
    Leads first (told.filterMap passage?) current := by
  induction handled with
  | none => exact .none
  | completed _ occurrence target ih =>
      rw [List.filterMap_append]
      exact ih.append (.single ⟨_, target, occurrence.event, ()⟩)
  | declined _ occurrence ih =>
      rw [List.filterMap_append]
      exact ih.append .none

theorem rests_eq (handled : Handlings first told current) :
    told.filterMap rest? = (told.filterMap passage?).map Passage.target := by
  induction handled with
  | none => rfl
  | completed _ _ _ ih => simp [ih, List.filterMap_cons, ofEvent, rest?, passage?]
  | declined _ _ ih => simp [ih, List.filterMap_cons, ofEvent, rest?, passage?]

theorem not_started (handled : Handlings first told current) (leaf : StateId) (context : γ) :
    .started leaf context ∉ told := by
  induction handled with
  | none => exact List.not_mem_nil
  | completed _ _ _ ih => simp [ih, ofEvent]
  | declined _ _ ih => simp [ih, ofEvent]

end Handlings

variable {initial current : StateId} {status : Status} {word : List (Notification γ)}

theorem Told.exists_handlings (told : Told initial status current word) {leaf : StateId}
    {context : γ} (started : .started leaf context ∈ word) :
    ∃ first context' groups tail, word = .started first context' :: (groups ++ tail) ∧
      Handlings first groups current ∧ ∀ notification ∈ tail, notification.rest? = none := by
  cases told with
  | silent => simp at started
  | abandoned => simp at started
  | collapsed error event context => simp at started
  | running _ first handled =>
      exact ⟨_, first, _, [], by rw [List.append_nil], handled, by simp⟩
  | terminated first handled last => exact ⟨_, first, _, _, rfl, handled, by simp [rest?]⟩
  | brokenEvent first handled occurrence error =>
      exact ⟨_, first, _, _, rfl, handled, by simp [ofEvent, rest?]⟩
  | brokenEnd first handled error event last =>
      exact ⟨_, first, _, _, rfl, handled, by simp [rest?]⟩

theorem passage?_of_rest? {notification : Notification γ} (restless : notification.rest? = none) :
    notification.passage? = none := by
  unfold rest? at restless
  unfold passage?
  split at restless <;> simp_all

theorem Told.of_started {leaf : StateId} {context : γ} (told : Told initial status current word)
    (started : .started leaf context ∈ word) :
    Leads leaf (word.filterMap passage?) current ∧
      word.filterMap rest? = leaf :: (word.filterMap passage?).map Passage.target := by
  obtain ⟨first, context', groups, tail, rfl, handled, restless⟩ := told.exists_handlings started
  -- Neither the events nor the end can tell of a second start.
  have same : leaf = first := by
    rcases List.mem_cons.mp started with same | later
    · exact (Notification.started.inj same).1
    rcases List.mem_append.mp later with early | late
    · exact absurd early (handled.not_started leaf context)
    · exact nomatch restless _ late
  have passages : (Notification.started first context' :: (groups ++ tail)).filterMap passage? =
      groups.filterMap passage? := by
    have silent : tail.filterMap passage? = [] :=
      List.filterMap_eq_nil_iff.mpr fun notification member =>
        passage?_of_rest? (restless notification member)
    rw [List.filterMap_cons_none rfl, List.filterMap_append, silent, List.append_nil]
  have rests : (Notification.started first context' :: (groups ++ tail)).filterMap rest? =
      first :: groups.filterMap rest? := by
    have silent : tail.filterMap rest? = [] := List.filterMap_eq_nil_iff.mpr restless
    simp [rest?, silent]
  rw [passages, rests, same, handled.rests_eq]
  exact ⟨handled.leads, rfl⟩

end Notification

open Notification

namespace Note

def passages (notes : List (Note γ)) : List (Passage Unit) :=
  (notifications notes).filterMap Notification.passage?

def rests (notes : List (Note γ)) : List StateId :=
  (notifications notes).filterMap Notification.rest?

@[simp] theorem passages_append (notes later : List (Note γ)) :
    passages (notes ++ later) = passages notes ++ passages later := by
  simp [passages]

@[simp] theorem rests_append (notes later : List (Note γ)) :
    rests (notes ++ later) = rests notes ++ rests later := by
  simp [rests]

end Note

namespace Machine

variable {machine next : Machine δ γ} {notes : List (Note γ)} {occurrence : Occurrence γ}

def passageOf (origin : StateId) (event : EventId) :
    Option (Effect δ γ Chart.Outcome) → List (Passage Unit)
  | some ⟨_, _, .rested leaf⟩ => [⟨origin, leaf, event, ()⟩]
  | _ => []

theorem Handled.records (handled : Handled machine occurrence next notes) :
    next.log.passages = machine.log.passages ++ Note.passages notes ∧
      ∃ fired, machine.chart.fire machine.current machine.options.finishEvent occurrence
          machine.toWork = .ok fired ∧
        Note.passages notes = passageOf machine.current occurrence.event fired := by
  cases handled with
  | declined fired =>
      have nothing : Note.passages (machine.tellOf occurrence .began ++
          machine.tellOf occurrence .declined ++ machine.tellOf occurrence .ended) = [] := by
        simp [Note.passages, List.filterMap_cons, passage?]
      exact ⟨by rw [nothing, List.append_nil], none, fired, nothing⟩
  | @completed effect leaf fired rested =>
      have one : Note.passages (machine.tellOf occurrence .began ++ effect.notes ++
          machine.tellOf occurrence (.completed leaf) ++ machine.tellOf occurrence .ended) =
          [⟨machine.current, leaf, occurrence.event, ()⟩] := by
        simp [Note.passages, List.filterMap_cons, passage?,
          (Chart.accounted_fire fired).quiet]
      refine ⟨by rw [one]; rfl, some effect, fired, one.trans ?_⟩
      obtain ⟨work, notes, result⟩ := effect
      cases rested
      rfl
  | @failed effect error fired failed =>
      have nothing : Note.passages (machine.tellOf occurrence .began ++ effect.notes ++
          machine.tellOf occurrence (.failed error) ++ machine.tellOf occurrence .ended) = [] := by
        simp [Note.passages, List.filterMap_cons, passage?,
          (Chart.accounted_fire fired).quiet]
      refine ⟨by rw [nothing, List.append_nil], some effect, fired, nothing.trans ?_⟩
      obtain ⟨work, notes, result⟩ := effect
      cases failed
      rfl

theorem Announces.passages_eq {word : List (Notification γ)} (announces : machine.Announces word) :
    word.filterMap passage? = [] := by
  cases announces <;> simp [passage?]

theorem Move.log_eq (move : Move machine notes next) :
    next.log.passages = machine.log.passages ++ Note.passages notes := by
  rcases move.handles_or_announces with ⟨_, _, _, _, processed⟩ | ⟨announces, kept⟩
  · exact (handled_of_process processed).records.1
  · rw [kept, Note.passages, announces.passages_eq, List.append_nil]

theorem Moves.log_eq (moves : Moves machine notes next) :
    next.log.passages = machine.log.passages ++ Note.passages notes := by
  induction moves with
  | refl => simp [Note.passages]
  | step move _ ih => rw [ih, move.log_eq, Note.passages_append, List.append_assoc]

theorem Moves.exists_handled (moves : Moves machine notes next) {passage : Passage Unit}
    (recorded : passage ∈ Note.passages notes) :
    ∃ told middle occurrence queue handled during, Moves machine told middle ∧
      middle.status = .busy ∧ middle.queue = occurrence :: queue ∧
      process { middle with queue } occurrence = .ok (handled, during) ∧
      passage ∈ Note.passages during := by
  induction moves with
  | refl => exact absurd recorded List.not_mem_nil
  | @step machine middle final first later move _ ih =>
      rw [Note.passages_append] at recorded
      rcases List.mem_append.mp recorded with now | afterwards
      · rcases move.handles_or_announces with handles | ⟨announces, _⟩
        · obtain ⟨occurrence, queue, status, waiting, processed⟩ := handles
          exact ⟨[], machine, occurrence, queue, middle, first, .refl, status, waiting, processed,
            now⟩
        · rw [Note.passages, announces.passages_eq] at now
          exact absurd now List.not_mem_nil
      · obtain ⟨told, taken, occurrence, queue, handled, during, reached, rest⟩ := ih afterwards
        exact ⟨first ++ told, taken, occurrence, queue, handled, during, .step move reached, rest⟩

theorem Handled.rests (handled : Handled machine occurrence next notes) :
    Note.rests notes = [] ∨ ∃ effect, machine.chart.fire machine.current
      machine.options.finishEvent occurrence machine.toWork = .ok (some effect) ∧
      effect.result = .rested next.current ∧ Note.rests notes = [next.current] := by
  cases handled with
  | declined fired => exact Or.inl (by simp [Note.rests, List.filterMap_cons, rest?])
  | @completed effect leaf fired rested =>
      exact Or.inr ⟨effect, fired, rested, by
        simp [Note.rests, List.filterMap_cons, rest?,
          (Chart.accounted_fire fired).quiet]⟩
  | failed fired failed =>
      exact Or.inl (by
        simp [Note.rests, List.filterMap_cons, rest?,
          (Chart.accounted_fire fired).quiet])

theorem Announces.atRest {word : List (Notification γ)} (announces : machine.Announces word)
    (orderly : machine.Orderly) :
    ∀ leaf ∈ word.filterMap rest?, machine.chart.forest.AtRest leaf := by
  cases announces with
  | started status started rested =>
      have rests := Chart.atRest_of_start orderly.wellFormed.forest orderly.known started rested
      simpa [rest?] using rests
  | _ => simp [rest?]

theorem atRest_of_move (orderly : machine.Orderly) (move : Move machine notes next) :
    ∀ leaf ∈ Note.rests notes, machine.chart.forest.AtRest leaf := by
  rcases move.handles_or_announces with ⟨occurrence, queue, status, _, processed⟩ | ⟨announces, _⟩
  · rcases (handled_of_process processed).rests with silent | ⟨effect, fired, rested, restsEq⟩
    · simp [silent]
    · rw [restsEq, List.forall_mem_singleton]
      exact Chart.atRest_of_fire orderly.wellFormed (orderly.rests (Or.inr status)) fired rested
  · exact announces.atRest orderly

theorem atRest_of_moves (orderly : machine.Orderly) (moves : Moves machine notes next) :
    ∀ leaf ∈ Note.rests notes, machine.chart.forest.AtRest leaf := by
  induction moves with
  | refl => simp [Note.rests]
  | step move _ ih =>
      rw [Note.rests_append, List.forall_mem_append]
      exact ⟨atRest_of_move orderly move, move.chart_eq ▸ ih (orderly.of_move move)⟩

theorem Move.launches_of_started {leaf : StateId} {context : γ} (move : Move machine notes next)
    (told : .started leaf context ∈ Note.notifications notes) :
    ∃ effect, machine.status = .initialized ∧ machine.chart.start machine.current
      machine.options.startEvent context machine.toWork = .ok effect ∧
      effect.result = .rested leaf := by
  rcases move.handles_or_announces with ⟨_, _, _, _, processed⟩ | ⟨announces, _⟩
  · obtain ⟨outcome, toldEq, _⟩ := (handled_of_process processed).notifications_eq
    simp [toldEq, ofEvent] at told
  · generalize Note.notifications notes = word at announces told
    cases announces with
    | started status started rested =>
        obtain ⟨rfl, rfl⟩ := Notification.started.inj (List.mem_singleton.mp told)
        exact ⟨_, status, started, rested⟩
    | _ => simp at told

theorem exists_start_of_started {chart : Chart δ γ} {initial : StateId} {data : δ}
    (created : startingIn chart initial data = .ok machine) (moves : Moves machine notes next)
    {leaf : StateId} {context : γ} (told : .started leaf context ∈ Note.notifications notes) :
    ∃ event work effect,
      chart.start initial event context work = .ok effect ∧ effect.result = .rested leaf := by
  obtain ⟨_, rfl⟩ := startingIn_eq_ok created
  have member : .notified (.started leaf context) ∈ notes := by
    obtain ⟨note, member, noteEq⟩ := List.mem_filterMap.mp told
    split at noteEq
    · cases noteEq
      exact member
    · contradiction
  obtain ⟨before, after, rfl⟩ := List.append_of_mem member
  obtain ⟨taken, landed, first, inner, outer, last, reached, move, _, _, _⟩ := moves.exists_move
  have toldNow : .started leaf context ∈
      Note.notifications (inner ++ .notified (.started leaf context) :: outer) := by simp
  obtain ⟨effect, unstarted, started, rested⟩ := move.launches_of_started toldNow
  have chartEq : taken.chart = chart := reached.chart_eq
  have word : Told initial taken.status taken.current ([] ++ Note.notifications first) :=
    told_of_moves reached .silent
  have currentEq : taken.current = initial := (word.of_unstarted unstarted).1
  rw [chartEq, currentEq] at started
  exact ⟨_, _, effect, started, rested⟩

theorem source_eq_target_of_internal {chart : Chart δ γ} {origin : StateId} {finishEvent : EventId}
    {work : Work δ γ} {fired : Option (Effect δ γ Chart.Outcome)}
    (firedEq : chart.fire origin finishEvent occurrence work = .ok fired)
    {transition : Transition δ γ} (selected : chart.select? origin occurrence = some transition)
    (internal : transition.kind = .internal) :
    ∀ passage ∈ passageOf origin occurrence.event fired, passage.source = passage.target := by
  intro passage member
  unfold passageOf at member
  split at member
  · next leaf =>
    rw [List.mem_singleton] at member
    subst member
    obtain ⟨transition', selected', rests, _, _⟩ := Chart.fire_rested firedEq rfl
    cases selected.symm.trans selected'
    rw [Chart.transitionPlan_of_internal internal] at rests
    cases rests
    rfl
  · contradiction

/--
The log of a machine is its way from leaf to leaf.  It has one passage for every event whose
handling was completed, and leads from the state in which the machine was started to the current
one, whatever has happened meanwhile.
-/
theorem run_keeps_itinerary {chain : List (Layer δ γ)} {registry : Registry δ γ} {chart : Chart δ γ}
    (compiled : Chart.ofLayers chain registry = .ok chart) {initial : StateId} {data : δ}
    (created : startingIn chart initial data = .ok machine) {acts : List (Act δ γ)}
    (done : machine.run acts = .ok (next, notes)) :
    next.log.passages = Note.passages notes ∧
    (∀ passage ∈ next.log.passages, ∃ told middle occurrence queue handled during,
      Moves machine told middle ∧ middle.status = .busy ∧ middle.queue = occurrence :: queue ∧
      process { middle with queue } occurrence = .ok (handled, during) ∧
      passage ∈ Note.passages during) ∧
    (∀ leaf context, .started leaf context ∈ Note.notifications notes →
      (∃ event work effect,
        chart.start initial event context work = .ok effect ∧ effect.result = .rested leaf) ∧
      Leads leaf next.log.passages next.current ∧
      Note.rests notes = leaf :: next.log.passages.map Passage.target ∧
      (∀ rest ∈ Note.rests notes, chart.forest.AtRest rest) ∧
      (next.log.passages ≠ [] →
        next.log.path = Note.rests notes ∧ next.log.path.length = next.log.size + 1)) ∧
    ∀ told middle, Moves machine told middle → ∀ occurrence queue handled during,
      middle.queue = occurrence :: queue →
      process { middle with queue } occurrence = .ok (handled, during) →
      handled.log.passages = middle.log.passages ++ Note.passages during ∧
        ∃ fired,
          chart.fire middle.current middle.options.finishEvent occurrence
            { middle.toWork with queue } = .ok fired ∧
          Note.passages during = passageOf middle.current occurrence.event fired ∧
          ∀ transition, chart.select? middle.current occurrence = some transition →
            transition.kind = .internal →
            ∀ passage ∈ Note.passages during, passage.source = passage.target := by
  have wellFormed := Chart.wellFormed_of_ofLayers compiled
  have moves := moves_of_run done
  have created' := created
  obtain ⟨known, rfl⟩ := startingIn_eq_ok created'
  have orderly : Orderly { data, chart, current := initial } :=
    ⟨⟨wellFormed, known⟩, by simp, by simp⟩
  have logEq := moves.log_eq
  rw [List.nil_append] at logEq
  refine ⟨logEq, fun passage recorded => moves.exists_handled (logEq ▸ recorded),
    fun leaf context told => ?_, ?_⟩
  · have word : Told initial next.status next.current ([] ++ Note.notifications notes) :=
      told_of_moves moves .silent
    obtain ⟨leads, restsEq⟩ := word.of_started told
    rw [List.nil_append] at leads restsEq
    change Leads leaf (Note.passages notes) next.current at leads
    change Note.rests notes = leaf :: (Note.passages notes).map Passage.target at restsEq
    rw [← logEq] at leads restsEq
    refine ⟨exists_start_of_started created moves told, leads, restsEq,
      atRest_of_moves orderly moves, fun some_passage => ?_⟩
    exact ⟨(leads.path_eq some_passage).trans restsEq.symm, length_path some_passage⟩
  · intro told middle reached occurrence queue handled during waiting processed
    have chartEq : middle.chart = chart := reached.chart_eq
    obtain ⟨recorded, fired, firedEq, duringEq⟩ := (handled_of_process processed).records
    rw [← chartEq]
    refine ⟨recorded, fired, firedEq, duringEq, fun transition selected internal => ?_⟩
    rw [duringEq]
    exact source_eq_target_of_internal firedEq selected internal

theorem run_keeps_itinerary_journey :
    ∃ chart machine next notes, Chart.ofLayers [journey] {} = .ok chart ∧
      startingIn chart ⟨"A"⟩ () = .ok machine ∧ machine.run journeyActs = .ok (next, notes) ∧
      next.current = ⟨"D"⟩ ∧ next.log.path = [⟨"A"⟩, ⟨"C"⟩, ⟨"D"⟩] ∧
      next.log.passages = Note.passages notes ∧
      Leads ⟨"A"⟩ next.log.passages ⟨"D"⟩ ∧ Note.rests notes = next.log.path := by
  have session : ((Chart.ofLayers [journey] {}).toOption.bind fun chart =>
      (startingIn chart ⟨"A"⟩ ()).toOption.bind fun machine =>
        (machine.run journeyActs).toOption.map fun ending =>
          (ending.1.current, ending.1.log.path, (Note.notifications ending.2).head?)) =
      some (⟨"D"⟩, [⟨"A"⟩, ⟨"C"⟩, ⟨"D"⟩], some (.started ⟨"A"⟩ ())) := by
    simp only [Chart.ofLayers, Layer.compile, Layer.build, Table.declare_empty]
    decide +kernel
  obtain ⟨chart, machine, next, notes, compiled, created, done, ending⟩ := exists_session session
  obtain ⟨currentEq, ending⟩ := Prod.mk.inj ending
  obtain ⟨pathEq, startedEq⟩ := Prod.mk.inj ending
  obtain ⟨recorded, _, visits, _⟩ := run_keeps_itinerary compiled created done
  obtain ⟨_, leads, _, _, complete⟩ := visits ⟨"A"⟩ () (List.mem_of_head? startedEq)
  have some_passage : next.log.passages ≠ [] := by
    intro none
    simp [path, none] at pathEq
  obtain ⟨restsEq, _⟩ := complete some_passage
  exact ⟨chart, machine, next, notes, compiled, created, done, currentEq, pathEq, recorded,
    currentEq ▸ leads, restsEq.symm⟩

end Machine

end Statechart
