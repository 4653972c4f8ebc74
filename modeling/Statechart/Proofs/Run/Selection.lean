import Statechart.Proofs.Chart.Tabled
import Statechart.Proofs.Run.Protocol
import Statechart.Proofs.Run.Safety

namespace Statechart

variable {δ γ : Type}

/-- A declaration can take an event if it leaves the current state, or one around it, on the event
and its guard lets the event pass. -/
structure TransitionDecl.Enabled (registry : Registry δ γ) (forest : Forest δ γ)
    (current : StateId) (occurrence : Occurrence γ) (declaration : TransitionDecl δ γ) : Prop where
  event_eq : declaration.event = occurrence.event
  around : declaration.source ∈ forest.ancestors current
  accepts : declaration.Accepts registry occurrence.context

/-- Of the declarations that can take an event this one comes first.  Those without a priority have
the usual one. -/
structure TransitionDecl.Foremost (registry : Registry δ γ) (forest : Forest δ γ)
    (current : StateId) (occurrence : Occurrence γ) (before : List (TransitionDecl δ γ))
    (declaration : TransitionDecl δ γ) (after : List (TransitionDecl δ γ)) : Prop where
  enabled : declaration.Enabled registry forest current occurrence
  innermost : ∃ inner outer, forest.ancestors current = inner ++ declaration.source :: outer ∧
    ∀ other ∈ before ++ declaration :: after,
      other.Enabled registry forest current occurrence → other.source ∉ inner
  above_earlier : ∀ other ∈ before, other.Enabled registry forest current occurrence →
    other.source = declaration.source → other.priority.getD 10 < declaration.priority.getD 10
  above_later : ∀ other ∈ after, other.Enabled registry forest current occurrence →
    other.source = declaration.source → other.priority.getD 10 ≤ declaration.priority.getD 10

namespace Table

variable {table : Table δ γ} {transitions : List (Transition δ γ)} {transition : Transition δ γ}
  {source : StateId} {event : EventId} {p : Transition δ γ → Bool}

theorem Offers.find?_eq_none_iff (offers : table.Offers transitions) :
    (table.candidates source event).find? p = none ↔
      ∀ transition ∈ transitions, Leaves source event transition → p transition = false := by
  rw [(offers.ranked source event).find?_eq_none_iff]
  simp only [List.mem_filter, decide_eq_true_eq, and_imp]

theorem Offers.of_find?_eq_some (offers : table.Offers transitions)
    (found : (table.candidates source event).find? p = some transition) :
    Leaves source event transition ∧ p transition = true ∧
      ∃ before after, transitions = before ++ transition :: after ∧
        (∀ other ∈ before, Leaves source event other → p other = true →
          other.priority < transition.priority) ∧
        ∀ other ∈ after, Leaves source event other → p other = true →
          other.priority ≤ transition.priority := by
  obtain ⟨hit, earlier, later, split, lower, notHigher⟩ :=
    (offers.ranked source event).of_find?_eq_some found
  -- The group is what a filter keeps of all transitions, so each part of it comes from such a part.
  obtain ⟨front, rest, rfl, rfl, restEq⟩ := List.filter_eq_append_iff.mp split
  obtain ⟨skipped, back, rfl, missed, leaves, rfl⟩ := List.filter_eq_cons_iff.mp restEq
  refine ⟨of_decide_eq_true leaves, hit, front ++ skipped, back, by rw [List.append_assoc], ?_, ?_⟩
  · intro other member leaves passes
    rcases List.mem_append.mp member with inFront | inSkipped
    · exact lower other (List.mem_filter.mpr ⟨inFront, decide_eq_true leaves⟩) passes
    · exact absurd (decide_eq_true leaves) (missed other inSkipped)
  · intro other member leaves
    exact notHigher other (List.mem_filter.mpr ⟨member, decide_eq_true leaves⟩)

end Table

namespace Chart

variable {chart : Chart δ γ} {registry : Registry δ γ} {transitions : List (Transition δ γ)}
  {declarations : List (TransitionDecl δ γ)} {current : StateId} {occurrence : Occurrence γ}
  {transition : Transition δ γ}

theorem Carries.offered {declaration : TransitionDecl δ γ}
    (own : Carries registry transition declaration)
    (enabled : declaration.Enabled registry chart.forest current occurrence) :
    Table.Leaves declaration.source occurrence.event transition ∧
      transition.accepts occurrence.context = true :=
  ⟨⟨own.source_eq, own.event_eq.trans enabled.event_eq⟩, (own.accepts_iff _).mpr enabled.accepts⟩

theorem select?_eq_none_iff (offers : chart.table.Offers transitions)
    (carries : List.Forall₂ (Carries registry) transitions declarations) :
    chart.select? current occurrence = none ↔
      ∀ declaration ∈ declarations,
        ¬ declaration.Enabled registry chart.forest current occurrence := by
  unfold select?
  rw [List.findSome?_eq_none_iff]
  simp only [offers.find?_eq_none_iff]
  constructor
  · intro refused declaration member enabled
    obtain ⟨transition, inTable, own⟩ := exists_related_left carries member
    obtain ⟨leaves, passes⟩ := own.offered enabled
    have refuses := refused declaration.source enabled.around transition inTable leaves
    rw [passes] at refuses
    contradiction
  · rintro disabled state around transition inTable ⟨rfl, eventEq⟩
    obtain ⟨declaration, member, own⟩ := exists_related_right carries inTable
    rw [← Bool.not_eq_true, own.accepts_iff]
    intro accepts
    exact disabled declaration member
      ⟨own.event_eq ▸ eventEq, own.source_eq ▸ around, accepts⟩

theorem foremost_of_select?_eq_some (offers : chart.table.Offers transitions)
    (carries : List.Forall₂ (Carries registry) transitions declarations)
    (selected : chart.select? current occurrence = some transition) :
    ∃ before declaration after, declarations = before ++ declaration :: after ∧
      declaration.Foremost registry chart.forest current occurrence before after ∧
      Carries registry transition declaration := by
  obtain ⟨inner, state, outer, ancestorsEq, found, missed⟩ :=
    List.findSome?_eq_some_iff.mp selected
  obtain ⟨⟨rfl, eventEq⟩, accepts, front, back, rfl, lower, notHigher⟩ :=
    offers.of_find?_eq_some found
  obtain ⟨before, declaration, after, rfl, relatedBefore, own, relatedAfter⟩ :=
    forall₂_split carries
  refine ⟨before, declaration, after, rfl, ⟨⟨?_, ?_, ?_⟩, ⟨inner, outer, ?_, ?_⟩, ?_, ?_⟩, own⟩
  · exact own.event_eq.symm.trans eventEq
  · rw [ancestorsEq, own.source_eq]
    exact List.mem_append_right inner List.mem_cons_self
  · exact (own.accepts_iff _).mp accepts
  · rw [ancestorsEq, own.source_eq]
  · intro other member enabled inside
    obtain ⟨_, inTable, own'⟩ := exists_related_left carries member
    obtain ⟨leaves, passes⟩ := own'.offered enabled
    have refuses := offers.find?_eq_none_iff.mp (missed other.source inside) _ inTable leaves
    rw [passes] at refuses
    contradiction
  · intro other member enabled sourceEq
    obtain ⟨_, inFront, own'⟩ := exists_related_left relatedBefore member
    obtain ⟨leaves, passes⟩ := own'.offered enabled
    rw [sourceEq, ← own.source_eq] at leaves
    rw [← own.priority_eq, ← own'.priority_eq]
    exact lower _ inFront leaves passes
  · intro other member enabled sourceEq
    obtain ⟨_, inBack, own'⟩ := exists_related_left relatedAfter member
    obtain ⟨leaves, passes⟩ := own'.offered enabled
    rw [sourceEq, ← own.source_eq] at leaves
    rw [← own.priority_eq, ← own'.priority_eq]
    exact notHigher _ inBack leaves passes

theorem mem_transitions_of_select?_eq_some
    (selected : chart.select? current occurrence = some transition) :
    transition ∈ chart.table.transitions := by
  obtain ⟨state, _, found⟩ := List.exists_of_findSome?_eq_some selected
  obtain ⟨group, inTable, _, _, member⟩ :=
    Table.mem_transitions_of_mem_candidates (List.mem_of_find?_eq_some found)
  exact List.mem_flatMap.mpr ⟨group, inTable, member⟩

def Outcome.stage : Outcome → Stage
  | .rested leaf => .completed leaf
  | .failed error => .failed error

end Chart

namespace Machine

open Notification

variable {machine next : Machine δ γ} {notes : List (Note γ)} {occurrence : Occurrence γ}
  {chain : List (Layer δ γ)} {registry : Registry δ γ}

/-- The machine handles an event by carrying out the selected transition. -/
structure Takes (machine : Machine δ γ) (occurrence : Occurrence γ) (transition : Transition δ γ)
    (carried : Effect δ γ Chart.Outcome) (next : Machine δ γ) (notes : List (Note γ)) : Prop where
  selected : machine.chart.select? machine.current occurrence = some transition
  carriedOut : machine.chart.carryOut (Chart.scopeOf machine.current transition occurrence)
    (machine.chart.transitionPlan machine.memory machine.current transition) machine.toWork =
      .ok carried
  data_eq : next.data = carried.work.data
  memory_eq : next.memory = carried.work.memory
  calls_eq : Note.calls notes = Note.calls carried.notes
  told_eq : Note.notifications notes = ofEvent machine.current occurrence carried.result.stage

/-- An event is declined, which leaves the whole machine as it was. -/
structure Declines (machine : Machine δ γ) (occurrence : Occurrence γ) (next : Machine δ γ)
    (notes : List (Note γ)) : Prop where
  unchanged : next = machine
  told_eq : Note.notifications notes = ofEvent machine.current occurrence .declined

theorem exists_process_of_fire {fired : Option (Effect δ γ Chart.Outcome)}
    (firedEq : machine.chart.fire machine.current machine.options.finishEvent occurrence
      machine.toWork = .ok fired) :
    ∃ next notes, machine.process occurrence = .ok (next, notes) := by
  cases fired with
  | none => exact ⟨_, _, bind_eq_ok_iff.mpr ⟨none, firedEq, rfl⟩⟩
  | some effect =>
      obtain ⟨work, notes, result⟩ := effect
      cases result with
      | rested leaf => exact ⟨_, _, bind_eq_ok_iff.mpr ⟨_, firedEq, rfl⟩⟩
      | failed error => exact ⟨_, _, bind_eq_ok_iff.mpr ⟨_, firedEq, rfl⟩⟩

theorem takes_of_fire {effect : Effect δ γ Chart.Outcome}
    (fired : machine.chart.fire machine.current machine.options.finishEvent occurrence
      machine.toWork = .ok (some effect)) (workEq : next.toWork = effect.work)
    (notesEq : notes = machine.tellOf occurrence .began ++ effect.notes ++
      machine.tellOf occurrence effect.result.stage ++ machine.tellOf occurrence .ended) :
    ∃ transition carried, machine.Takes occurrence transition carried next notes := by
  obtain ⟨transition, carried, finish, selected, carriedOut, resultEq, effectWork, effectNotes⟩ :=
    Chart.fire_eq_ok_some fired
  refine ⟨transition, carried, selected, carriedOut, ?_, ?_, ?_, ?_⟩
  · rw [workEq, effectWork]
  · rw [workEq, effectWork]
  · simp [notesEq, effectNotes]
  · simp [notesEq, ofEvent, resultEq, (Chart.accounted_fire fired).quiet]

theorem Takes.not_declines {transition : Transition δ γ} {carried : Effect δ γ Chart.Outcome}
    (takes : machine.Takes occurrence transition carried next notes) :
    ¬ machine.Declines occurrence next notes := by
  intro declines
  have same := takes.told_eq.symm.trans declines.told_eq
  cases result : carried.result <;> simp [result, ofEvent, Chart.Outcome.stage] at same

theorem Handled.declines_or_takes (handled : Handled machine occurrence next notes) :
    machine.chart.select? machine.current occurrence = none ∧
        machine.Declines occurrence next notes ∨
      ∃ transition carried, machine.Takes occurrence transition carried next notes := by
  cases handled with
  | declined fired => exact Or.inl ⟨Chart.fire_eq_ok_none fired, rfl, by simp [ofEvent]⟩
  | completed fired rested => exact Or.inr (takes_of_fire fired rfl (by rw [rested]; rfl))
  | failed fired failed => exact Or.inr (takes_of_fire fired rfl (by rw [failed]; rfl))

/--
An event is declined, and then leaves the whole machine as it was, just if no declaration of the
merged layer can take it.  Otherwise the foremost one does, and the machine carries its transition
out.
-/
theorem process_takes_foremost (compiled : Chart.ofLayers chain registry = .ok machine.chart)
    (occurrence : Occurrence γ) :
    ∃ next notes, machine.process occurrence = .ok (next, notes) ∧
      (machine.Declines occurrence next notes ↔
        ∀ declaration ∈ (Layer.merge chain).transitions,
          ¬ declaration.Enabled registry machine.chart.forest machine.current occurrence) ∧
      ((∃ declaration ∈ (Layer.merge chain).transitions,
          declaration.Enabled registry machine.chart.forest machine.current occurrence) →
        ∃ before declaration after transition carried,
          (Layer.merge chain).transitions = before ++ declaration :: after ∧
          declaration.Foremost registry machine.chart.forest machine.current occurrence
            before after ∧
          transition ∈ machine.chart.table.transitions ∧
          Chart.Carries registry transition declaration ∧
          machine.Takes occurrence transition carried next notes) := by
  have wellFormed := Chart.wellFormed_of_ofLayers compiled
  obtain ⟨transitions, carries, offers⟩ := Chart.exists_transitions_of_ofLayers compiled
  obtain ⟨fired, firedEq⟩ := Chart.exists_fired wellFormed
    machine.options.finishEvent occurrence machine.toWork
  obtain ⟨next, notes, processed⟩ := exists_process_of_fire firedEq
  have noneEnabled : machine.chart.select? machine.current occurrence = none ↔ _ :=
    Chart.select?_eq_none_iff offers carries
  refine ⟨next, notes, processed, ?_, ?_⟩
  · rw [← noneEnabled]
    rcases (handled_of_process processed).declines_or_takes with ⟨unselected, declines⟩ |
      ⟨_, _, takes⟩
    · exact iff_of_true declines unselected
    · exact iff_of_false takes.not_declines (by simp [takes.selected])
  · rintro ⟨other, member, enabled⟩
    rcases (handled_of_process processed).declines_or_takes with ⟨unselected, _⟩ |
      ⟨taken, carried, takes⟩
    · exact absurd enabled (noneEnabled.mp unselected other member)
    · obtain ⟨before, declaration, after, split, foremost, own⟩ :=
        Chart.foremost_of_select?_eq_some offers carries takes.selected
      exact ⟨before, declaration, after, taken, carried, split, foremost,
        Chart.mem_transitions_of_select?_eq_some takes.selected, own, takes⟩

/-- In `C`, which is in `B` and that in `A`, the guard at `C` refuses what `B` and `A` offer. -/
def rivals : Layer Unit Unit where
  states := [.mk ⟨"A"⟩ {} [.mk ⟨"B"⟩ {} [.mk ⟨"C"⟩ {} []]], .mk ⟨"D"⟩ {} []]
  transitions :=
    [{ source := ⟨"A"⟩, event := ⟨"go"⟩, priority := some 100 },
      { source := ⟨"C"⟩, event := ⟨"go"⟩,
        guard := some (.direct (.predicate 0 fun _ => false)) },
      { source := ⟨"B"⟩, target := some ⟨"A"⟩, event := ⟨"go"⟩ },
      { source := ⟨"B"⟩, target := some ⟨"D"⟩, event := ⟨"go"⟩, priority := some 20 },
      { source := ⟨"B"⟩, target := some ⟨"C"⟩, event := ⟨"go"⟩, priority := some 20 }]

theorem process_takes_foremost_rivals :
    ∃ (chart : Chart Unit Unit) (before : List (TransitionDecl Unit Unit))
      (declaration : TransitionDecl Unit Unit) (after : List (TransitionDecl Unit Unit)),
      Chart.ofLayers [rivals] {} = .ok chart ∧
      rivals.transitions = before ++ declaration :: after ∧
      declaration.Foremost {} chart.forest ⟨"C"⟩ ⟨⟨"go"⟩, ()⟩ before after ∧
      declaration.source = ⟨"B"⟩ ∧ declaration.destination = ⟨"D"⟩ ∧
      declaration.priority.getD 10 = 20 ∧
      (∃ next notes, process { chart, current := ⟨"C"⟩, data := () } ⟨⟨"go"⟩, ()⟩ =
          .ok (next, notes) ∧
        Note.calls notes = [.exit ⟨"C"⟩, .exit ⟨"B"⟩, .exit ⟨"A"⟩, .perform ⟨"B"⟩, .enter ⟨"D"⟩]) ∧
      ∃ notes, process { chart, current := ⟨"C"⟩, data := () } ⟨⟨"stop"⟩, ()⟩ =
        .ok ({ chart, current := ⟨"C"⟩, data := () }, notes) := by
  have evaluated : (Chart.ofLayers [rivals] {}).toOption.bind (fun chart =>
      (chart.select? ⟨"C"⟩ ⟨⟨"go"⟩, ()⟩).bind fun transition =>
        (chart.carryOut (Chart.scopeOf ⟨"C"⟩ transition ⟨⟨"go"⟩, ()⟩)
          (chart.transitionPlan {} ⟨"C"⟩ transition) ⟨(), {}, []⟩).toOption.map fun carried =>
            decide (chart.forest.ancestors ⟨"C"⟩ = [⟨"C"⟩, ⟨"B"⟩, ⟨"A"⟩] ∧
              transition.source = ⟨"B"⟩ ∧ transition.target = ⟨"D"⟩ ∧ transition.priority = 20 ∧
              Note.calls carried.notes =
                [.exit ⟨"C"⟩, .exit ⟨"B"⟩, .exit ⟨"A"⟩, .perform ⟨"B"⟩, .enter ⟨"D"⟩])) =
      some true := by
    simp only [Chart.ofLayers, Layer.compile, Layer.build, Table.declare_empty,
      TransitionDecl.hookless, TransitionDecl.effectiveKind, ← Option.not_isSome]
    -- The transitions of `B` are sorted, which does not reduce by definition.
    cbv
  obtain ⟨chart, compiled, evaluated⟩ := Option.bind_eq_some_iff.mp evaluated
  obtain ⟨selected, selectedEq, evaluated⟩ := Option.bind_eq_some_iff.mp evaluated
  obtain ⟨effect, effectEq, evaluated⟩ := Option.map_eq_some_iff.mp evaluated
  rw [toOption_eq_some_iff] at compiled effectEq
  obtain ⟨ancestorsEq, sourceEq, targetEq, priorityEq, callsEq⟩ := of_decide_eq_true evaluated
  have onGo : ∀ declaration ∈ (Layer.merge [rivals]).transitions,
      declaration.event = ⟨"go"⟩ := by
    simp [Layer.merge, rivals]
  have built : Chart.ofLayers [rivals] {} =
      .ok ({ chart, current := ⟨"C"⟩, data := () } : Machine Unit Unit).chart := compiled
  obtain ⟨next, notes, processed, -, taken⟩ := process_takes_foremost built ⟨⟨"go"⟩, ()⟩
  obtain ⟨before, declaration, after, transition, carried, split, foremost, -, own, takes⟩ :=
    taken ⟨{ source := ⟨"B"⟩, target := some ⟨"A"⟩, event := ⟨"go"⟩ },
      List.mem_of_getElem? (i := 2) rfl, rfl, by simp [ancestorsEq],
      by simp [TransitionDecl.Accepts]⟩
  cases selectedEq.symm.trans takes.selected
  cases effectEq.symm.trans takes.carriedOut
  obtain ⟨kept, later, declined, noneEnabled, -⟩ := process_takes_foremost built ⟨⟨"stop"⟩, ()⟩
  have declines := noneEnabled.mpr fun other member enabled => by
    have stops := enabled.event_eq
    rw [onGo other member] at stops
    simp at stops
  rw [declines.unchanged] at declined
  exact ⟨chart, before, declaration, after, compiled, split, foremost,
    own.source_eq.symm.trans sourceEq, own.target_eq.symm.trans targetEq,
    own.priority_eq.symm.trans priorityEq,
    ⟨next, notes, processed, takes.calls_eq.trans callsEq⟩, later, declined⟩

end Machine

end Statechart
