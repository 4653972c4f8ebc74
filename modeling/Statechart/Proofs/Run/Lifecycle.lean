import Statechart.Proofs.Run.Safety

namespace Statechart

variable {δ γ : Type}

/-- The statuses that a machine can get from this one in the course of a call. -/
def Status.successors : Status → List Status
  | .initialized => [.idle, .terminated, .error]
  | .idle => [.terminated, .error]
  | .busy | .terminated | .error => []

theorem Status.eq_of_isTerminal {status : Status} (ended : status.isTerminal = true) :
    status = .terminated ∨ status = .error := by
  cases status <;> simp_all [isTerminal]

theorem Status.ne_of_isTerminal {status other : Status} (ended : status.isTerminal = true)
    (live : other.isTerminal = false) : status ≠ other := by
  rintro rfl
  rw [live] at ended
  contradiction

theorem Status.eq_or_mem_successors {status next : Status}
    (waiting : status = .initialized ∨ status = .idle)
    (settled : next = .idle ∨ next.isTerminal = true) :
    next = status ∨ next ∈ status.successors := by
  rcases settled with rfl | ended
  · rcases waiting with rfl | rfl <;> decide
  · rcases eq_of_isTerminal ended with rfl | rfl <;> rcases waiting with rfl | rfl <;> decide

theorem Status.ne_busy_of_mem_successors {status next : Status}
    (changed : next ∈ status.successors) : next ≠ .busy := by
  rintro rfl
  cases status <;> simp [successors] at changed

def Request.operation : Request γ → Operation
  | .start _ => .start
  | .fire _ _ => .fire
  | .terminate _ => .terminate

/-- What a machine that has ended replies: it can be ended once more, unless it failed. -/
def Request.belatedResult (request : Request γ) (status : Status) : Except MachineError Unit :=
  if status = .terminated ∧ request.operation = .terminate then .ok ()
  else .error (.invalidStatus status request.operation)

namespace Chart

variable {chart : Chart δ γ} {current leaf : StateId} {context : γ} {work : Work δ γ}
  {effect : Effect δ γ Outcome}

theorem atRest_of_start (wellFormed : chart.forest.WellFormed)
    (known : chart.forest.contains current = true) {event : EventId}
    (started : chart.start current event context work = .ok effect)
    (rested : effect.result = .rested leaf) : chart.forest.AtRest leaf := by
  obtain ⟨descent, landed, planEq, rests, _⟩ := startPlan_eq wellFormed work.memory known
  obtain ⟨ending, _, _⟩ := carryOut_rested started rested
  rw [planEq] at ending
  cases ending
  exact rests

theorem atRest_of_fire (wellFormed : chart.WellFormed) (rests : chart.forest.AtRest current)
    {finishEvent : EventId} {occurrence : Occurrence γ}
    (fired : chart.fire current finishEvent occurrence work = .ok (some effect))
    (rested : effect.result = .rested leaf) : chart.forest.AtRest leaf := by
  obtain ⟨transition, selected, ending, _, _⟩ := fire_rested fired rested
  obtain ⟨around, known, _, _⟩ := wellFormed.select?_eq_some selected
  by_cases internal : transition.kind = .internal
  · rw [transitionPlan_of_internal internal] at ending
    cases ending
    exact rests
  · obtain ⟨_, _, _, landed, route, planEq⟩ :=
      exists_route wellFormed.forest work.memory around known internal
    rw [planEq] at ending
    cases ending
    exact route.rests

end Chart

namespace Machine

variable {machine next : Machine δ γ} {notes : List (Note γ)} {occurrence : Occurrence γ}
  {context : γ} {limit : Nat} {response : Response δ γ} {options : Options}

/-- A running machine is where it can rest, and a machine has an error if it failed. -/
structure Orderly (machine : Machine δ γ) : Prop extends Placed machine where
  lastError_iff : machine.lastError.isSome = true ↔ machine.status = .error
  rests : machine.status = .idle ∨ machine.status = .busy →
    machine.chart.forest.AtRest machine.current

theorem Orderly.of_handled (orderly : machine.Orderly) (status : machine.status = .busy)
    (handled : Handled machine occurrence next notes) : next.Orderly := by
  have placed := orderly.toPlaced.of_handled handled
  cases handled with
  | declined _ => exact orderly
  | completed fired rested =>
      have around := orderly.rests (Or.inr status)
      have rests := Chart.atRest_of_fire orderly.wellFormed around fired rested
      exact ⟨placed, orderly.lastError_iff, fun _ => rests⟩
  | failed _ _ => exact ⟨placed, by simp, by simp⟩

theorem Orderly.of_move (orderly : machine.Orderly) (move : Move machine notes next) :
    next.Orderly := by
  have placed := orderly.toPlaced.of_move move
  have healthy : machine.status ≠ .error → ¬machine.lastError.isSome = true :=
    orderly.lastError_iff.not.mpr
  cases move with
  | launch status started rested =>
      have rests :=
        Chart.atRest_of_start orderly.wellFormed.forest orderly.known started rested
      exact ⟨placed, by simpa [launched] using healthy (by simp [status]), fun _ => rests⟩
  | collapse _ _ _ => exact ⟨placed, by simp [fail], by simp [fail]⟩
  | take status =>
      have rests := orderly.rests status
      have fine := healthy (by rcases status with idle | busy <;> simp [*])
      exact ⟨placed, by simpa using fine, fun _ => rests⟩
  | @handle _ occurrence queue _ status _ processed =>
      have taken : Orderly { machine with queue } :=
        ⟨⟨orderly.wellFormed, orderly.known⟩, orderly.lastError_iff, orderly.rests⟩
      exact taken.of_handled status (handled_of_process processed)
  | settle status _ =>
      have rests := orderly.rests (Or.inr status)
      exact ⟨placed, by simpa using healthy (by simp [status]), fun _ => rests⟩
  | shutdown status =>
      have fine := healthy (by rcases status with idle | busy <;> simp [*])
      refine ⟨placed, ?_, ?_⟩
      all_goals
        unfold Machine.shutdown
        dsimp only
        split
      · simpa using fine
      · simp [fail]
      · simp
      · simp [fail]
  | abandon status => exact ⟨placed, by simpa using healthy (by simp [status]), by simp⟩
  | adjust _ _ _ => exact ⟨placed, orderly.lastError_iff, orderly.rests⟩

theorem Orderly.of_moves (orderly : machine.Orderly) (moves : Moves machine notes next) :
    next.Orderly := by
  induction moves with
  | refl => exact orderly
  | step move _ ih => exact ih (orderly.of_move move)

/-- A machine that is to terminate by itself does not rest where it would do so. -/
structure Heeds (options : Options) (machine : Machine δ γ) : Prop where
  options_eq : machine.options = options
  unfinished : machine.status = .idle → options.autoTerminate = true →
    ∀ node, machine.chart.forest.node? machine.current = some node →
      ¬(node.isFinal = true ∧ node.isRoot = true)

theorem Heeds.of_status_ne (optionsEq : machine.options = options)
    (status : machine.status ≠ .idle) : machine.Heeds options :=
  ⟨optionsEq, fun idle => absurd idle status⟩

theorem options_of_processAll {last : γ}
    (done : processAll limit machine context = .ok (next, notes, last)) :
    next.options = machine.options := by
  induction limit generalizing machine notes context with
  | zero =>
      unfold processAll at done
      split at done
      · cases done
        rfl
      · contradiction
  | succ limit ih =>
      unfold processAll at done
      split at done
      · cases done
        rfl
      · obtain ⟨⟨middle, first⟩, processed, done⟩ := bind_eq_ok_iff.mp done
        have kept : middle.options = machine.options := by
          cases handled_of_process processed <;> rfl
        dsimp only at done
        split at done
        · cases done
          exact kept
        · obtain ⟨⟨final, later, last'⟩, rest, done⟩ := bind_eq_ok_iff.mp done
          cases done
          exact (ih rest).trans kept

theorem heeds_shutdown (optionsEq : machine.options = options) (context : γ) :
    (machine.shutdown context).1.Heeds options := by
  apply Heeds.of_status_ne
  · unfold shutdown
    dsimp only
    split <;> exact optionsEq
  · rcases status_shutdown machine context with same | same <;> simp [same]

theorem heeds_of_drain (done : drain limit machine context = .ok (next, notes))
    (optionsEq : machine.options = options) : next.Heeds options := by
  cases drained_of_drain done with
  | ignored status => exact .of_status_ne optionsEq status
  | failed _ processed failed =>
      exact .of_status_ne ((options_of_processAll processed).trans optionsEq) (by simp [failed])
  | finished _ processed _ _ _ =>
      exact heeds_shutdown ((options_of_processAll processed).trans optionsEq) _
  | @rested drained _ _ _ processed _ unfinished =>
      have kept : drained.options = options := (options_of_processAll processed).trans optionsEq
      refine ⟨kept, fun _ automatic node found => ?_⟩
      -- Only the status has changed since the machine looked whether it is finished.
      have lookedUp : drained.isFinished = .ok (node.isFinal && node.isRoot) := by
        rw [isFinished, found]
      have goesOn := Except.ok.inj (lookedUp.symm.trans (unfinished (kept ▸ automatic)))
      rw [← Bool.and_eq_true, goesOn]
      exact Bool.false_ne_true

theorem heeds_of_launch (done : launch limit machine context = .ok (next, notes))
    (optionsEq : machine.options = options) : next.Heeds options := by
  cases launched_of_launch done with
  | rested _ _ drained => exact heeds_of_drain drained optionsEq
  | failed _ _ => exact .of_status_ne optionsEq nofun

theorem heeds_of_enqueue (done : enqueue limit machine occurrence = .ok response)
    (optionsEq : machine.options = options) : response.machine.Heeds options := by
  cases enqueued_of_enqueue done with
  | refused ended => exact .of_status_ne optionsEq (Status.ne_of_isTerminal ended rfl)
  | taken _ drained => exact heeds_of_drain drained optionsEq

theorem Heeds.start (heeds : machine.Heeds options)
    (done : Machine.start limit machine context = .ok response) :
    response.machine.Heeds options := by
  cases started_of_start done with
  | launched _ launched => exact heeds_of_launch launched heeds.options_eq
  | running _ => exact heeds
  | refused _ => exact heeds

theorem Heeds.fire (heeds : machine.Heeds options) {event : EventId}
    (done : Machine.fire limit machine event context = .ok response) :
    response.machine.Heeds options := by
  cases fired_of_fire done with
  | launched _ _ launched enqueued =>
      have started := heeds_of_launch launched heeds.options_eq
      have ended := heeds_of_enqueue enqueued started.options_eq
      exact ended
  | refused _ _ => exact heeds
  | running _ enqueued => exact heeds_of_enqueue enqueued heeds.options_eq

theorem Heeds.terminate (heeds : machine.Heeds options) (context : γ) :
    (machine.terminate context).machine.Heeds options := by
  unfold Machine.terminate
  split
  · exact heeds
  · exact heeds
  · exact .of_status_ne heeds.options_eq nofun
  all_goals exact heeds_shutdown heeds.options_eq context

theorem Heeds.act (heeds : machine.Heeds options) {act : Act δ γ}
    (fixed : ∀ options, act ≠ .configure options) (done : machine.act act = .ok response) :
    response.machine.Heeds options := by
  cases act with
  | ask limit request =>
      cases request with
      | start context => exact heeds.start done
      | fire event context => exact heeds.fire done
      | terminate context =>
          cases done
          exact heeds.terminate context
  | configure changed => exact absurd rfl (fixed changed)
  | observe =>
      cases done
      exact ⟨heeds.options_eq, heeds.unfinished⟩
  | alter data =>
      cases done
      exact ⟨heeds.options_eq, heeds.unfinished⟩

theorem answer_of_isTerminal (ended : machine.status.isTerminal = true) (limit : Nat)
    (request : Request γ) :
    machine.answer limit request = .ok ⟨machine, [], request.belatedResult machine.status⟩ := by
  cases request with
  | start context =>
      rcases Status.eq_of_isTerminal ended with status | status
      all_goals
        simp only [answer, Machine.start, status]
        rfl
  | fire event context =>
      rw [answer, Machine.fire, if_neg (Status.ne_of_isTerminal ended rfl), enqueue, if_pos ended,
        Request.belatedResult, if_neg (by simp [Request.operation])]
      rfl
  | terminate context =>
      rcases Status.eq_of_isTerminal ended with status | status
      all_goals
        simp only [answer, Machine.terminate, status]
        rfl

theorem settled_of_enqueue (ready : machine.status = .idle ∨ machine.status.isTerminal = true)
    (done : enqueue limit machine occurrence = .ok response) :
    response.machine.status = .idle ∨ response.machine.status.isTerminal = true := by
  cases enqueued_of_enqueue done with
  | refused ended => exact Or.inr ended
  | taken live drained =>
      have waiting : { machine with queue := machine.queue ++ [occurrence] }.status = .idle :=
        ready.resolve_right live
      exact (moves_of_drain waiting drained).2

theorem settled_of_answer (waiting : machine.status = .initialized ∨ machine.status = .idle)
    {request : Request γ} (done : machine.answer limit request = .ok response) :
    response.machine.status = machine.status ∨
      response.machine.status = .idle ∨ response.machine.status.isTerminal = true := by
  cases request with
  | start context =>
      cases started_of_start done with
      | launched status launched => exact Or.inr (moves_of_launch status launched).2
      | running _ => exact Or.inl rfl
      | refused _ => exact Or.inl rfl
  | fire event context =>
      cases fired_of_fire done with
      | launched status _ launched enqueued =>
          have settled := settled_of_enqueue (moves_of_launch status launched).2 enqueued
          exact Or.inr settled
      | refused _ _ => exact Or.inl rfl
      | running started enqueued =>
          exact Or.inr (settled_of_enqueue (Or.inl (waiting.resolve_left started)) enqueued)
  | terminate context =>
      cases done
      unfold Machine.terminate
      split
      · exact Or.inl rfl
      · exact Or.inl rfl
      · exact Or.inr (Or.inr rfl)
      all_goals
        rcases status_shutdown machine context with ended | ended
        all_goals
          refine Or.inr (Or.inr ?_)
          rw [ended]
          rfl

theorem status_of_answer (quiet : machine.status ≠ .busy) {request : Request γ}
    (done : machine.answer limit request = .ok response) :
    response.machine.status = machine.status ∨
      response.machine.status ∈ machine.status.successors := by
  by_cases ended : machine.status.isTerminal = true
  · rw [answer_of_isTerminal ended] at done
    cases done
    exact Or.inl rfl
  · have waiting : machine.status = .initialized ∨ machine.status = .idle := by
      cases status : machine.status <;> simp_all [Status.isTerminal]
    rcases settled_of_answer waiting done with same | settled
    · exact Or.inl same
    · exact Status.eq_or_mem_successors waiting settled

/-- What holds of a machine between any two calls. -/
structure Settled (options : Options) (machine : Machine δ γ) : Prop
    extends Orderly machine, Heeds options machine where
  not_busy : machine.status ≠ .busy

theorem Settled.of_startingIn {chart : Chart δ γ} (wellFormed : chart.WellFormed)
    {initial : StateId} {data : δ} (created : startingIn chart initial data = .ok machine)
    (options : Options) (observers : Nat) :
    Settled options { machine with options, observers } := by
  obtain ⟨known, rfl⟩ := startingIn_eq_ok created
  exact ⟨⟨⟨wellFormed, known⟩, by simp, by simp⟩, .of_status_ne rfl nofun, nofun⟩

theorem Settled.act (settled : machine.Settled options) {act : Act δ γ}
    (fixed : ∀ options, act ≠ .configure options) (done : machine.act act = .ok response) :
    response.machine.Settled options := by
  refine ⟨settled.toOrderly.of_moves (moves_of_act done), settled.toHeeds.act fixed done, ?_⟩
  cases act with
  | ask limit request =>
      rcases status_of_answer settled.not_busy done with same | changed
      · rw [same]
        exact settled.not_busy
      · exact Status.ne_busy_of_mem_successors changed
  | configure changed => exact absurd rfl (fixed changed)
  | observe =>
      cases done
      exact settled.not_busy
  | alter data =>
      cases done
      exact settled.not_busy

theorem Settled.run (settled : machine.Settled options) {acts : List (Act δ γ)}
    (fixed : ∀ options, .configure options ∉ acts) (done : machine.run acts = .ok (next, notes)) :
    next.Settled options := by
  induction acts generalizing machine notes with
  | nil =>
      cases done
      exact settled
  | cons act acts ih =>
      obtain ⟨response, acted, done⟩ := bind_eq_ok_iff.mp done
      obtain ⟨⟨final, later⟩, rest, done⟩ := bind_eq_ok_iff.mp done
      cases done
      have first : ∀ options, act ≠ .configure options :=
        fun options same => fixed options (same ▸ List.mem_cons_self)
      exact ih (settled.act first acted)
        (fun options member => fixed options (List.mem_cons_of_mem act member)) rest

/--
Between the calls of a session whose options stay as they are, a machine is never busy, it has an
error if and only if it failed, and it is idle only where it can rest and need not terminate.  From
call to call its status only ever advances, and a machine that has ended stays as it is.
-/
theorem run_settles {chain : List (Layer δ γ)} {registry : Registry δ γ} {chart : Chart δ γ}
    (compiled : Chart.ofLayers chain registry = .ok chart) {initial : StateId} {data : δ}
    (created : startingIn chart initial data = .ok machine) (options : Options) (observers : Nat)
    {acts : List (Act δ γ)} (fixed : ∀ options, .configure options ∉ acts)
    (done : run { machine with options, observers } acts = .ok (next, notes)) :
    next.chart = chart ∧ next.Settled options ∧
      (∀ limit request response, next.answer limit request = .ok response →
        response.machine.status = next.status ∨
          response.machine.status ∈ next.status.successors) ∧
      (next.status.isTerminal = true → ∀ limit request,
        next.answer limit request = .ok ⟨next, [], request.belatedResult next.status⟩) := by
  have wellFormed := Chart.wellFormed_of_ofLayers compiled
  have settled := (Settled.of_startingIn wellFormed created options observers).run fixed done
  have chartEq : next.chart = chart := by
    obtain ⟨_, rfl⟩ := startingIn_eq_ok created
    exact (moves_of_run done).chart_eq
  exact ⟨chartEq, settled, fun _ _ _ => status_of_answer settled.not_busy, answer_of_isTerminal⟩

def journey : Layer Unit Unit where
  states :=
    [.mk ⟨"A"⟩ {} [], .mk ⟨"B"⟩ {} [.mk ⟨"C"⟩ { isFinal := some true } []],
      .mk ⟨"D"⟩ { isFinal := some true } []]
  transitions :=
    [{ source := ⟨"A"⟩, target := some ⟨"B"⟩, event := ⟨"x"⟩ },
      { source := ⟨"B"⟩, target := some ⟨"D"⟩, event := ⟨"$Finish"⟩ }]

def journeyActs : List (Act Unit Unit) :=
  [.ask 3 (.fire ⟨"y"⟩ ()), .observe, .ask 3 (.fire ⟨"x"⟩ ())]

theorem run_settles_journey :
    ∃ chart machine next notes, Chart.ofLayers [journey] {} = .ok chart ∧
      startingIn chart ⟨"A"⟩ () = .ok machine ∧
      run { machine with options := {}, observers := 1 } journeyActs = .ok (next, notes) ∧
      next.status = .terminated ∧ next.current = ⟨"D"⟩ ∧ next.lastError = none ∧
      ∀ limit event, next.answer limit (.fire event ()) =
        .ok ⟨next, [], .error (.invalidStatus .terminated .fire)⟩ := by
  have session : ((Chart.ofLayers [journey] {}).toOption.bind fun chart =>
      (startingIn chart ⟨"A"⟩ ()).toOption.bind fun machine =>
        (run { machine with options := {}, observers := 1 } journeyActs).toOption.map fun ending =>
          (ending.1.status, ending.1.current)) = some (.terminated, ⟨"D"⟩) := by
    simp only [Chart.ofLayers, Layer.compile, Layer.build, Table.declare_empty]
    decide +kernel
  obtain ⟨chart, compiled, session⟩ := Option.bind_eq_some_iff.mp session
  obtain ⟨machine, created, session⟩ := Option.bind_eq_some_iff.mp session
  obtain ⟨⟨next, notes⟩, done, ending⟩ := Option.map_eq_some_iff.mp session
  rw [toOption_eq_some_iff] at compiled created done
  obtain ⟨terminated, currentEq⟩ := Prod.mk.inj ending
  have fixed : ∀ options, Act.configure options ∉ journeyActs := by simp [journeyActs]
  obtain ⟨_, settled, _, refuses⟩ := run_settles compiled created {} 1 fixed done
  have ended : next.status.isTerminal = true := by
    rw [terminated]
    rfl
  refine ⟨chart, machine, next, notes, compiled, created, done, terminated, currentEq, ?_, ?_⟩
  · have healthy : ¬next.lastError.isSome = true := by
      rw [settled.lastError_iff, terminated]
      decide
    simpa using healthy
  · intro limit event
    rw [refuses ended limit (.fire event ()), terminated]
    rfl

end Machine

end Statechart
