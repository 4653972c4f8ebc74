import Statechart.Proofs.Layer.Merged

/-!
What the transitions of a chain of layers amount to.

Declarations that agree in ends, event and guard are about one transition.  The first of them takes
in what the later ones say, so a list that is filled in can be read from the front: each
declaration in turn takes what is left of its transition, and the next one goes on with the rest.
-/

namespace Statechart

variable {δ γ : Type}

theorem Guard.same_trans {first second third : Guard γ} (same : first.same second = true)
    (same' : second.same third = true) : first.same third = true := by
  cases first <;> cases second <;> cases third <;> simp_all [Guard.same]

namespace GuardRef

@[simp] theorem same_self (guard : GuardRef γ) : guard.same guard = true := by
  cases guard <;> simp [same]

theorem same_comm (guard other : GuardRef γ) : guard.same other = other.same guard := by
  cases guard <;> cases other <;> simp [same, eq_comm, Guard.same_comm]

theorem same_trans {first second third : GuardRef γ} (same : first.same second = true)
    (same' : second.same third = true) : first.same third = true := by
  cases first <;> cases second <;> cases third <;> simp_all [GuardRef.same]
  exact Guard.same_trans same same'

end GuardRef

namespace TransitionDecl

variable {first second third declared base : TransitionDecl δ γ}

theorem same_iff :
    first.same second = true ↔
      first.source = second.source ∧ first.destination = second.destination ∧
        first.event = second.event ∧
        Option.Rel (fun guard guard' => GuardRef.same guard guard') first.guard second.guard := by
  cases guardEq : first.guard <;> cases guardEq' : second.guard <;>
    simp [same, guardEq, guardEq', and_assoc]

@[simp] theorem same_self (declared : TransitionDecl δ γ) : declared.same declared = true := by
  refine same_iff.mpr ⟨rfl, rfl, rfl, ?_⟩
  cases declared.guard <;> simp

theorem same_comm (first second : TransitionDecl δ γ) : first.same second = second.same first := by
  cases guardEq : first.guard <;> cases guardEq' : second.guard <;>
    simp [same, guardEq, guardEq', eq_comm, GuardRef.same_comm]

theorem same_trans (agrees : first.same second = true) (agrees' : second.same third = true) :
    first.same third = true := by
  obtain ⟨source, destination, event, guards⟩ := same_iff.mp agrees
  obtain ⟨source', destination', event', guards'⟩ := same_iff.mp agrees'
  refine same_iff.mpr
    ⟨source.trans source', destination.trans destination', event.trans event', ?_⟩
  cases guardEq : first.guard <;> cases guardEq' : second.guard <;>
    cases guardEq'' : third.guard <;> simp_all
  exact GuardRef.same_trans guards guards'

theorem same_eq_same (same : first.same second = true) (other : TransitionDecl δ γ) :
    first.same other = second.same other := by
  rw [Bool.eq_iff_iff]
  exact ⟨same_trans (same_comm first second ▸ same), same_trans same⟩

@[simp] theorem fill_same (declared base : TransitionDecl δ γ) :
    (declared.fill base).same = declared.same :=
  rfl

@[simp] theorem same_fill (declared base other : TransitionDecl δ γ) :
    other.same (declared.fill base) = other.same declared :=
  rfl

/-- A declaration with all that the given ones say of the transition, in their order. -/
def gather (declared : TransitionDecl δ γ) (given : List (TransitionDecl δ γ)) :
    TransitionDecl δ γ :=
  { declared with
    actions := joinAll (given.filterMap TransitionDecl.actions)
    priority := given.findSome? TransitionDecl.priority
    kind := given.findSome? TransitionDecl.kind }

@[simp] theorem gather_singleton (declared : TransitionDecl δ γ) :
    declared.gather [declared] = declared := by
  simp [gather, filterMap_cons_eq_append, findSome?_cons_eq_or]

theorem fill_gather (declared base : TransitionDecl δ γ) (rest : List (TransitionDecl δ γ)) :
    (declared.fill base).gather (declared.fill base :: rest) =
      declared.gather (declared :: base :: rest) := by
  simp [gather, fill, filterMap_cons_eq_append, findSome?_cons_eq_or, joinAll_joinLists,
    Option.or_assoc]

def refs (declared : TransitionDecl δ γ) : List (ActionRef δ γ) :=
  declared.actions.getD []

theorem refs_fill (declared base : TransitionDecl δ γ) :
    (declared.fill base).refs = declared.refs ++ base.refs := by
  cases actionsEq : declared.actions <;> cases actionsEq' : base.actions <;>
    simp [refs, fill, joinLists, actionsEq, actionsEq']

end TransitionDecl

section Filling

variable {first : TransitionDecl δ γ} {declared base : List (TransitionDecl δ γ)}

theorem fillTransitions_absorb (base : TransitionDecl δ γ)
    (declared rest : List (TransitionDecl δ γ)) :
    fillTransitions declared (base :: rest) = fillTransitions (absorb base declared) rest :=
  rfl

/-- The first declaration takes all that is said of its transition, and leaves the rest. -/
theorem fillTransitions_cons (first : TransitionDecl δ γ)
    (declared base : List (TransitionDecl δ γ)) :
    fillTransitions (first :: declared) base =
      first.gather (first :: base.filter first.same) ::
        fillTransitions declared (base.filter fun other => !first.same other) := by
  induction base generalizing first declared with
  | nil => simp [fillTransitions]
  | cons other base ih =>
      rw [fillTransitions_absorb, absorb]
      by_cases same : first.same other = true
      · rw [if_pos same, ih, TransitionDecl.fill_same, List.filter_cons_of_pos same,
          List.filter_cons_of_neg (by simp [same]), TransitionDecl.fill_gather]
      · rw [if_neg same, ih, List.filter_cons_of_neg same,
          List.filter_cons_of_pos (by simpa using same), fillTransitions_absorb]

theorem filter_rest_of_differ {other : TransitionDecl δ γ} (differ : first.same other = false) :
    (base.filter fun third => !first.same third).filter other.same = base.filter other.same := by
  rw [List.filter_filter]
  refine List.filter_congr fun third _ => ?_
  cases same : other.same third with
  | false => rfl
  | true =>
      have untouched : first.same third = false := by
        rw [TransitionDecl.same_comm, ← TransitionDecl.same_eq_same same, TransitionDecl.same_comm,
          differ]
      simp [untouched]

theorem filter_rest_of_same {other : TransitionDecl δ γ} (same : first.same other = true) :
    (base.filter fun third => !first.same third).filter other.same = [] := by
  rw [List.filter_filter, List.filter_eq_nil_iff]
  intro third _
  simp [TransitionDecl.same_eq_same same]

theorem mem_of_mem_eraseDupsBy {α : Type} {r : α → α → Bool} {a : α} :
    ∀ {l : List α}, a ∈ l.eraseDupsBy r → a ∈ l
  | [], member => by simp at member
  | b :: l, member => by
      rw [List.eraseDupsBy_cons, List.mem_cons] at member
      rcases member with rfl | further
      · exact List.mem_cons_self
      · exact List.mem_cons_of_mem b (List.mem_filter.mp (mem_of_mem_eraseDupsBy further)).1
termination_by l => l.length
decreasing_by exact Nat.lt_succ_of_le (List.length_filter_le _ _)

/-- What comes up first of each transition, with all that is said of it. -/
def gatherEach (declarations : List (TransitionDecl δ γ)) : List (TransitionDecl δ γ) :=
  (declarations.eraseDupsBy TransitionDecl.same).map fun declared =>
    declared.gather (declarations.filter declared.same)

theorem gatherEach_cons (first : TransitionDecl δ γ) (rest : List (TransitionDecl δ γ)) :
    gatherEach (first :: rest) =
      first.gather (first :: rest.filter first.same) ::
        gatherEach (rest.filter fun other => !first.same other) := by
  have left : rest.filter (fun other => decide (other.same first = false)) =
      rest.filter fun other => !first.same other := by
    refine List.filter_congr fun other _ => ?_
    rw [TransitionDecl.same_comm]
    cases first.same other <;> rfl
  rw [gatherEach, gatherEach, List.eraseDupsBy_cons, left, List.map_cons,
    List.filter_cons_of_pos (TransitionDecl.same_self first)]
  congr 1
  refine List.map_congr_left fun other member => ?_
  have differ : first.same other = false := by
    simpa using (List.mem_filter.mp (mem_of_mem_eraseDupsBy member)).2
  rw [filter_rest_of_differ differ, List.filter_cons_of_neg]
  rw [TransitionDecl.same_comm, differ]
  exact Bool.false_ne_true

theorem fillTransitions_nil : ∀ base : List (TransitionDecl δ γ),
    fillTransitions [] base = gatherEach base
  | [] => rfl
  | first :: rest => by
      rw [fillTransitions_absorb, absorb, fillTransitions_cons, fillTransitions_nil (rest.filter _),
        gatherEach_cons]
termination_by base => base.length
decreasing_by exact Nat.lt_succ_of_le (List.length_filter_le _ _)

/-- What becomes of a declaration with others before it: only the first of its transition takes in
what the base layer says. -/
def settle (before base : List (TransitionDecl δ γ)) (own : TransitionDecl δ γ) :
    TransitionDecl δ γ :=
  if before.any own.same then own else own.gather (own :: base.filter own.same)

theorem settle_nil (base : List (TransitionDecl δ γ)) (own : TransitionDecl δ γ) :
    settle [] base own = own.gather (own :: base.filter own.same) :=
  rfl

theorem settle_cons (before : List (TransitionDecl δ γ)) (own : TransitionDecl δ γ) :
    settle (first :: before) base own =
      settle before (base.filter fun other => !first.same other) own := by
  unfold settle
  rw [List.any_cons, TransitionDecl.same_comm]
  cases same : first.same own with
  | true => simp [filter_rest_of_same same]
  | false => rw [filter_rest_of_differ same, Bool.false_or]

/-- Filling in leaves every declaration in its place, and adds what the base layer says of other
transitions at the end. -/
theorem fillTransitions_eq (declared base : List (TransitionDecl δ γ)) :
    fillTransitions declared base =
      (declared.mapIdx fun index own => settle (declared.take index) base own) ++
        gatherEach (base.filter fun other => !declared.any other.same) := by
  induction declared generalizing base with
  | nil =>
      rw [fillTransitions_nil]
      simp
  | cons first declared ih =>
      have unclaimed : (base.filter fun other => !first.same other).filter
            (fun other => !declared.any other.same) =
          base.filter fun other => !(first :: declared).any other.same := by
        rw [List.filter_filter]
        refine List.filter_congr fun other _ => ?_
        rw [List.any_cons, TransitionDecl.same_comm first, Bool.not_or, Bool.and_comm]
      rw [fillTransitions_cons, ih, unclaimed, List.mapIdx_cons, List.cons_append]
      simp only [List.take_zero, List.take_succ_cons, settle_nil, settle_cons]

theorem refs_absorb (base : TransitionDecl δ γ) (declared : List (TransitionDecl δ γ)) :
    ((absorb base declared).flatMap TransitionDecl.refs).Perm
      (declared.flatMap TransitionDecl.refs ++ base.refs) := by
  induction declared with
  | nil => simp [absorb]
  | cons first declared ih =>
      rw [absorb]
      split
      · simp only [List.flatMap_cons, TransitionDecl.refs_fill, List.append_assoc]
        exact List.perm_append_comm.append_left first.refs
      · simp only [List.flatMap_cons, List.append_assoc]
        exact ih.append_left first.refs

/-- No reference is lost, and none comes up more often than before. -/
theorem refs_fillTransitions (declared base : List (TransitionDecl δ γ)) :
    ((fillTransitions declared base).flatMap TransitionDecl.refs).Perm
      (declared.flatMap TransitionDecl.refs ++ base.flatMap TransitionDecl.refs) := by
  induction base generalizing declared with
  | nil => simp [fillTransitions]
  | cons first base ih =>
      rw [fillTransitions_absorb, List.flatMap_cons, ← List.append_assoc]
      exact (ih (absorb first declared)).trans ((refs_absorb first declared).append_right _)

end Filling

namespace Layer

/-- What the most derived layer of a chain says of transitions. -/
def foremost (chain : List (Layer δ γ)) : List (TransitionDecl δ γ) :=
  (chain.take 1).flatMap Layer.transitions

/-- What the other layers say of them, the more derived layers first. -/
def further (chain : List (Layer δ γ)) : List (TransitionDecl δ γ) :=
  (chain.drop 1).flatMap Layer.transitions

theorem transitions_foldl_fill (derived : Layer δ γ) (bases : List (Layer δ γ)) :
    (bases.foldl fill derived).transitions =
      fillTransitions derived.transitions (bases.flatMap Layer.transitions) := by
  induction bases generalizing derived with
  | nil => rfl
  | cons base bases ih =>
      rw [List.foldl_cons, ih, List.flatMap_cons, fillTransitions, fillTransitions, fill,
        fillTransitions, List.foldl_append]

theorem transitions_merge (chain : List (Layer δ γ)) :
    (merge chain).transitions = fillTransitions (foremost chain) (further chain) := by
  cases chain with
  | nil => rfl
  | cons derived bases => simp [merge, transitions_foldl_fill, foremost, further]

/--
The transitions of the merged layer: those of the most derived layer, of which the first of each
transition takes in what all other layers say of it, and behind them those that it does not declare.
All references to actions are there, each as often as the layers have it.
-/
theorem merge_transitions (chain : List (Layer δ γ)) :
    (merge chain).transitions =
        ((foremost chain).mapIdx fun index own =>
          settle ((foremost chain).take index) (further chain) own) ++
          gatherEach ((further chain).filter fun other => !(foremost chain).any other.same) ∧
      ((merge chain).transitions.flatMap TransitionDecl.refs).Perm
        (chain.flatMap fun layer => layer.transitions.flatMap TransitionDecl.refs) := by
  rw [transitions_merge]
  refine ⟨fillTransitions_eq _ _, (refs_fillTransitions _ _).trans (List.Perm.of_eq ?_)⟩
  rw [foremost, further, ← List.flatMap_append, ← List.flatMap_append, List.take_append_drop,
    List.flatMap_assoc]

def performing (event : String) (names : List String) : TransitionDecl Unit Unit where
  source := ⟨"A"⟩
  target := some ⟨"B"⟩
  event := ⟨event⟩
  actions := some (names.map .written)

/-- The second declaration of the derived layer stays as it is. -/
example :
    (merge
        [ { transitions := [performing "go" ["a"], performing "go" ["b"]] },
          { transitions := [performing "stop" ["c"], performing "go" ["d"]] },
          { transitions := [performing "go" ["e"], performing "stop" ["f"]] } ]).transitions =
      [performing "go" ["a", "d", "e"], performing "go" ["b"], performing "stop" ["c", "f"]] := by
  cbv

end Layer

end Statechart
