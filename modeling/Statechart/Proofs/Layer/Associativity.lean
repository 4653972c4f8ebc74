import Statechart.Proofs.Layer.Absorption

namespace Statechart

variable {δ γ : Type}

theorem joinLists_assoc {α : Type} (first second third : Option (List α)) :
    joinLists (joinLists first second) third = joinLists first (joinLists second third) := by
  cases first <;> cases second <;> cases third <;> simp [joinLists]

theorem Traits.fill_assoc (derived middle base : Traits δ γ) :
    (derived.fill middle).fill base = derived.fill (middle.fill base) := by
  simp [fill, joinLists_assoc, Option.or_assoc]

section States

variable {id other : StateId} {derived base rest : List (StateDecl δ γ)}
  {own state : StateDecl δ γ}

theorem takeState?_of_same (same : state.id = id) :
    takeState? id (state :: rest) = some (state, rest) := by
  rw [takeState?, if_pos same]

theorem takeState?_of_differ (differ : state.id ≠ id) :
    takeState? id (state :: rest) =
      (takeState? id rest).map fun (found, rest) => (found, state :: rest) := by
  rw [takeState?, if_neg differ]

theorem takeState?_comm (differ : other ≠ id)
    (taken : takeState? other derived = some (state, rest)) :
    (takeState? id derived = none ∧ takeState? id rest = none) ∨
      ∃ found left both, takeState? id derived = some (found, left) ∧
        takeState? id rest = some (found, both) ∧ takeState? other left = some (state, both) := by
  induction derived generalizing rest with
  | nil => contradiction
  | cons head derived ih =>
      by_cases isOther : head.id = other
      · rw [takeState?_of_same isOther, Option.some_inj, Prod.mk.injEq] at taken
        obtain ⟨rfl, rfl⟩ := taken
        have notId : head.id ≠ id := fun same => differ (isOther.symm.trans same)
        rw [takeState?_of_differ notId]
        cases foundEq : takeState? id derived with
        | none => exact Or.inl ⟨rfl, rfl⟩
        | some pair =>
            exact Or.inr ⟨pair.1, head :: pair.2, pair.2, rfl, rfl, takeState?_of_same isOther⟩
      · rw [takeState?_of_differ isOther] at taken
        obtain ⟨⟨taken', rest'⟩, takenEq, pairEq⟩ := Option.map_eq_some_iff.mp taken
        cases pairEq
        by_cases isId : head.id = id
        · rw [takeState?_of_same isId, takeState?_of_same isId]
          exact Or.inr ⟨head, derived, rest', rfl, rfl, takenEq⟩
        · rw [takeState?_of_differ isId, takeState?_of_differ isId]
          rcases ih takenEq with ⟨absent, absent'⟩ | ⟨found, left, both, foundEq, bothEq, leftEq⟩
          · rw [absent, absent']
            exact Or.inl ⟨rfl, rfl⟩
          · rw [foundEq, bothEq]
            refine Or.inr ⟨found, head :: left, head :: both, rfl, rfl, ?_⟩
            rw [takeState?_of_differ isOther, leftEq]
            rfl

theorem takeState?_of_absent (differ : other ≠ id) (absent : takeState? id derived = none)
    (taken : takeState? other derived = some (state, rest)) : takeState? id rest = none := by
  rcases takeState?_comm differ taken with ⟨_, none⟩ | ⟨_, _, _, found, _, _⟩
  · exact none
  · rw [absent] at found
    contradiction

theorem fillStates_of_taken (taken : takeState? state.id derived = some (own, rest)) :
    fillStates derived (state :: base) = own.fill state :: fillStates rest base := by
  simp only [fillStates, taken]

theorem fillStates_of_absent (absent : takeState? state.id derived = none) :
    fillStates derived (state :: base) = state :: fillStates derived base := by
  simp only [fillStates, absent]

theorem takeState?_fillStates (id : StateId) (derived base : List (StateDecl δ γ)) :
    takeState? id (fillStates derived base) =
      match takeState? id derived, takeState? id base with
      | some (own, derived), some (other, base) => some (own.fill other, fillStates derived base)
      | some (own, derived), none => some (own, fillStates derived base)
      | none, some (other, base) => some (other, fillStates derived base)
      | none, none => none := by
  induction base generalizing derived with
  | nil => cases taken : takeState? id derived <;> simp [takeState?, taken]
  | cons state base ih =>
      by_cases same : state.id = id
      · rw [takeState?_of_same same]
        cases taken : takeState? state.id derived with
        | none =>
            rw [fillStates_of_absent taken, takeState?_of_same same, ← same, taken]
        | some pair =>
            rw [fillStates_of_taken taken, takeState?_of_same (by simpa using same), ← same, taken]
      · rw [takeState?_of_differ same]
        cases taken : takeState? state.id derived with
        | none =>
            rw [fillStates_of_absent taken, takeState?_of_differ same, ih]
            cases found : takeState? id derived with
            | none => cases takeState? id base <;> simp [fillStates_of_absent taken]
            | some pair =>
                have still := takeState?_of_absent (Ne.symm same) taken found
                cases takeState? id base <;> simp [fillStates_of_absent still]
        | some pair =>
            have differ : (pair.1.fill state).id ≠ id := by simpa using same
            rw [fillStates_of_taken taken, takeState?_of_differ differ, ih]
            rcases takeState?_comm same taken with
              ⟨absent, absent'⟩ | ⟨found, left, both, foundEq, bothEq, leftEq⟩
            · rw [absent, absent']
              cases takeState? id base <;> simp [fillStates_of_taken taken]
            · rw [foundEq, bothEq]
              cases takeState? id base <;> simp [fillStates_of_taken leftEq]

end States

mutual

theorem StateDecl.fill_assoc : ∀ base derived middle : StateDecl δ γ,
    (derived.fill middle).fill base = derived.fill (middle.fill base)
  | .mk id traits children, derived, middle => by
      rw [StateDecl.fill, StateDecl.fill, StateDecl.fill, StateDecl.traits_fill,
        StateDecl.children_fill, Traits.fill_assoc, fillStates_assoc children]

/-- Repeated names pair up occurrence by occurrence, so they do not need to be excluded. -/
theorem fillStates_assoc : ∀ base derived middle : List (StateDecl δ γ),
    fillStates (fillStates derived middle) base = fillStates derived (fillStates middle base)
  | [], derived, middle => by rw [fillStates_right_nil, fillStates_right_nil]
  | state :: base, derived, middle => by
      have nested := StateDecl.fill_assoc state
      have rest := fillStates_assoc base
      have split := takeState?_fillStates state.id derived middle
      cases ownEq : takeState? state.id derived with
      | none =>
          cases otherEq : takeState? state.id middle with
          | none =>
              rw [ownEq, otherEq] at split
              rw [fillStates_of_absent split, fillStates_of_absent otherEq,
                fillStates_of_absent ownEq, rest]
          | some pair =>
              rw [ownEq, otherEq] at split
              have ownEq' : takeState? (pair.1.fill state).id derived = none := by
                rw [StateDecl.id_fill, ownEq]
              rw [fillStates_of_taken split, fillStates_of_taken otherEq,
                fillStates_of_absent ownEq', rest]
      | some own =>
          cases otherEq : takeState? state.id middle with
          | none =>
              rw [ownEq, otherEq] at split
              rw [fillStates_of_taken split, fillStates_of_absent otherEq,
                fillStates_of_taken ownEq, rest]
          | some pair =>
              rw [ownEq, otherEq] at split
              have ownEq' : takeState? (pair.1.fill state).id derived = some own := by
                rw [StateDecl.id_fill, ownEq]
              rw [fillStates_of_taken split, fillStates_of_taken otherEq,
                fillStates_of_taken ownEq', nested, rest]

end

theorem TransitionDecl.fill_assoc (derived middle base : TransitionDecl δ γ) :
    (derived.fill middle).fill base = derived.fill (middle.fill base) := by
  simp [fill, joinLists_assoc, Option.or_assoc]

section Transitions

variable {own base : TransitionDecl δ γ} {declared middle : List (TransitionDecl δ γ)}

def Covers (declared : List (TransitionDecl δ γ)) (base : TransitionDecl δ γ) : Prop :=
  ∃ own ∈ declared, own.same base = true

theorem covers_absorb_self (own : TransitionDecl δ γ) (declared : List (TransitionDecl δ γ)) :
    Covers (absorb own declared) own := by
  induction declared with
  | nil => exact ⟨own, List.mem_cons_self, own.same_self⟩
  | cons head declared ih =>
      rw [absorb]
      split
      · next same => exact ⟨head.fill own, List.mem_cons_self, same⟩
      · obtain ⟨other, member, same⟩ := ih
        exact ⟨other, List.mem_cons_of_mem head member, same⟩

theorem Covers.absorb (covers : Covers declared base) (other : TransitionDecl δ γ) :
    Covers (Statechart.absorb other declared) base := by
  induction declared with
  | nil =>
      obtain ⟨own, member, _⟩ := covers
      contradiction
  | cons head declared ih =>
      obtain ⟨own, member, same⟩ := covers
      rw [Statechart.absorb]
      rcases List.mem_cons.mp member with rfl | further
      · split
        · exact ⟨own.fill other, List.mem_cons_self, same⟩
        · exact ⟨own, List.mem_cons_self, same⟩
      · split
        · exact ⟨own, List.mem_cons_of_mem _ further, same⟩
        · obtain ⟨found, member, same⟩ := ih ⟨own, further, same⟩
          exact ⟨found, List.mem_cons_of_mem head member, same⟩

theorem absorb_fill (same : own.same base = true) (declared : List (TransitionDecl δ γ)) :
    absorb (own.fill base) declared = absorb base (absorb own declared) := by
  induction declared with
  | nil => rw [absorb, absorb, absorb, if_pos same]
  | cons head declared ih =>
      rw [absorb, absorb, TransitionDecl.same_fill]
      by_cases hit : head.same own = true
      · have hit' : (head.fill own).same base = true := TransitionDecl.same_trans hit same
        rw [if_pos hit, if_pos hit, absorb, if_pos hit', TransitionDecl.fill_assoc]
      · have miss : ¬ head.same base = true := fun hit' =>
          hit (TransitionDecl.same_trans hit' (own.same_comm base ▸ same))
        rw [if_neg hit, if_neg hit, absorb, if_neg miss, ih]

/-- Declarations of different transitions are taken in independently, unless both are new. -/
theorem absorb_comm {other : TransitionDecl δ γ} (covers : Covers declared base)
    (differ : other.same base = false) :
    absorb base (absorb other declared) = absorb other (absorb base declared) := by
  induction declared with
  | nil =>
      obtain ⟨own, member, _⟩ := covers
      contradiction
  | cons head declared ih =>
      by_cases hit : head.same base = true
      · have miss : ¬ head.same other = true := by
          rw [TransitionDecl.same_eq_same hit, TransitionDecl.same_comm, differ]
          exact Bool.false_ne_true
        have miss' : ¬ (head.fill base).same other = true := miss
        rw [absorb, if_neg miss, absorb, if_pos hit, absorb, if_pos hit, absorb, if_neg miss']
      · obtain ⟨own, member, same⟩ := covers
        rcases List.mem_cons.mp member with rfl | further
        · contradiction
        · by_cases hit' : head.same other = true
          · have miss : ¬ (head.fill other).same base = true := hit
            rw [absorb, if_pos hit', absorb, if_neg miss, absorb, if_neg hit, absorb, if_pos hit']
          · rw [absorb, if_neg hit', absorb, if_neg hit, absorb, if_neg hit, absorb, if_neg hit',
              ih ⟨own, further, same⟩]

theorem absorb_fillTransitions {rest : List (TransitionDecl δ γ)} (covers : Covers declared base)
    (differ : ∀ other ∈ rest, other.same base = false) :
    absorb base (fillTransitions declared rest) = fillTransitions (absorb base declared) rest := by
  induction rest generalizing declared with
  | nil => rfl
  | cons other rest ih =>
      rw [fillTransitions_absorb, fillTransitions_absorb,
        ih (covers.absorb other) fun own member => differ own (List.mem_cons_of_mem other member),
        absorb_comm covers (differ other List.mem_cons_self)]

/-- No two declarations are about the same transition. -/
def Distinct (declared : List (TransitionDecl δ γ)) : Prop :=
  declared.Pairwise fun own other => own.same other = false

theorem fillTransitions_absorb_right (distinct : Distinct middle)
    (declared : List (TransitionDecl δ γ)) (base : TransitionDecl δ γ) :
    fillTransitions declared (absorb base middle) =
      absorb base (fillTransitions declared middle) := by
  induction middle generalizing declared with
  | nil => rfl
  | cons own middle ih =>
      obtain ⟨differ, distinct⟩ := List.pairwise_cons.mp distinct
      rw [absorb]
      split
      · next same =>
        have covers : Covers (absorb own declared) base := by
          obtain ⟨found, member, found_same⟩ := covers_absorb_self own declared
          exact ⟨found, member, TransitionDecl.same_trans found_same same⟩
        have differ' : ∀ other ∈ middle, other.same base = false := by
          intro other member
          rw [TransitionDecl.same_comm, ← TransitionDecl.same_eq_same same]
          exact differ other member
        rw [fillTransitions_absorb, fillTransitions_absorb, absorb_fill same,
          absorb_fillTransitions covers differ']
      · exact ih distinct _

theorem same_of_mem_absorb {other : TransitionDecl δ γ} (member : other ∈ absorb base declared) :
    other.same base = true ∨ ∃ own ∈ declared, own.same other = true := by
  induction declared with
  | nil =>
      rw [List.mem_singleton.mp member]
      exact Or.inl base.same_self
  | cons head declared ih =>
      rw [absorb] at member
      split at member
      · next same =>
        rcases List.mem_cons.mp member with rfl | further
        · exact Or.inl same
        · exact Or.inr ⟨other, List.mem_cons_of_mem head further, other.same_self⟩
      · rcases List.mem_cons.mp member with rfl | further
        · exact Or.inr ⟨other, List.mem_cons_self, other.same_self⟩
        · rcases ih further with hit | ⟨own, inside, hit⟩
          · exact Or.inl hit
          · exact Or.inr ⟨own, List.mem_cons_of_mem head inside, hit⟩

theorem Distinct.absorb (distinct : Distinct middle) (base : TransitionDecl δ γ) :
    Distinct (Statechart.absorb base middle) := by
  induction middle with
  | nil => exact List.pairwise_singleton _ base
  | cons own middle ih =>
      obtain ⟨differ, distinct⟩ := List.pairwise_cons.mp distinct
      rw [Statechart.absorb]
      split
      · exact List.pairwise_cons.mpr ⟨differ, distinct⟩
      · next miss =>
        refine List.pairwise_cons.mpr ⟨fun other member => ?_, ih distinct⟩
        rw [Bool.eq_false_iff]
        intro same
        rcases same_of_mem_absorb member with hit | ⟨inner, inside, hit⟩
        · exact miss (TransitionDecl.same_trans same hit)
        · have clash := TransitionDecl.same_trans same (other.same_comm inner ▸ hit)
          rw [differ inner inside] at clash
          contradiction

theorem fillTransitions_assoc (distinct : Distinct middle)
    (declared base : List (TransitionDecl δ γ)) :
    fillTransitions (fillTransitions declared middle) base =
      fillTransitions declared (fillTransitions middle base) := by
  induction base generalizing middle with
  | nil => rfl
  | cons other base ih =>
      rw [fillTransitions_absorb, fillTransitions_absorb, ← fillTransitions_absorb_right distinct,
        ih (distinct.absorb other)]

end Transitions

namespace Layer

/--
Merging is associative, so layers of a machine type may be merged ahead of the ones derived from
them.  Only what is declared twice of one transition in between depends on the bracketing.
-/
theorem fill_assoc_of_distinct (derived middle base : Layer δ γ) :
    ((derived.fill middle).fill base).initial = (derived.fill (middle.fill base)).initial ∧
      ((derived.fill middle).fill base).states = (derived.fill (middle.fill base)).states ∧
      (Distinct middle.transitions →
        ((derived.fill middle).fill base).transitions =
          (derived.fill (middle.fill base)).transitions) := by
  refine ⟨Option.or_assoc, fillStates_assoc base.states derived.states middle.states, ?_⟩
  intro distinct
  exact fillTransitions_assoc distinct derived.transitions base.transitions

def doubled (priority : Option Priority) (names : List String) : Layer Unit Unit where
  states := [.mk ⟨"A"⟩ { entry := some (names.map .written) } [], .mk ⟨"A"⟩ {} []]
  transitions := [{ performing "go" names with priority }, performing "stop" names]

theorem fill_assoc_of_distinct_doubled :
    Distinct (doubled (some 2) ["second"]).transitions ∧
      (((doubled none ["third"]).fill (doubled (some 2) ["second"])).fill
        (doubled (some 1) ["first"])).states =
      [.mk ⟨"A"⟩ { entry := some [.written "third", .written "second", .written "first"] } [],
        .mk ⟨"A"⟩ {} []] ∧
      (((doubled none ["third"]).fill (doubled (some 2) ["second"])).fill
        (doubled (some 1) ["first"])).transitions =
      [{ performing "go" ["third", "second", "first"] with priority := some 2 },
        performing "stop" ["third", "second", "first"]] := by
  have distinct : Distinct (doubled (some 2) ["second"]).transitions :=
    List.pairwise_pair.mpr (by cbv)
  obtain ⟨_, states, transitions⟩ := fill_assoc_of_distinct (doubled none ["third"])
    (doubled (some 2) ["second"]) (doubled (some 1) ["first"])
  rw [states, transitions distinct]
  exact ⟨distinct, by cbv, by cbv⟩

/-- Two declarations of one transition in between tell the ways of merging apart. -/
example :
    let twice := [performing "go" ["a"], performing "go" ["b"]]
    fillTransitions (fillTransitions [] twice) [performing "go" ["c"]] =
        [performing "go" ["a", "b", "c"]] ∧
      fillTransitions [] (fillTransitions twice [performing "go" ["c"]]) =
        [performing "go" ["a", "c", "b"]] := by
  refine ⟨by cbv, by cbv⟩

end Layer

end Statechart
