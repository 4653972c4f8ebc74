import Statechart.Proofs.Chart.Mirrored
import Statechart.Proofs.Layer.Associativity

namespace Statechart

variable {δ γ : Type}

theorem prefix_joinLists {α : Type} (derived base : Option (List α)) :
    derived.getD [] <+: (joinLists derived base).getD [] := by
  cases derived <;> cases base <;> simp [joinLists]

namespace Placement

def entryRefs (placement : Placement δ γ) : List (ActionRef δ γ) :=
  placement.traits.entry.getD []

def exitRefs (placement : Placement δ γ) : List (ActionRef δ γ) :=
  placement.traits.exit.getD []

structure Grows (placement grown : Placement δ γ) : Prop where
  above_eq : grown.above = placement.above
  id_eq : grown.id = placement.id
  entry : placement.entryRefs <+: grown.entryRefs
  exit : placement.exitRefs <+: grown.exitRefs

theorem Grows.refl (placement : Placement δ γ) : placement.Grows placement :=
  ⟨rfl, rfl, List.prefix_rfl, List.prefix_rfl⟩

theorem Grows.trans {first second third : Placement δ γ} (grows : first.Grows second)
    (grows' : second.Grows third) : first.Grows third where
  above_eq := grows'.above_eq.trans grows.above_eq
  id_eq := grows'.id_eq.trans grows.id_eq
  entry := grows.entry.trans grows'.entry
  exit := grows.exit.trans grows'.exit

end Placement

theorem mem_placementsOf_iff {above : List StateId} {states : List (StateDecl δ γ)}
    {placement : Placement δ γ} :
    placement ∈ placementsOf above states ↔ ∃ state ∈ states, placement ∈ state.placements above := by
  induction states with
  | nil => simp [placementsOf]
  | cons state states ih => rw [placementsOf, List.mem_append, ih, List.exists_mem_cons_iff]

theorem split_of_takeState? {id : StateId} {derived rest : List (StateDecl δ γ)}
    {own : StateDecl δ γ} (taken : takeState? id derived = some (own, rest)) :
    own.id = id ∧ ∃ before after, derived = before ++ own :: after ∧ rest = before ++ after := by
  induction derived generalizing rest with
  | nil => contradiction
  | cons first derived ih =>
      by_cases same : first.id = id
      · rw [takeState?_of_same same] at taken
        cases taken
        exact ⟨same, [], derived, rfl, rfl⟩
      · rw [takeState?_of_differ same] at taken
        obtain ⟨⟨own', rest'⟩, takenEq, pairEq⟩ := Option.map_eq_some_iff.mp taken
        cases pairEq
        obtain ⟨idEq, before, after, rfl, rfl⟩ := ih takenEq
        exact ⟨idEq, first :: before, after, rfl, rfl⟩

mutual

theorem StateDecl.exists_grown :
    ∀ (base derived : StateDecl δ γ) (above : List StateId), derived.id = base.id →
      ∀ placement ∈ derived.placements above,
        ∃ grown ∈ (derived.fill base).placements above, placement.Grows grown
  | .mk id traits children, .mk own given nested, above, same, placement, member => by
      cases same
      rw [StateDecl.placements] at member
      rw [StateDecl.fill, StateDecl.placements]
      rcases List.mem_cons.mp member with rfl | inside
      · refine ⟨_, List.mem_cons_self, rfl, rfl, ?_, ?_⟩
        · exact prefix_joinLists given.entry traits.entry
        · exact prefix_joinLists given.exit traits.exit
      · obtain ⟨grown, grownMember, grows⟩ :=
          exists_grown_of_states children nested (id :: above) placement inside
        exact ⟨grown, List.mem_cons_of_mem _ grownMember, grows⟩

theorem exists_grown_of_states :
    ∀ (base derived : List (StateDecl δ γ)) (above : List StateId),
      ∀ placement ∈ placementsOf above derived,
        ∃ grown ∈ placementsOf above (fillStates derived base), placement.Grows grown
  | [], derived, above, placement, member => by
      rw [fillStates_right_nil]
      exact ⟨placement, member, .refl placement⟩
  | state :: base, derived, above, placement, member => by
      cases taken : takeState? state.id derived with
      | none =>
          rw [fillStates_of_absent taken, placementsOf]
          obtain ⟨grown, grownMember, grows⟩ :=
            exists_grown_of_states base derived above placement member
          exact ⟨grown, List.mem_append_right _ grownMember, grows⟩
      | some pair =>
          obtain ⟨own, rest⟩ := pair
          rw [fillStates_of_taken taken, placementsOf]
          obtain ⟨idEq, before, after, derivedEq, restEq⟩ := split_of_takeState? taken
          obtain ⟨holder, holderMember, inHolder⟩ := mem_placementsOf_iff.mp member
          have ownOrRest : holder = own ∨ holder ∈ rest := by
            rw [derivedEq, List.mem_append, List.mem_cons, or_left_comm] at holderMember
            rwa [restEq, List.mem_append]
          rcases ownOrRest with rfl | inRest
          · obtain ⟨grown, grownMember, grows⟩ :=
              StateDecl.exists_grown state holder above idEq placement inHolder
            exact ⟨grown, List.mem_append_left _ grownMember, grows⟩
          · obtain ⟨grown, grownMember, grows⟩ := exists_grown_of_states base rest above placement
              (mem_placementsOf_iff.mpr ⟨holder, inRest, inHolder⟩)
            exact ⟨grown, List.mem_append_right _ grownMember, grows⟩

end

namespace TransitionDecl

structure Grows (declared grown : TransitionDecl δ γ) : Prop where
  same : declared.same grown = true
  refs : declared.refs <+: grown.refs

theorem Grows.refl (declared : TransitionDecl δ γ) : declared.Grows declared :=
  ⟨declared.same_self, List.prefix_rfl⟩

theorem Grows.trans {first second third : TransitionDecl δ γ} (grows : first.Grows second)
    (grows' : second.Grows third) : first.Grows third :=
  ⟨same_trans grows.same grows'.same, grows.refs.trans grows'.refs⟩

theorem grows_fill (declared base : TransitionDecl δ γ) : declared.Grows (declared.fill base) := by
  refine ⟨?_, ?_⟩
  · rw [same_fill]
    exact declared.same_self
  · rw [refs_fill]
    exact List.prefix_append declared.refs base.refs

end TransitionDecl

/-- Each declaration has grown in its place, and new ones stand behind them all. -/
inductive GrowInto : List (TransitionDecl δ γ) → List (TransitionDecl δ γ) → Prop where
  | nil (added : List (TransitionDecl δ γ)) : GrowInto [] added
  | cons {own grown : TransitionDecl δ γ} {declared rest : List (TransitionDecl δ γ)}
      (first : own.Grows grown) (further : GrowInto declared rest) :
      GrowInto (own :: declared) (grown :: rest)

namespace GrowInto

variable {first second third : List (TransitionDecl δ γ)}

theorem refl (declared : List (TransitionDecl δ γ)) : GrowInto declared declared := by
  induction declared with
  | nil => exact .nil []
  | cons own declared ih => exact .cons (.refl own) ih

theorem trans (grows : GrowInto first second) (grows' : GrowInto second third) :
    GrowInto first third := by
  induction grows generalizing third with
  | nil added => exact .nil third
  | cons own _ ih =>
      cases grows' with
      | cons own' further => exact .cons (own.trans own') (ih further)

theorem absorb (base : TransitionDecl δ γ) (declared : List (TransitionDecl δ γ)) :
    GrowInto declared (Statechart.absorb base declared) := by
  induction declared with
  | nil => exact .nil [base]
  | cons own declared ih =>
      rw [Statechart.absorb]
      split
      · exact .cons (own.grows_fill base) (refl declared)
      · exact .cons (.refl own) ih

theorem fillTransitions (declared base : List (TransitionDecl δ γ)) :
    GrowInto declared (Statechart.fillTransitions declared base) := by
  induction base generalizing declared with
  | nil => exact refl declared
  | cons first base ih =>
      rw [fillTransitions_absorb]
      exact (absorb first declared).trans (ih _)

end GrowInto

namespace Layer

variable {upper lower : List (Layer δ γ)}

/-- What is declared in a layer is declared in another one at the same point, actions first. -/
structure Precedes (layer merged : Layer δ γ) : Prop where
  states : ∀ placement ∈ placementsOf [] layer.states,
    ∃ grown ∈ placementsOf [] merged.states, placement.Grows grown
  transitions : GrowInto layer.transitions merged.transitions

theorem Precedes.refl (layer : Layer δ γ) : layer.Precedes layer :=
  ⟨fun placement member => ⟨placement, member, .refl placement⟩, .refl layer.transitions⟩

theorem Precedes.trans {first second third : Layer δ γ} (precedes : first.Precedes second)
    (precedes' : second.Precedes third) : first.Precedes third := by
  refine ⟨fun placement member => ?_, precedes.transitions.trans precedes'.transitions⟩
  obtain ⟨middle, middleMember, grows⟩ := precedes.states placement member
  obtain ⟨grown, grownMember, grows'⟩ := precedes'.states middle middleMember
  exact ⟨grown, grownMember, grows.trans grows'⟩

theorem precedes_fill (derived base : Layer δ γ) : derived.Precedes (derived.fill base) :=
  ⟨exists_grown_of_states base.states derived.states [], .fillTransitions _ _⟩

theorem precedes_foldl_fill (derived : Layer δ γ) (bases : List (Layer δ γ)) :
    derived.Precedes (bases.foldl fill derived) := by
  induction bases generalizing derived with
  | nil => exact .refl derived
  | cons base bases ih => exact (precedes_fill derived base).trans (ih (derived.fill base))

theorem precedes_merge (upper lower : List (Layer δ γ)) :
    (merge upper).Precedes (merge (upper ++ lower)) := by
  cases upper with
  | nil => exact ⟨fun placement member => by simp [merge, placementsOf] at member, .nil _⟩
  | cons derived bases =>
      rw [List.cons_append, merge, merge, List.foldl_append]
      exact precedes_foldl_fill _ lower

end Layer

end Statechart
