import Mathlib.Data.List.Duplicate
import Statechart.Proofs.Chart.Checked
import Statechart.Proofs.Layer.Precedence

namespace Statechart

variable {δ γ : Type} {id : StateId}

mutual

/-- How often a state is declared in a declaration, which may be its own. -/
def StateDecl.occurrences (id : StateId) : StateDecl δ γ → Nat
  | .mk own _ children => (if own = id then 1 else 0) + occurrencesIn id children

def occurrencesIn (id : StateId) : List (StateDecl δ γ) → Nat
  | [] => 0
  | state :: rest => state.occurrences id + occurrencesIn id rest

end

namespace Layer

def occurrences (layer : Layer δ γ) (id : StateId) : Nat :=
  occurrencesIn id layer.states

end Layer

theorem occurrencesIn_append (states later : List (StateDecl δ γ)) :
    occurrencesIn id (states ++ later) = occurrencesIn id states + occurrencesIn id later := by
  induction states with
  | nil => exact (Nat.zero_add _).symm
  | cons state states ih =>
      rw [List.cons_append, occurrencesIn, ih, occurrencesIn, Nat.add_assoc]

theorem occurrencesIn_of_taken {other : StateId} {derived rest : List (StateDecl δ γ)}
    {own : StateDecl δ γ} (taken : takeState? other derived = some (own, rest)) :
    occurrencesIn id derived = own.occurrences id + occurrencesIn id rest := by
  obtain ⟨_, before, after, rfl, rfl⟩ := split_of_takeState? taken
  rw [occurrencesIn_append, occurrencesIn_append, occurrencesIn, Nat.add_left_comm]

mutual

theorem StateDecl.occurrences_fill :
    ∀ base derived : StateDecl δ γ, derived.id = base.id →
      derived.occurrences id ≤ (derived.fill base).occurrences id ∧
        base.occurrences id ≤ (derived.fill base).occurrences id
  | .mk own traits children, .mk own' given nested, same => by
      cases same
      obtain ⟨ofDerived, ofBase⟩ := occurrencesIn_fillStates children nested
      rw [StateDecl.fill]
      simp only [StateDecl.occurrences]
      exact ⟨Nat.add_le_add_left ofDerived _, Nat.add_le_add_left ofBase _⟩

theorem occurrencesIn_fillStates :
    ∀ base derived : List (StateDecl δ γ),
      occurrencesIn id derived ≤ occurrencesIn id (fillStates derived base) ∧
        occurrencesIn id base ≤ occurrencesIn id (fillStates derived base)
  | [], derived => by
      rw [fillStates_right_nil]
      exact ⟨Nat.le_refl _, Nat.zero_le _⟩
  | state :: base, derived => by
      cases taken : takeState? state.id derived with
      | none =>
          obtain ⟨ofDerived, ofBase⟩ := occurrencesIn_fillStates base derived
          rw [fillStates_of_absent taken]
          simp only [occurrencesIn]
          exact ⟨Nat.le_add_left_of_le ofDerived, Nat.add_le_add_left ofBase _⟩
      | some pair =>
          -- Only the pair is matched: what else repeats its id goes on to the rest of the base.
          obtain ⟨own, rest⟩ := pair
          obtain ⟨idEq, _⟩ := split_of_takeState? taken
          obtain ⟨ofOwn, ofState⟩ := StateDecl.occurrences_fill state own idEq
          obtain ⟨ofRest, ofBase⟩ := occurrencesIn_fillStates base rest
          rw [fillStates_of_taken taken, occurrencesIn_of_taken taken]
          simp only [occurrencesIn]
          exact ⟨Nat.add_le_add ofOwn ofRest, Nat.add_le_add ofState ofBase⟩

end

namespace Layer

theorem occurrences_fill (derived base : Layer δ γ) (id : StateId) :
    derived.occurrences id ≤ (derived.fill base).occurrences id ∧
      base.occurrences id ≤ (derived.fill base).occurrences id :=
  occurrencesIn_fillStates base.states derived.states

theorem occurrences_foldl_fill (id : StateId) (derived : Layer δ γ) (bases : List (Layer δ γ)) :
    derived.occurrences id ≤ (bases.foldl fill derived).occurrences id ∧
      ∀ base ∈ bases, base.occurrences id ≤ (bases.foldl fill derived).occurrences id := by
  induction bases generalizing derived with
  | nil => exact ⟨Nat.le_refl _, fun base member => absurd member List.not_mem_nil⟩
  | cons first bases ih =>
      obtain ⟨kept, ofBases⟩ := ih (derived.fill first)
      obtain ⟨ofDerived, ofFirst⟩ := derived.occurrences_fill first id
      refine ⟨Nat.le_trans ofDerived kept, fun base member => ?_⟩
      rcases List.mem_cons.mp member with rfl | further
      · exact Nat.le_trans ofFirst kept
      · exact ofBases base further

theorem occurrences_le_merge {chain : List (Layer δ γ)} {layer : Layer δ γ}
    (member : layer ∈ chain) : layer.occurrences id ≤ (merge chain).occurrences id := by
  cases chain with
  | nil => exact absurd member List.not_mem_nil
  | cons derived bases =>
      obtain ⟨ofDerived, ofBases⟩ := occurrences_foldl_fill id derived bases
      rcases List.mem_cons.mp member with rfl | further
      · exact ofDerived
      · exact ofBases layer further

end Layer

mutual

theorem StateDecl.occurrences_eq_count :
    ∀ state : StateDecl δ γ, state.occurrences id = (state.preorder.map Prod.fst).count id
  | .mk own traits children => by
      rw [StateDecl.occurrences, occurrencesIn_eq_count children, StateDecl.preorder, List.map_cons,
        List.count_cons, Nat.add_comm]
      simp only [beq_iff_eq]

theorem occurrencesIn_eq_count :
    ∀ states : List (StateDecl δ γ),
      occurrencesIn id states = ((preorderOf states).map Prod.fst).count id
  | [] => rfl
  | state :: rest => by
      rw [occurrencesIn, state.occurrences_eq_count, occurrencesIn_eq_count rest, preorderOf,
        List.map_append, List.count_append]

end

theorem declaredTwice_mem_of_mem {declared : List StateId} {entries : List (StateId × Traits δ γ)}
    (earlier : id ∈ declared) (again : id ∈ entries.map Prod.fst) :
    .configuration (.declaredTwice id) ∈ stateProblems declared entries := by
  induction entries generalizing declared with
  | nil => exact absurd again List.not_mem_nil
  | cons entry entries ih =>
      obtain ⟨own, traits⟩ := entry
      rw [stateProblems]
      rcases List.mem_cons.mp again with same | later
      · cases same
        simp [earlier]
      · exact List.mem_append_right _ (ih (List.mem_cons_of_mem _ earlier) later)

theorem declaredTwice_mem_of_duplicate {declared : List StateId}
    {entries : List (StateId × Traits δ γ)} (repeated : (entries.map Prod.fst).Duplicate id) :
    .configuration (.declaredTwice id) ∈ stateProblems declared entries := by
  induction entries generalizing declared with
  | nil => exact absurd repeated (List.not_duplicate_nil id)
  | cons entry entries ih =>
      obtain ⟨own, traits⟩ := entry
      rw [stateProblems]
      refine List.mem_append_right _ ?_
      rcases List.duplicate_cons_iff.mp repeated with ⟨same, again⟩ | later
      · cases same
        exact declaredTwice_mem_of_mem List.mem_cons_self again
      · exact ih later

theorem Layer.declaredTwice_mem_problems {layer : Layer δ γ} (registry : Registry δ γ)
    (repeated : 2 ≤ layer.occurrences id) :
    .configuration (.declaredTwice id) ∈ layer.problems registry := by
  rw [occurrences, occurrencesIn_eq_count, ← List.duplicate_iff_two_le_count] at repeated
  rw [problems, List.append_assoc]
  exact List.mem_append_left _ (declaredTwice_mem_of_duplicate repeated)

/--
A chain declares a state at least as often as each of its layers does.  So a chain with a layer that
declares a state twice, wherever, is refused for it, whatever the registry and the other layers.
-/
theorem Chart.ofLayers_keeps_repetitions {chain : List (Layer δ γ)} {layer : Layer δ γ}
    (member : layer ∈ chain) (id : StateId) :
    layer.occurrences id ≤ (Layer.merge chain).occurrences id ∧
      (2 ≤ layer.occurrences id → ∀ registry : Registry δ γ, ∃ error,
        Chart.ofLayers chain registry = .error error ∧
          .configuration (.declaredTwice id) ∈ error.problems) := by
  refine ⟨Layer.occurrences_le_merge member, fun repeated registry => ?_⟩
  have kept := Nat.le_trans repeated (Layer.occurrences_le_merge member)
  have found := Layer.declaredTwice_mem_problems registry kept
  obtain ⟨error, failed, problemsEq⟩ := Chart.exists_error_of_problems (List.ne_nil_of_mem found)
  exact ⟨error, failed, problemsEq ▸ found⟩

def repeating : List (Layer Unit Unit) :=
  [ { states := [.mk ⟨"Q"⟩ {} [.mk ⟨"X"⟩ {} []], .mk ⟨"R"⟩ {} []] },
    { states := [.mk ⟨"P"⟩ {} [.mk ⟨"X"⟩ {} []], .mk ⟨"Q"⟩ {} [.mk ⟨"X"⟩ {} []]] } ]

theorem Chart.ofLayers_keeps_repetitions_repeating :
    ∃ layer ∈ repeating, layer.occurrences ⟨"X"⟩ = 2 ∧
      layer.occurrences ⟨"X"⟩ ≤ (Layer.merge repeating).occurrences ⟨"X"⟩ ∧
      ∃ error, Chart.ofLayers repeating {} = .error error ∧
        .configuration (.declaredTwice ⟨"X"⟩) ∈ error.problems := by
  have member : repeating[1] ∈ repeating := List.getElem_mem _
  have twice : repeating[1].occurrences ⟨"X"⟩ = 2 := by decide
  obtain ⟨kept, refused⟩ := Chart.ofLayers_keeps_repetitions member ⟨"X"⟩
  exact ⟨repeating[1], member, twice, kept, refused (Nat.le_of_eq twice.symm) {}⟩

end Statechart
