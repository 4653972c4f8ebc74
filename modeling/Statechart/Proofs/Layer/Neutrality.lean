import Statechart.Proofs.Layer.Associativity

namespace Statechart

variable {δ γ : Type}

section Transitions

variable {base : TransitionDecl δ γ} {declared further : List (TransitionDecl δ γ)}

theorem Distinct.fillTransitions (distinct : Distinct declared)
    (base : List (TransitionDecl δ γ)) : Distinct (Statechart.fillTransitions declared base) := by
  induction base generalizing declared with
  | nil => exact distinct
  | cons first base ih =>
      rw [fillTransitions_absorb]
      exact ih (distinct.absorb first)

theorem distinct_gatherEach (declared : List (TransitionDecl δ γ)) :
    Distinct (gatherEach declared) := by
  rw [← fillTransitions_nil]
  exact Distinct.fillTransitions List.Pairwise.nil declared

theorem gatherEach_of_distinct (distinct : Distinct declared) : gatherEach declared = declared := by
  induction declared with
  | nil => rfl
  | cons first declared ih =>
      obtain ⟨differ, distinct⟩ := List.pairwise_cons.mp distinct
      have none : declared.filter first.same = [] := by
        rw [List.filter_eq_nil_iff]
        intro other member
        rw [differ other member]
        exact Bool.false_ne_true
      have all : declared.filter (fun other => !first.same other) = declared := by
        rw [List.filter_eq_self]
        intro other member
        rw [differ other member, Bool.not_false]
      rw [gatherEach_cons, none, all, TransitionDecl.gather_singleton, ih distinct]

theorem Distinct.of_absorb (distinct : Distinct (Statechart.absorb base declared)) :
    Distinct declared := by
  induction declared with
  | nil => exact List.Pairwise.nil
  | cons head declared ih =>
      rw [Statechart.absorb] at distinct
      split at distinct
      · exact List.pairwise_cons.mpr (List.pairwise_cons.mp distinct)
      · obtain ⟨differ, distinct⟩ := List.pairwise_cons.mp distinct
        refine List.pairwise_cons.mpr ⟨fun other member => ?_, ih distinct⟩
        -- Somewhere behind, the list still has a declaration of the transition of `other`.
        have covers : Covers declared other := ⟨other, member, other.same_self⟩
        obtain ⟨found, inside, same⟩ := covers.absorb base
        rw [TransitionDecl.same_comm, ← TransitionDecl.same_eq_same same, TransitionDecl.same_comm]
        exact differ found inside

theorem Distinct.of_fillTransitions
    (distinct : Distinct (Statechart.fillTransitions declared further)) : Distinct declared := by
  induction further generalizing declared with
  | nil => exact distinct
  | cons first further ih =>
      rw [fillTransitions_absorb] at distinct
      exact Distinct.of_absorb (ih distinct)

end Transitions

namespace Layer

theorem fill_empty (layer : Layer δ γ) : layer.fill {} = layer := by
  obtain ⟨initial, states, transitions⟩ := layer
  cases initial <;> simp [fill, fillTransitions]

theorem empty_fill (layer : Layer δ γ) :
    ({} : Layer δ γ).fill layer = { layer with transitions := gatherEach layer.transitions } := by
  obtain ⟨initial, states, transitions⟩ := layer
  simp [fill, fillTransitions_nil]

theorem foldl_fill_with (derived : Layer δ γ) (given : List (TransitionDecl δ γ))
    (bases : List (Layer δ γ)) :
    bases.foldl fill { derived with transitions := given } =
      { bases.foldl fill derived with
        transitions := fillTransitions given (bases.flatMap Layer.transitions) } := by
  induction bases generalizing derived given with
  | nil => rfl
  | cons base bases ih =>
      have first : fill { derived with transitions := given } base =
          { derived.fill base with transitions := fillTransitions given base.transitions } := rfl
      rw [List.foldl_cons, first, ih, List.foldl_cons, List.flatMap_cons, fillTransitions,
        fillTransitions, fillTransitions, List.foldl_append]

theorem merge_append_empty (chain : List (Layer δ γ)) :
    merge (chain ++ [({} : Layer δ γ)]) = merge chain := by
  cases chain with
  | nil => rfl
  | cons derived bases =>
      rw [List.cons_append, merge, List.foldl_append, List.foldl_cons, List.foldl_nil, fill_empty,
        merge]

theorem merge_empty_cons (chain : List (Layer δ γ)) :
    merge ({} :: chain) =
      { merge chain with
        transitions := fillTransitions (gatherEach (foremost chain)) (further chain) } := by
  cases chain with
  | nil => rfl
  | cons derived bases =>
      rw [merge, List.foldl_cons, empty_fill, foldl_fill_with]
      simp [merge, foremost, further]

theorem merge_empty_cons_eq_iff (chain : List (Layer δ γ)) :
    merge ({} :: chain) = merge chain ↔ Distinct (foremost chain) := by
  rw [merge_empty_cons]
  constructor
  · intro unchanged
    have transitions : Statechart.fillTransitions (gatherEach (foremost chain)) (further chain) =
        (merge chain).transitions := congrArg Layer.transitions unchanged
    have distinct := (distinct_gatherEach (foremost chain)).fillTransitions (further chain)
    rw [transitions, transitions_merge] at distinct
    exact distinct.of_fillTransitions
  · intro distinct
    rw [gatherEach_of_distinct distinct, ← transitions_merge]

/--
A layer that declares nothing is neutral as the last base layer.  As the most derived layer it
keeps what the others say of states and of where to start, but joins the declarations of one
transition in the layer next to it; so it is neutral unless there are such declarations.
-/
theorem merge_with_empty (layer : Layer δ γ) (chain : List (Layer δ γ)) :
    layer.fill {} = layer ∧
      ({} : Layer δ γ).fill layer = { layer with transitions := gatherEach layer.transitions } ∧
      (({} : Layer δ γ).fill layer = layer ↔ Distinct layer.transitions) ∧
      merge (chain ++ [({} : Layer δ γ)]) = merge chain ∧
      merge ({} :: chain) =
        { merge chain with
          transitions := fillTransitions (gatherEach (foremost chain)) (further chain) } ∧
      (merge ({} :: chain) = merge chain ↔ Distinct (foremost chain)) := by
  refine ⟨fill_empty layer, empty_fill layer, ?_, merge_append_empty chain,
    merge_empty_cons chain, merge_empty_cons_eq_iff chain⟩
  have single := merge_empty_cons_eq_iff [layer]
  rw [foremost, List.take_succ_cons, List.take_zero, List.flatMap_singleton] at single
  exact single

def twofold : Layer Unit Unit where
  transitions := [performing "go" ["a"], performing "go" ["b"]]

theorem empty_fill_twofold :
    ({} : Layer Unit Unit).fill twofold = { transitions := [performing "go" ["a", "b"]] } ∧
      ({} : Layer Unit Unit).fill twofold ≠ twofold := by
  have joined : ({} : Layer Unit Unit).fill twofold =
      { transitions := [performing "go" ["a", "b"]] } := by cbv
  refine ⟨joined, fun unchanged => ?_⟩
  have lengths := congrArg (fun layer => layer.transitions.length) (joined.symm.trans unchanged)
  contradiction

end Layer

end Statechart
