import Mathlib.Data.List.Nodup
import Statechart.Layer.Merge

namespace Statechart

variable {δ γ : Type} {id : StateId} {derived base states : List (StateDecl δ γ)}
  {state : StateDecl δ γ}

def idsOf (states : List (StateDecl δ γ)) : List StateId :=
  states.map StateDecl.id

def declared? (id : StateId) (states : List (StateDecl δ γ)) : Option (StateDecl δ γ) :=
  states.find? fun state => state.id = id

/-- The states that a path leads to: those at the top, or the children of its last state. -/
def siblingsAt : List (StateDecl δ γ) → List StateId → List (StateDecl δ γ)
  | states, [] => states
  | states, id :: path => siblingsAt ((declared? id states).elim [] StateDecl.children) path

/-- No id occurs twice among siblings. -/
inductive Apart : List (StateDecl δ γ) → Prop where
  | intro {states : List (StateDecl δ γ)} (once : (idsOf states).Nodup)
      (nested : ∀ state ∈ states, Apart state.children) : Apart states

namespace Apart

theorem nil : Apart ([] : List (StateDecl δ γ)) :=
  .intro List.nodup_nil fun _ member => absurd member List.not_mem_nil

theorem once (apart : Apart states) : (idsOf states).Nodup := by
  cases apart with
  | intro once _ => exact once

theorem nested (apart : Apart states) (member : state ∈ states) : Apart state.children := by
  cases apart with
  | intro _ nested => exact nested state member

end Apart

theorem mem_of_declared? (found : declared? id states = some state) : state ∈ states :=
  List.mem_of_find?_eq_some found

theorem id_of_declared? (found : declared? id states = some state) : state.id = id := by
  simpa using List.find?_some found

theorem declared?_cons :
    declared? id (state :: states) = if state.id = id then some state else declared? id states := by
  rw [declared?, List.find?_cons]
  split <;> simp_all [declared?]

theorem declared?_eq_none_iff : declared? id states = none ↔ id ∉ idsOf states := by
  simp [declared?, idsOf]

theorem declared?_of_mem (once : (idsOf states).Nodup) (member : state ∈ states) :
    declared? state.id states = some state := by
  cases found : declared? state.id states with
  | none => exact absurd (List.mem_map_of_mem member) (declared?_eq_none_iff.mp found)
  | some other =>
      rw [List.inj_on_of_nodup_map once (mem_of_declared? found) member (id_of_declared? found)]

theorem declared?_without (other : StateId) :
    declared? id (states.filter fun state => state.id ≠ other) =
      if id = other then none else declared? id states := by
  induction states with
  | nil => simp [declared?]
  | cons state states ih =>
      by_cases skipped : state.id = other
      · rw [List.filter_cons_of_neg (by simpa using skipped), ih, declared?_cons, ← skipped]
        split
        · rfl
        · next differ => rw [if_neg (Ne.symm differ)]
      · rw [List.filter_cons_of_pos (by simpa using skipped), declared?_cons, declared?_cons, ih]
        split
        · next same =>
          rw [if_neg]
          exact fun clash => skipped (same.trans clash)
        · rfl

theorem idsOf_without (other : StateId) :
    idsOf (states.filter fun state => state.id ≠ other) =
      (idsOf states).filter fun id => id ≠ other := by
  rw [idsOf, idsOf, List.filter_map]
  rfl

theorem takeState?_eq (once : (idsOf states).Nodup) :
    takeState? id states = (declared? id states).map fun found =>
      (found, states.filter fun state => state.id ≠ id) := by
  induction states with
  | nil => rfl
  | cons state states ih =>
      obtain ⟨fresh, once⟩ := List.nodup_cons.mp once
      rw [takeState?, declared?_cons]
      split
      · next same =>
        have stays : states.filter (fun state => state.id ≠ id) = states := by
          refine List.filter_eq_self.mpr fun other member => ?_
          have listed : other.id ∈ idsOf states := List.mem_map_of_mem member
          simp only [decide_eq_true_eq]
          intro clash
          exact fresh (same ▸ clash ▸ listed)
        rw [Option.map_some, List.filter_cons_of_neg (by simpa using same), stays]
      · next differ =>
        rw [ih once]
        cases declared? id states <;> simp [differ]

@[simp] theorem StateDecl.id_fill (derived base : StateDecl δ γ) :
    (derived.fill base).id = base.id := by
  cases base
  rfl

@[simp] theorem StateDecl.traits_fill (derived base : StateDecl δ γ) :
    (derived.fill base).traits = derived.traits.fill base.traits := by
  cases base
  rfl

@[simp] theorem StateDecl.children_fill (derived base : StateDecl δ γ) :
    (derived.fill base).children = fillStates derived.children base.children := by
  cases base
  rfl

@[simp] theorem fillStates_right_nil : fillStates derived [] = derived :=
  rfl

theorem fillStates_cons_of_some {first : StateDecl δ γ} (once : (idsOf derived).Nodup)
    (found : declared? first.id derived = some state) :
    fillStates derived (first :: base) =
      state.fill first :: fillStates (derived.filter fun other => other.id ≠ first.id) base := by
  simp only [fillStates, takeState?_eq once, found, Option.map_some]

theorem fillStates_cons_of_none {first : StateDecl δ γ} (once : (idsOf derived).Nodup)
    (absent : declared? first.id derived = none) :
    fillStates derived (first :: base) = first :: fillStates derived base := by
  simp only [fillStates, takeState?_eq once, absent, Option.map_none]

@[simp] theorem fillStates_left_nil : fillStates [] base = base := by
  induction base with
  | nil => rfl
  | cons first base ih => rw [fillStates_cons_of_none (by simp [idsOf]) rfl, ih]

theorem nodup_without (once : (idsOf states).Nodup) (other : StateId) :
    (idsOf (states.filter fun state => state.id ≠ other)).Nodup := by
  rw [idsOf_without]
  exact once.filter _

theorem declared?_fillStates (onceDerived : (idsOf derived).Nodup) (once : (idsOf base).Nodup) :
    declared? id (fillStates derived base) =
      Option.merge StateDecl.fill (declared? id derived) (declared? id base) := by
  -- States of the derived layer are taken out of it as the base layer comes up with them.
  induction base generalizing derived with
  | nil => simp [declared?]
  | cons first base ih =>
      obtain ⟨fresh, once⟩ := List.nodup_cons.mp once
      cases found : declared? first.id derived with
      | some state =>
          rw [fillStates_cons_of_some onceDerived found, declared?_cons, declared?_cons,
            ih (nodup_without onceDerived _) once, declared?_without, StateDecl.id_fill]
          by_cases same : first.id = id
          · subst same
            simp [found]
          · simp [same, Ne.symm same]
      | none =>
          rw [fillStates_cons_of_none onceDerived found, declared?_cons, declared?_cons,
            ih onceDerived once]
          by_cases same : first.id = id
          · subst same
            simp [found]
          · simp [same]

theorem idsOf_fillStates (once : (idsOf derived).Nodup) :
    idsOf (fillStates derived base) =
      idsOf base ++ (idsOf derived).filter fun id => id ∉ idsOf base := by
  induction base generalizing derived with
  | nil => simp [idsOf]
  | cons first base ih =>
      cases found : declared? first.id derived with
      | some state =>
          rw [fillStates_cons_of_some once found]
          have rest := ih (nodup_without once first.id)
          rw [idsOf_without, List.filter_filter] at rest
          simp only [idsOf, List.map_cons, StateDecl.id_fill, List.cons_append] at rest ⊢
          rw [rest]
          simp [Bool.and_comm]
      | none =>
          have absent : first.id ∉ idsOf derived := declared?_eq_none_iff.mp found
          rw [fillStates_cons_of_none once found]
          have rest := ih once
          simp only [idsOf, List.map_cons, List.cons_append] at rest absent ⊢
          rw [rest]
          congr 2
          refine List.filter_congr fun id listed => ?_
          have differ : id ≠ first.id := fun same => absent (same ▸ listed)
          simp [differ]

theorem nodup_idsOf_fillStates (onceDerived : (idsOf derived).Nodup)
    (once : (idsOf base).Nodup) : (idsOf (fillStates derived base)).Nodup := by
  rw [idsOf_fillStates onceDerived]
  refine List.nodup_append.mpr ⟨once, onceDerived.filter _, ?_⟩
  rintro id listed other kept rfl
  simpa [listed] using (List.mem_filter.mp kept).2

theorem Apart.fillStates (apartDerived : Apart derived) (apart : Apart base) :
    Apart (fillStates derived base) := by
  -- The recursion goes down the base layer; what only the derived layer nests is taken over whole.
  induction apart generalizing derived with
  | @intro base once nested ih =>
      have onceFilled := nodup_idsOf_fillStates apartDerived.once once
      refine .intro onceFilled fun state member => ?_
      have found := declared?_of_mem onceFilled member
      rw [declared?_fillStates apartDerived.once once, Option.merge_eq_some_iff] at found
      rcases found with ⟨own, _⟩ | ⟨_, other⟩ | ⟨own, other, ownFound, otherFound, rfl⟩
      · exact apartDerived.nested (mem_of_declared? own)
      · exact nested state (mem_of_declared? other)
      · rw [StateDecl.children_fill]
        exact ih other (mem_of_declared? otherFound)
          (apartDerived.nested (mem_of_declared? ownFound))

@[simp] theorem siblingsAt_nil (path : List StateId) :
    siblingsAt ([] : List (StateDecl δ γ)) path = [] := by
  induction path with
  | nil => rfl
  | cons id path ih => exact ih

theorem Apart.siblingsAt (apart : Apart states) (path : List StateId) :
    Apart (siblingsAt states path) := by
  induction path generalizing states with
  | nil => exact apart
  | cons id path ih =>
      rw [Statechart.siblingsAt]
      cases found : declared? id states with
      | none => exact ih .nil
      | some state => exact ih (apart.nested (mem_of_declared? found))

theorem siblingsAt_fillStates (apartDerived : Apart derived) (apart : Apart base)
    (path : List StateId) :
    siblingsAt (fillStates derived base) path =
      fillStates (siblingsAt derived path) (siblingsAt base path) := by
  induction path generalizing derived base with
  | nil => rfl
  | cons id path ih =>
      rw [siblingsAt, siblingsAt, siblingsAt, declared?_fillStates apartDerived.once apart.once]
      cases found : declared? id derived with
      | none => simp
      | some own =>
          cases foundBase : declared? id base with
          | none => simp
          | some other =>
              rw [Option.merge_some_some, Option.elim_some, StateDecl.children_fill]
              exact ih (apartDerived.nested (mem_of_declared? found))
                (apart.nested (mem_of_declared? foundBase))

end Statechart
