import Statechart.Hierarchy.Edit
import Statechart.Proofs.Hierarchy.Lineage

namespace Statechart

variable {δ γ : Type}

theorem toOption_eq_some_iff {ε α : Type} {result : Except ε α} {value : α} :
    result.toOption = some value ↔ result = .ok value := by
  cases result <;> simp [Except.toOption]

theorem bind_eq_ok_iff {ε α β : Type} {first : Except ε α} {next : α → Except ε β} {result : β} :
    first >>= next = .ok result ↔ ∃ value, first = .ok value ∧ next value = .ok result := by
  cases first with
  | error error => simp [bind, Except.bind]
  | ok value => simp [bind, Except.bind]

theorem bind_eq_error_iff {ε α β : Type} {first : Except ε α} {next : α → Except ε β} {error : ε} :
    first >>= next = .error error ↔
      first = .error error ∨ ∃ value, first = .ok value ∧ next value = .error error := by
  cases first with
  | error error => simp [bind, Except.bind]
  | ok value => simp [bind, Except.bind]

namespace Change

variable {σ : Type}

theorem andThen_eq_error_iff {change : Change σ} {next : σ → Change σ} {refusal : Refusal σ} :
    change.andThen next = .error refusal ↔
      change = .error refusal ∨
        ∃ changed, change = .ok changed ∧ next changed = .error refusal := by
  cases change with
  | ok changed => simp
  | error refusal => simp

theorem left_of_each_eq_error {α : Type} {step : σ → α → Change σ} {holds : σ → Prop}
    (stopped : ∀ state item refusal, step state item = .error refusal → holds refusal.left)
    {items : List α} {state : σ} {refusal : Refusal σ}
    (refused : each step items state = .error refusal) : holds refusal.left := by
  induction items generalizing state with
  | nil => contradiction
  | cons item items ih =>
      rcases andThen_eq_error_iff.mp refused with first | ⟨next, _, later⟩
      · exact stopped state item refusal first
      · exact ih later

section Related

variable {α : Type} {step : σ → α → Change σ}

theorem related_andThen (related : σ → σ → Prop)
    (trans : ∀ {first second third}, related first second → related second third →
      related first third)
    {state : σ} {change : Change σ} {next : σ → Change σ} (first : related state change.left)
    (second : ∀ middle, related middle (next middle).left) :
    related state (change.andThen next).left := by
  cases change with
  | error refusal => exact first
  | ok middle => exact trans first (second middle)

theorem related_each (related : σ → σ → Prop) (refl : ∀ state, related state state)
    (trans : ∀ {first second third}, related first second → related second third →
      related first third)
    (steps : ∀ state item, related state (step state item).left) (items : List α) (state : σ) :
    related state (each step items state).left := by
  induction items generalizing state with
  | nil => exact refl state
  | cons item items ih => exact related_andThen related trans (steps state item) ih

theorem exists_of_each_eq_error {holds : σ → Prop} {items : List α} {state : σ}
    {refusal : Refusal σ}
    (kept : ∀ state item next, holds state → step state item = .ok next → holds next)
    (start : holds state) (refused : each step items state = .error refusal) :
    ∃ item ∈ items, ∃ before, holds before ∧ step before item = .error refusal := by
  induction items generalizing state with
  | nil => contradiction
  | cons item items ih =>
      rcases andThen_eq_error_iff.mp refused with first | ⟨next, done, later⟩
      · exact ⟨item, List.mem_cons_self, state, start, first⟩
      · obtain ⟨other, member, found⟩ := ih (kept state item next start done) later
        exact ⟨other, List.mem_cons_of_mem item member, found⟩

end Related

end Change

structure Node.SamePlace (node changed : Node δ γ) : Prop where
  id_eq : changed.id = node.id
  parent_eq : changed.parent = node.parent
  children_eq : changed.children = node.children
  level_eq : changed.level = node.level

namespace Node.SamePlace

theorem refl (node : Node δ γ) : node.SamePlace node :=
  ⟨rfl, rfl, rfl, rfl⟩

theorem trans {node middle changed : Node δ γ} (first : node.SamePlace middle)
    (second : middle.SamePlace changed) : node.SamePlace changed where
  id_eq := second.id_eq.trans first.id_eq
  parent_eq := second.parent_eq.trans first.parent_eq
  children_eq := second.children_eq.trans first.children_eq
  level_eq := second.level_eq.trans first.level_eq

end Node.SamePlace

theorem Node.change_eq_ok_iff {node changed result : Node δ γ} :
    node.change changed = .ok result ↔ node.frozen = false ∧ changed = result := by
  unfold Node.change
  cases node.frozen <;> simp

theorem Node.change_eq_error_iff {node changed : Node δ γ} {error : BuildError} :
    node.change changed = .error error ↔
      node.frozen = true ∧ error = .configuration (.stateFrozen node.id) := by
  unfold Node.change
  cases node.frozen <;> simp [eq_comm]

theorem Node.samePlace_of_edit {node changed : Node δ γ} {edit : NodeEdit δ γ}
    (edited : node.edit edit = .ok changed) :
    node.frozen = false ∧ node.SamePlace changed := by
  cases edit <;>
    · obtain ⟨unfrozen, rfl⟩ := Node.change_eq_ok_iff.mp edited
      exact ⟨unfrozen, rfl, rfl, rfl, rfl⟩

namespace Forest

variable {forest changed : Forest δ γ} {node : Node δ γ}

/-- The forest after every node is replaced by another one with the same id. -/
structure Becomes (change : StateId → Node δ γ → Node δ γ) (forest changed : Forest δ γ) :
    Prop where
  ids_eq : changed.ids = forest.ids
  frozen_eq : changed.frozen = forest.frozen
  node?_eq : ∀ id, changed.node? id = (forest.node? id).map (change id)

namespace Becomes

variable {change next : StateId → Node δ γ → Node δ γ}

theorem refl (forest : Forest δ γ) : Becomes (fun _ node => node) forest forest :=
  ⟨rfl, rfl, fun _ => Option.map_id'.symm⟩

theorem trans {middle : Forest δ γ} (first : Becomes change forest middle)
    (second : Becomes next middle changed) :
    Becomes (fun id node => next id (change id node)) forest changed where
  ids_eq := second.ids_eq.trans first.ids_eq
  frozen_eq := second.frozen_eq.trans first.frozen_eq
  node?_eq id := by
    rw [second.node?_eq, first.node?_eq, Option.map_map]
    rfl

theorem congr (becomes : Becomes change forest changed)
    (same : ∀ id node, forest.node? id = some node → change id node = next id node) :
    Becomes next forest changed where
  ids_eq := becomes.ids_eq
  frozen_eq := becomes.frozen_eq
  node?_eq id := by
    rw [becomes.node?_eq]
    cases found : forest.node? id with
    | none => rfl
    | some node => rw [Option.map_some, Option.map_some, same id node found]

theorem contains_eq (becomes : Becomes change forest changed) (id : StateId) :
    changed.contains id = forest.contains id := by
  rw [contains, contains, becomes.node?_eq, Option.isSome_map]

end Becomes

theorem becomes_put (forest : Forest δ γ) (node : Node δ γ) :
    Becomes (fun id old => if id = node.id then node else old) forest (forest.put node) where
  ids_eq := forest.ids_put node
  frozen_eq := rfl
  node?_eq id := by
    have sameIds : (fun old : Node δ γ =>
        decide ((if old.id = node.id then node else old).id = id)) =
        fun old => decide (old.id = id) := by
      funext old
      by_cases hit : old.id = node.id
      · rw [if_pos hit, hit]
      · rw [if_neg hit]
    rw [node?, put, List.find?_map, Function.comp_def, sameIds]
    change (forest.node? id).map _ = _
    cases found : forest.node? id with
    | none => rfl
    | some old => rw [Option.map_some, Option.map_some, id_of_node? found]

theorem becomes_update {id : StateId} {change : Node δ γ → Except BuildError (Node δ γ)}
    (keepsId : ∀ node node', change node = .ok node' → node'.id = node.id)
    (updated : forest.update id change = .ok changed) :
    (forest.node? id = none ∧ changed = forest) ∨
      ∃ node node', forest.node? id = some node ∧ change node = .ok node' ∧
        Becomes (fun other old => if other = id then node' else old) forest changed := by
  unfold update at updated
  cases found : forest.node? id with
  | none =>
      rw [found] at updated
      exact Or.inl ⟨rfl, (Except.ok.inj updated).symm⟩
  | some node =>
      rw [found] at updated
      cases result : change node with
      | error error => simp [result] at updated
      | ok node' =>
          have putEq : forest.put node' = changed := by simpa [result] using updated
          have idEq : node'.id = id := (keepsId node node' result).trans (id_of_node? found)
          have becomes := forest.becomes_put node'
          rw [idEq, putEq] at becomes
          exact Or.inr ⟨node, node', rfl, result, becomes⟩

theorem left_update_of_error {id : StateId} {change : Node δ γ → Except BuildError (Node δ γ)}
    {refusal : Refusal (Forest δ γ)} (updated : forest.update id change = .error refusal) :
    refusal.left = forest ∧ ∃ node error, forest.node? id = some node ∧
      change node = .error error := by
  unfold update at updated
  cases found : forest.node? id with
  | none => simp [found] at updated
  | some node =>
      rw [found] at updated
      cases result : change node with
      | ok node' => simp [result] at updated
      | error error =>
          have refusalEq : ⟨error, forest⟩ = refusal := by simpa [result] using updated
          exact ⟨by rw [← refusalEq], node, error, rfl, result⟩

section Update

variable {id : StateId} {changed : Node δ γ} {change : Node δ γ → Except BuildError (Node δ γ)}

theorem update_of_ok (found : forest.node? id = some node) (done : change node = .ok changed) :
    forest.update id change = .ok (forest.put changed) := by
  simp only [update, found, done]

theorem update_of_error {error : BuildError} (found : forest.node? id = some node)
    (refused : change node = .error error) : forest.update id change = .error ⟨error, forest⟩ := by
  simp only [update, found, refused]

end Update

theorem update_change_eq_error {id : StateId} {change : Node δ γ → Node δ γ}
    {refusal : Refusal (Forest δ γ)}
    (refused : forest.update id (fun node => node.change (change node)) = .error refusal) :
    ∃ node, forest.node? id = some node ∧ node.frozen = true ∧
      refusal = ⟨.configuration (.stateFrozen id), forest⟩ := by
  obtain ⟨_, node, error, found, stopped⟩ := left_update_of_error refused
  obtain ⟨frozen, rfl⟩ := Node.change_eq_error_iff.mp stopped
  rw [update_of_error found stopped, id_of_node? found] at refused
  exact ⟨node, found, frozen, (Except.error.inj refused).symm⟩

theorem WellFormed.of_samePlace {change : StateId → Node δ γ → Node δ γ}
    (wellFormed : forest.WellFormed) (becomes : Becomes change forest changed)
    (keeps : ∀ id node, forest.node? id = some node → node.SamePlace (change id node)) :
    changed.WellFormed := by
  have origin : ∀ {id node'}, changed.node? id = some node' →
      ∃ node, forest.node? id = some node ∧ node.SamePlace node' := by
    intro id node' found
    rw [becomes.node?_eq] at found
    obtain ⟨node, original, rfl⟩ := Option.map_eq_some_iff.mp found
    exact ⟨node, original, keeps id node original⟩
  have image : ∀ {id node}, forest.node? id = some node →
      ∃ node', changed.node? id = some node' ∧ node.SamePlace node' := by
    intro id node found
    exact ⟨change id node, by rw [becomes.node?_eq, found, Option.map_some],
      keeps id node found⟩
  refine ⟨?_, ?_, ?_, ?_, ?_⟩
  · rw [becomes.ids_eq]
    exact wellFormed.ids_nodup
  · intro id node' found
    obtain ⟨node, original, same⟩ := origin found
    rw [same.children_eq]
    exact wellFormed.children_nodup original
  · intro id node' child found
    obtain ⟨node, original, same⟩ := origin found
    rw [same.children_eq, wellFormed.mem_children_iff original]
    constructor
    · rintro ⟨below, belowFound, parentEq⟩
      obtain ⟨below', belowFound', same⟩ := image belowFound
      exact ⟨below', belowFound', same.parent_eq.trans parentEq⟩
    · rintro ⟨below', belowFound', parentEq⟩
      obtain ⟨below, belowFound, same⟩ := origin belowFound'
      exact ⟨below, belowFound, same.parent_eq.symm.trans parentEq⟩
  · intro id node' found root
    obtain ⟨node, original, same⟩ := origin found
    rw [same.level_eq]
    exact wellFormed.level_of_root original (same.parent_eq.symm.trans root)
  · intro id node' parent found nested
    obtain ⟨node, original, same⟩ := origin found
    obtain ⟨above, aboveFound, levelEq⟩ :=
      wellFormed.level_of_parent original (same.parent_eq.symm.trans nested)
    obtain ⟨above', aboveFound', sameAbove⟩ := image aboveFound
    exact ⟨above', aboveFound', by rw [same.level_eq, sameAbove.level_eq, levelEq]⟩

theorem WellFormed.update {id : StateId} {change : Node δ γ → Except BuildError (Node δ γ)}
    (wellFormed : forest.WellFormed)
    (keeps : ∀ node node', change node = .ok node' → node.SamePlace node')
    (updated : forest.update id change = .ok changed) : changed.WellFormed := by
  have keepsId : ∀ node node', change node = .ok node' → node'.id = node.id :=
    fun node node' result => (keeps node node' result).id_eq
  rcases becomes_update keepsId updated with ⟨_, rfl⟩ | ⟨node, node', found, result, becomes⟩
  · exact wellFormed
  · refine wellFormed.of_samePlace becomes fun other old original => ?_
    by_cases hit : other = id
    · subst hit
      rw [found] at original
      cases original
      simpa using keeps node node' result
    · simpa [hit] using Node.SamePlace.refl old

end Forest

end Statechart
