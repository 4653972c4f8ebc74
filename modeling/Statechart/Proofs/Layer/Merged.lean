import Mathlib.Data.List.Dedup
import Statechart.Proofs.Layer.Nesting

namespace Statechart

variable {δ γ : Type}

def joinAll {α : Type} : List (List α) → Option (List α)
  | [] => none
  | lists => some lists.flatten

/-- What declarations of one state amount to, the most derived one first. -/
def Traits.combine : List (Traits δ γ) → Option (Traits δ γ)
  | [] => none
  | declared =>
    some
      { entry := joinAll (declared.filterMap Traits.entry)
        exit := joinAll (declared.filterMap Traits.exit)
        isFinal := declared.findSome? Traits.isFinal
        isInitial := declared.findSome? Traits.isInitial
        history := declared.findSome? Traits.history
        composition := declared.findSome? Traits.composition }

theorem filterMap_cons_eq_append {α β : Type} (f : α → Option β) (a : α) (l : List α) :
    (a :: l).filterMap f = (f a).toList ++ l.filterMap f := by
  cases h : f a <;> simp [h]

theorem findSome?_cons_eq_or {α β : Type} (f : α → Option β) (a : α) (l : List α) :
    (a :: l).findSome? f = (f a).or (l.findSome? f) := by
  cases h : f a <;> simp [h]

@[simp] theorem joinAll_toList {α : Type} (list : Option (List α)) :
    joinAll list.toList = list := by
  cases list <;> simp [joinAll]

theorem joinAll_joinLists {α : Type} (derived base : Option (List α)) (lists : List (List α)) :
    joinAll ((joinLists derived base).toList ++ lists) =
      joinAll (derived.toList ++ (base.toList ++ lists)) := by
  cases derived <;> cases base <;> simp [joinLists, joinAll]

namespace Traits

theorem combine_singleton (declared : Traits δ γ) : combine [declared] = some declared := by
  simp [combine, filterMap_cons_eq_append, findSome?_cons_eq_or]

theorem combine_fill (derived base : Traits δ γ) (rest : List (Traits δ γ)) :
    combine (derived.fill base :: rest) = combine (derived :: base :: rest) := by
  simp [combine, filterMap_cons_eq_append, findSome?_cons_eq_or, fill, joinAll_joinLists,
    Option.or_assoc]

end Traits

theorem eraseDups_append_fresh {α : Type} [DecidableEq α] (before base derived : List α) :
    (before ++ (base ++ derived.filter fun a => a ∉ base)).eraseDups =
      (before ++ (base ++ derived)).eraseDups := by
  have fresh : (derived.filter fun a => a ∉ base).removeAll (before ++ base) =
      derived.removeAll (before ++ base) := by
    simp only [List.removeAll, List.filter_filter]
    refine List.filter_congr fun a _ => ?_
    by_cases listed : a ∈ base <;> simp [listed]
  rw [← List.append_assoc, ← List.append_assoc, List.eraseDups_append, fresh,
    ← List.eraseDups_append]

theorem eraseDups_eq_self {α : Type} [DecidableEq α] {l : List α} (once : l.Nodup) :
    l.eraseDups = l := by
  induction l with
  | nil => rfl
  | cons a l ih =>
      obtain ⟨fresh, once⟩ := List.nodup_cons.mp once
      have stays : l.filter (fun b => !b == a) = l :=
        List.filter_eq_self.mpr fun b member => by
          simpa using fun same : b = a => fresh (same ▸ member)
      rw [List.eraseDups_cons, stays, ih once]

namespace Layer

variable {layer derived base : Layer δ γ} {chain : List (Layer δ γ)}

/-- No state has two declarations at one path. -/
def Plain (layer : Layer δ γ) : Prop :=
  Apart layer.states

/-- The names that stand side by side at a path, in their order. -/
def namesAt (layer : Layer δ γ) (path : List StateId) : List StateId :=
  idsOf (siblingsAt layer.states path)

def traits? (layer : Layer δ γ) (path : List StateId) (id : StateId) : Option (Traits δ γ) :=
  (declared? id (siblingsAt layer.states path)).map StateDecl.traits

namespace Plain

theorem empty : Plain ({} : Layer δ γ) :=
  Apart.nil

theorem once (plain : layer.Plain) (path : List StateId) : (layer.namesAt path).Nodup :=
  (plain.siblingsAt path).once

theorem fill (plainDerived : derived.Plain) (plain : base.Plain) : (derived.fill base).Plain :=
  Apart.fillStates plainDerived plain

end Plain

theorem namesAt_fill (plainDerived : derived.Plain) (plain : base.Plain) (path : List StateId) :
    (derived.fill base).namesAt path =
      base.namesAt path ++ (derived.namesAt path).filter fun id => id ∉ base.namesAt path := by
  rw [namesAt, fill, siblingsAt_fillStates plainDerived plain]
  exact idsOf_fillStates (plainDerived.once path)

theorem traits?_fill (plainDerived : derived.Plain) (plain : base.Plain) (path : List StateId)
    (id : StateId) :
    (derived.fill base).traits? path id =
      Option.merge Traits.fill (derived.traits? path id) (base.traits? path id) := by
  rw [traits?, fill, siblingsAt_fillStates plainDerived plain,
    declared?_fillStates (plainDerived.once path) (plain.once path), traits?, traits?]
  cases declared? id (siblingsAt derived.states path) <;>
    cases declared? id (siblingsAt base.states path) <;> simp

theorem plain_merge (plain : ∀ layer ∈ chain, layer.Plain) : (merge chain).Plain := by
  cases chain with
  | nil => exact .empty
  | cons derived bases =>
      rw [merge]
      induction bases generalizing derived with
      | nil => exact plain derived List.mem_cons_self
      | cons base bases ih =>
          refine ih (derived.fill base) fun layer member => ?_
          rcases List.mem_cons.mp member with rfl | member
          · exact (plain derived (by simp)).fill (plain base (by simp))
          · exact plain layer (by simp [member])

/-- A chain is merged layer by layer, so it suffices that a view of all the layers does not change
when the first two of them become one. -/
theorem view_merge {α : Type} (view : Layer δ γ → α) (total : List (Layer δ γ) → α)
    (nothing : view {} = total []) (single : ∀ layer, layer.Plain → view layer = total [layer])
    (step : ∀ derived base bases, derived.Plain → base.Plain →
      total (derived.fill base :: bases) = total (derived :: base :: bases))
    (plain : ∀ layer ∈ chain, layer.Plain) : view (merge chain) = total chain := by
  cases chain with
  | nil => exact nothing
  | cons derived bases =>
      rw [merge]
      induction bases generalizing derived with
      | nil => exact single derived (plain derived List.mem_cons_self)
      | cons base bases ih =>
          have plainDerived := plain derived (by simp)
          have plainBase := plain base (by simp)
          rw [List.foldl_cons, ih, step derived base bases plainDerived plainBase]
          intro layer member
          rcases List.mem_cons.mp member with rfl | member
          · exact plainDerived.fill plainBase
          · exact plain layer (by simp [member])

theorem initial_merge (plain : ∀ layer ∈ chain, layer.Plain) :
    (merge chain).initial = chain.findSome? Layer.initial := by
  refine view_merge Layer.initial (List.findSome? Layer.initial) rfl (fun layer _ => ?_)
    (fun derived base bases _ _ => ?_) plain
  · simp [findSome?_cons_eq_or]
  · simp [findSome?_cons_eq_or, fill, Option.or_assoc]

theorem namesAt_merge (plain : ∀ layer ∈ chain, layer.Plain) (path : List StateId) :
    (merge chain).namesAt path =
      (chain.reverse.flatMap fun layer => layer.namesAt path).eraseDups := by
  refine view_merge (fun layer => layer.namesAt path)
    (fun chain => (chain.reverse.flatMap fun layer => layer.namesAt path).eraseDups)
    ?_ (fun layer plain => ?_) (fun derived base bases plainDerived plain => ?_) plain
  · simp [namesAt, idsOf]
  · simp [eraseDups_eq_self (plain.once path)]
  · simp only [List.reverse_cons, List.flatMap_append, List.flatMap_singleton,
      namesAt_fill plainDerived plain, List.append_assoc, eraseDups_append_fresh]

theorem traits?_merge (plain : ∀ layer ∈ chain, layer.Plain) (path : List StateId) (id : StateId) :
    (merge chain).traits? path id =
      Traits.combine (chain.filterMap fun layer => layer.traits? path id) := by
  refine view_merge (fun layer => layer.traits? path id)
    (fun chain => Traits.combine (chain.filterMap fun layer => layer.traits? path id))
    ?_ (fun layer _ => ?_) (fun derived base bases plainDerived plain => ?_) plain
  · simp [traits?, declared?, Traits.combine]
  · cases said : layer.traits? path id with
    | none => simp [said, Traits.combine]
    | some traits => simp [said, Traits.combine_singleton]
  · simp only [filterMap_cons_eq_append, traits?_fill plainDerived plain]
    cases derived.traits? path id <;> cases base.traits? path id <;> simp [Traits.combine_fill]

theorem mem_namesAt_merge (plain : ∀ layer ∈ chain, layer.Plain) {path : List StateId}
    {id : StateId} :
    id ∈ (merge chain).namesAt path ↔ ∃ layer ∈ chain, id ∈ layer.namesAt path := by
  simp [namesAt_merge plain]

/-- The states of the merged layer, every path and every name at once. -/
theorem merge_states (plain : ∀ layer ∈ chain, layer.Plain) :
    (merge chain).Plain ∧
      (merge chain).initial = chain.findSome? Layer.initial ∧
      ∀ path,
        (merge chain).namesAt path =
            (chain.reverse.flatMap fun layer => layer.namesAt path).eraseDups ∧
          ((merge chain).namesAt path).Nodup ∧
          ∀ id,
            (id ∈ (merge chain).namesAt path ↔ ∃ layer ∈ chain, id ∈ layer.namesAt path) ∧
              (merge chain).traits? path id =
                Traits.combine (chain.filterMap fun layer => layer.traits? path id) :=
  ⟨plain_merge plain, initial_merge plain, fun path =>
    ⟨namesAt_merge plain path, (plain_merge plain).once path, fun id =>
      ⟨mem_namesAt_merge plain, traits?_merge plain path id⟩⟩⟩

def tiers : List (Layer Unit Unit) :=
  [ { states :=
        [ .mk ⟨"B"⟩ { history := some .deep } [.mk ⟨"B3"⟩ {} [], .mk ⟨"B2"⟩ {} []],
          .mk ⟨"A"⟩ { entry := some [.written "third"] } [] ] },
    { initial := some ⟨"B"⟩
      states := [.mk ⟨"A"⟩ { entry := some [.written "second"], isFinal := some false } []] },
    { initial := some ⟨"A"⟩
      states :=
        [ .mk ⟨"A"⟩ { entry := some [.written "first"], exit := some [.written "last"] } [],
          .mk ⟨"B"⟩ { history := some .shallow } [.mk ⟨"B1"⟩ {} [], .mk ⟨"B2"⟩ {} []] ] } ]

theorem merge_states_tiers :
    (merge tiers).initial = some ⟨"B"⟩ ∧
      (merge tiers).namesAt [⟨"B"⟩] = [⟨"B1"⟩, ⟨"B2"⟩, ⟨"B3"⟩] ∧
      (merge tiers).traits? [] ⟨"A"⟩ = some
        { entry := some [.written "third", .written "second", .written "first"]
          exit := some [.written "last"]
          isFinal := some false } := by
  have leaf {id : StateId} {traits : Traits Unit Unit} :
      Apart (StateDecl.mk id traits []).children := .nil
  have pair {id id' : StateId} (differ : id ≠ id') :
      Apart ([.mk id {} [], .mk id' {} []] : List (StateDecl Unit Unit)) :=
    .intro (by simpa [idsOf, StateDecl.id] using differ) (by simp [leaf])
  have plain : ∀ layer ∈ tiers, layer.Plain := by
    simp only [tiers, List.forall_mem_cons]
    refine ⟨.intro (by decide) ?_, .intro (by decide) ?_, .intro (by decide) ?_, by simp⟩ <;>
      simp only [List.forall_mem_cons, List.not_mem_nil, false_implies, implies_true, and_true]
    · exact ⟨pair (by decide), leaf⟩
    · exact leaf
    · exact ⟨leaf, pair (by decide)⟩
  obtain ⟨_, initial, inside⟩ := merge_states plain
  obtain ⟨names, _, _⟩ := inside [⟨"B"⟩]
  obtain ⟨_, _, states⟩ := inside []
  rw [initial, names, (states ⟨"A"⟩).2]
  refine ⟨by cbv, by cbv, by cbv⟩

end Layer

end Statechart
