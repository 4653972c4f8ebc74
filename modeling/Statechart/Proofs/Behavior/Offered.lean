import Mathlib.Data.List.Permutation
import Statechart.Proofs.Behavior.Arranged
import Statechart.Proofs.Behavior.Performed

namespace Statechart

variable {δ γ : Type}

inductive ListEdit (δ γ : Type) where
  | push (slot : Slot δ γ)
  | extend (slots : List (Slot δ γ))
  /-- Puts a list made of the slots in place of the old one. -/
  | collect (slots : List (Slot δ γ))
  | sort

/-- What has been offered to a list since it was made or last collected. -/
def ListEdit.offers (offered : List (Slot δ γ)) : ListEdit δ γ → List (Slot δ γ)
  | .push slot => offered ++ [slot]
  | .extend slots => offered ++ slots
  | .collect slots => slots
  | .sort => offered

def offeredBy (edits : List (ListEdit δ γ)) : List (Slot δ γ) :=
  edits.foldl ListEdit.offers []

/-- The slot is offered, and none before it has the same handler. -/
def FirstOffer (offered : List (Slot δ γ)) (slot : Slot δ γ) : Prop :=
  ∃ before after, offered = before ++ slot :: after ∧ slot.handler.key ∉ keysOf before

theorem firstOffer_cons_iff {first slot : Slot δ γ} {offered : List (Slot δ γ)} :
    FirstOffer (first :: offered) slot ↔
      slot = first ∨ (FirstOffer offered slot ∧ slot.handler.key ≠ first.handler.key) := by
  constructor
  · rintro ⟨before, after, split, fresh⟩
    cases before with
    | nil => exact Or.inl (List.cons.inj split).1.symm
    | cons other before =>
        obtain ⟨rfl, rest⟩ := List.cons.inj split
        rw [keysOf, List.map_cons, List.mem_cons, not_or] at fresh
        exact Or.inr ⟨⟨before, after, rest, fresh.2⟩, fresh.1⟩
  · rintro (rfl | ⟨⟨before, after, rfl, fresh⟩, differ⟩)
    · exact ⟨[], offered, rfl, List.not_mem_nil⟩
    · refine ⟨first :: before, after, rfl, ?_⟩
      rw [keysOf, List.map_cons, List.mem_cons, not_or]
      exact ⟨differ, fresh⟩

theorem mem_firstOfEach_iff {slot : Slot δ γ} {offered : List (Slot δ γ)} :
    slot ∈ firstOfEach offered ↔ FirstOffer offered slot := by
  induction offered with
  | nil =>
      simp only [firstOfEach, List.not_mem_nil, false_iff]
      rintro ⟨before, after, split, _⟩
      exact List.append_ne_nil_of_right_ne_nil before (List.cons_ne_nil slot after) split.symm
  | cons first offered ih =>
      rw [firstOffer_cons_iff, ← ih, firstOfEach, List.mem_cons, List.mem_filter,
        decide_eq_true_eq]

namespace ActionList

def edit (list : ActionList δ γ) : ListEdit δ γ → ActionList δ γ
  | .push slot => (list.push slot).1
  | .extend slots => list.extend slots
  | .collect slots => ofSlots slots
  | .sort => list.sort

def after (edits : List (ListEdit δ γ)) : ActionList δ γ :=
  edits.foldl edit {}

def Gathers (list : ActionList δ γ) (offered : List (Slot δ γ)) : Prop :=
  list.slots.Perm (firstOfEach offered)

variable {list : ActionList δ γ} {slot : Slot δ γ} {offered : List (Slot δ γ)}

namespace Gathers

theorem keys_perm (gathers : list.Gathers offered) :
    list.keys.Perm (keysOf (firstOfEach offered)) :=
  gathers.map Slot.key

theorem mem_keys_iff (gathers : list.Gathers offered) {key : HandlerKey} :
    key ∈ list.keys ↔ key ∈ keysOf offered :=
  gathers.keys_perm.mem_iff.trans mem_keysOf_firstOfEach

theorem nodup_keys (gathers : list.Gathers offered) : list.keys.Nodup :=
  gathers.keys_perm.nodup_iff.mpr (nodup_keysOf_firstOfEach offered)

theorem extend (gathers : list.Gathers offered) (slots : List (Slot δ γ)) :
    (list.extend slots).Gathers (offered ++ slots) := by
  rw [Gathers, slots_extend, firstOfEach_append]
  simp only [gathers.mem_keys_iff]
  exact List.Perm.append_right _ gathers

theorem edit (gathers : list.Gathers offered) (edit : ListEdit δ γ) :
    (list.edit edit).Gathers (edit.offers offered) := by
  cases edit with
  | push slot => exact gathers.extend [slot]
  | extend slots => exact gathers.extend slots
  | collect slots =>
      have slotsEq : (ofSlots slots).slots = firstOfEach slots := slots_extend_empty slots
      exact List.Perm.of_eq slotsEq
  | sort => exact (sort_perm list).trans gathers

theorem edits (gathers : list.Gathers offered) (edits : List (ListEdit δ γ)) :
    (edits.foldl ActionList.edit list).Gathers (edits.foldl ListEdit.offers offered) := by
  induction edits generalizing list offered with
  | nil => exact gathers
  | cons edit edits ih => exact ih (gathers.edit edit)

end Gathers

theorem gathers_after (edits : List (ListEdit δ γ)) : (after edits).Gathers (offeredBy edits) := by
  have empty : ({} : ActionList δ γ).Gathers [] := List.Perm.refl []
  exact empty.edits edits

theorem push_eq_iff (list : ActionList δ γ) (slot : Slot δ γ) :
    ((list.push slot).2 = true ↔ slot.handler.key ∉ list.keys) ∧
      (list.push slot).1.slots = list.slots ++ (if (list.push slot).2 then [slot] else []) := by
  unfold push
  split <;> simp [*]

/--
Whatever was done to a list, it holds no handler twice, and exactly the slots that were the first to
offer their handlers; a further slot is added at the end, but only if its handler is not there.
Sorted, its weights do not increase, and slots of one weight are in the order they were in.  It runs
in its order up to the first failure, and what was done before that stays done.
-/
theorem after_invariant (edits : List (ListEdit δ γ)) :
    (after edits).keys.Nodup ∧
      (∀ slot, slot ∈ (after edits).slots ↔ FirstOffer (offeredBy edits) slot) ∧
      (∀ slot, (((after edits).push slot).2 = true ↔ slot.handler.key ∉ (after edits).keys) ∧
        ((after edits).push slot).1.slots =
          (after edits).slots ++ (if ((after edits).push slot).2 then [slot] else [])) ∧
      (after edits).sort.slots.Pairwise (fun first second => second.weight ≤ first.weight) ∧
      (∀ first second : Slot δ γ, first.weight = second.weight →
        ([first, second].Sublist (after edits).sort.slots ↔
          [first, second].Sublist (after edits).slots)) ∧
      ∀ scope data, Performs scope (after edits).slots data ((after edits).run scope data) := by
  have gathers := gathers_after edits
  have ranked := ranked_mergeSort Slot.weight (after edits).slots
  refine ⟨gathers.nodup_keys, fun slot => ?_, push_eq_iff _, ranked.descending,
    fun first second same => ranked.pair_sublist_iff same, fun scope => performs_runSlots scope _⟩
  rw [gathers.mem_iff, mem_firstOfEach_iff]

def chime (tag : Nat) (weight : Weight) : Slot (List Nat) Unit :=
  ⟨.action ⟨tag, fun _ data => ⟨data ++ [tag], [], if tag = 2 then some "stuck" else none⟩⟩, weight⟩

def chimes : List (ListEdit (List Nat) Unit) :=
  [.collect [chime 4 1], .collect [chime 0 1], .extend [chime 1 10, chime 0 100], .sort,
    .push (chime 2 10), .push (chime 3 (-10)), .sort]

theorem after_invariant_chimes :
    (after chimes).keys = [.tag 1, .tag 2, .tag 0, .tag 3] ∧
      FirstOffer (offeredBy chimes) (chime 0 1) ∧
      ¬FirstOffer (offeredBy chimes) (chime 0 100) ∧
      [chime 1 10, chime 2 10].Sublist (after chimes).sort.slots ∧
      ((after chimes).run ⟨none, none, ⟨"e"⟩, ()⟩ []).data = [1, 2] := by
  have slotsEq : (after chimes).slots = [chime 1 10, chime 2 10, chime 0 1, chime 3 (-10)] := by
    cbv
  obtain ⟨_, holds, _, _, order, _⟩ := after_invariant chimes
  refine ⟨by rw [keys, slotsEq]; rfl, (holds _).mp ?_, fun first => ?_,
    (order (chime 1 10) (chime 2 10) rfl).mpr ?_, ?_⟩
  · simp [slotsEq]
  · have member : (chime 0 100).weight ∈ (after chimes).slots.map Slot.weight :=
      List.mem_map_of_mem ((holds _).mpr first)
    rw [slotsEq] at member
    exact absurd member (by decide)
  · rw [slotsEq]
    simp
  · rw [run, slotsEq]
    rfl

end ActionList

end Statechart
