import Mathlib.Data.List.Forall2
import Mathlib.Data.List.Nodup
import Statechart.Chart.Assembly
import Statechart.Proofs.Behavior.Ranked
import Statechart.Proofs.Hierarchy.Change

namespace Statechart

variable {δ γ : Type}

def keysOf (slots : List (Slot δ γ)) : List HandlerKey :=
  slots.map fun slot => slot.handler.key

/-- The slots whose handlers do not come up before them. -/
def firstOfEach : List (Slot δ γ) → List (Slot δ γ)
  | [] => []
  | slot :: rest =>
    slot :: (firstOfEach rest).filter fun other => other.handler.key ≠ slot.handler.key

section FirstOfEach

variable {slot : Slot δ γ} {slots more : List (Slot δ γ)}

theorem firstOfEach_sublist : ∀ slots : List (Slot δ γ), (firstOfEach slots).Sublist slots
  | [] => .slnil
  | slot :: rest => (List.filter_sublist.trans (firstOfEach_sublist rest)).cons_cons slot

theorem mem_keysOf_firstOfEach {key : HandlerKey} :
    key ∈ keysOf (firstOfEach slots) ↔ key ∈ keysOf slots := by
  induction slots with
  | nil => rfl
  | cons slot rest ih =>
      have split : key ∈ keysOf (slot :: rest) ↔
          key = slot.handler.key ∨ key ∈ keysOf rest := List.mem_cons
      rw [split, ← ih, firstOfEach, keysOf, List.map_cons, List.mem_cons]
      by_cases same : key = slot.handler.key
      · simp [same]
      · simp only [same, false_or, keysOf, List.mem_map, List.mem_filter]
        constructor
        · rintro ⟨other, ⟨member, _⟩, rfl⟩
          exact ⟨other, member, rfl⟩
        · rintro ⟨other, member, rfl⟩
          exact ⟨other, ⟨member, decide_eq_true same⟩, rfl⟩

theorem nodup_keysOf_firstOfEach (slots : List (Slot δ γ)) :
    (keysOf (firstOfEach slots)).Nodup := by
  induction slots with
  | nil => exact List.nodup_nil
  | cons slot rest ih =>
      rw [firstOfEach, keysOf, List.map_cons, List.nodup_cons]
      refine ⟨?_, ih.sublist (List.filter_sublist.map _)⟩
      simp

theorem firstOfEach_append (slots more : List (Slot δ γ)) :
    firstOfEach (slots ++ more) =
      firstOfEach slots ++
        (firstOfEach more).filter fun slot => slot.handler.key ∉ keysOf slots := by
  induction slots with
  | nil => simp [firstOfEach, keysOf]
  | cons slot slots ih =>
      rw [List.cons_append, firstOfEach, ih, List.filter_append, List.filter_filter, firstOfEach,
        List.cons_append]
      congr 2
      refine List.filter_congr fun other _ => ?_
      simp [keysOf]

theorem mem_firstOfEach_of_fresh (fresh : slot.handler.key ∉ keysOf slots) :
    slot ∈ firstOfEach (slots ++ slot :: more) := by
  rw [firstOfEach_append, List.mem_append, List.mem_filter, firstOfEach]
  exact Or.inr ⟨List.mem_cons_self, decide_eq_true fresh⟩

end FirstOfEach

namespace ActionList

variable {list : ActionList δ γ}

theorem slots_extend (list : ActionList δ γ) (slots : List (Slot δ γ)) :
    (list.extend slots).slots =
      list.slots ++ (firstOfEach slots).filter fun slot => slot.handler.key ∉ list.keys := by
  induction slots generalizing list with
  | nil => simp [extend, firstOfEach]
  | cons slot slots ih =>
      have step : list.extend (slot :: slots) = (list.push slot).1.extend slots := rfl
      rw [step, ih, keys_push, push, firstOfEach]
      by_cases known : slot.handler.key ∈ list.keys
      · rw [if_pos known, if_pos known, List.filter_cons_of_neg (by simpa using known),
          List.filter_filter]
        congr 1
        refine List.filter_congr fun other _ => ?_
        by_cases again : other.handler.key ∈ list.keys
        · simp [again]
        · have differ : other.handler.key ≠ slot.handler.key := fun same => again (same ▸ known)
          simp [again, differ]
      · rw [if_neg known, if_neg known, List.filter_cons_of_pos (by simpa using known),
          List.filter_filter, List.append_assoc, List.singleton_append]
        congr 2
        refine List.filter_congr fun other _ => ?_
        simp

theorem slots_extend_of_firstOfEach {slots : List (Slot δ γ)}
    (slotsEq : list.slots = firstOfEach slots) (more : List (Slot δ γ)) :
    (list.extend more).slots = firstOfEach (slots ++ more) := by
  rw [slots_extend, slotsEq, firstOfEach_append]
  congr 1
  refine List.filter_congr fun other _ => ?_
  rw [decide_eq_decide, keys, slotsEq, ← keysOf, mem_keysOf_firstOfEach]

theorem slots_extend_empty (slots : List (Slot δ γ)) :
    (extend ({} : ActionList δ γ) slots).slots = firstOfEach slots := by
  have empty : ({} : ActionList δ γ).slots = firstOfEach [] := rfl
  exact slots_extend_of_firstOfEach empty slots

end ActionList

namespace ActionRef

/-- The name that a reference gives, blanks apart, and the weight that goes with it. -/
inductive Names : ActionRef δ γ → String → Weight → Prop where
  | written {text name : String} {weight : Weight} (parsed : parse text = .ok (name, weight)) :
      Names (.written text) name weight
  | named (text : String) (weight : Weight) :
      Names (.named text weight) (String.ofList (Text.trim text.toList)) weight

/-- The slot that a reference stands for.  All uses of a name share what the name stands for. -/
inductive Binds (registry : Registry δ γ) : ActionRef δ γ → Slot δ γ → Prop where
  | direct (action : Action δ γ) (weight : Weight) :
      Binds registry (.direct action weight) ⟨.action action, weight⟩
  | registered {ref : ActionRef δ γ} {name : String} {weight : Weight} {action : Action δ γ}
      (names : ref.Names name weight) (found : registry.action? name = some action) :
      Binds registry ref ⟨.action action, weight⟩
  | missing {ref : ActionRef δ γ} {name : String} {weight : Weight}
      (names : ref.Names name weight) (absent : registry.action? name = none) :
      Binds registry ref
        ⟨.standIn name (registry.fallback.map fun fallback => fallback name), weight⟩

variable {registry : Registry δ γ} {ref : ActionRef δ γ} {slot slot' : Slot δ γ}

theorem Names.binds {name : String} {weight : Weight} (names : ref.Names name weight) :
    ref.Binds registry ⟨registry.resolve name, weight⟩ := by
  unfold Registry.resolve
  cases found : registry.action? name with
  | none => exact .missing names found
  | some action => exact .registered names found

theorem Names.slot_eq {name : String} {weight : Weight} (names : ref.Names name weight) :
    ref.slot registry = .ok ⟨registry.resolve name, weight⟩ := by
  cases names with
  | written parsed => rw [slot, parsed]
  | named text weight => rfl

theorem slot_eq_ok_iff : ref.slot registry = .ok slot ↔ ref.Binds registry slot := by
  constructor
  · intro done
    cases ref with
    | written text =>
        cases parsed : parse text with
        | error fault => simp [ActionRef.slot, parsed] at done
        | ok pair =>
            simp only [ActionRef.slot, parsed, Except.ok.injEq] at done
            exact done ▸ (Names.written parsed).binds
    | named text weight =>
        cases done
        exact (Names.named text weight).binds
    | direct action weight =>
        cases done
        exact .direct action weight
  · intro binds
    cases binds with
    | direct action weight => rfl
    | registered names found => rw [names.slot_eq, Registry.resolve, found]
    | missing names absent => rw [names.slot_eq, Registry.resolve, absent]

theorem Binds.unique (binds : ref.Binds registry slot) (binds' : ref.Binds registry slot') :
    slot = slot' := by
  rw [← slot_eq_ok_iff] at binds binds'
  exact Except.ok.inj (binds.symm.trans binds')

theorem forall₂_of_slots_eq_ok {refs : List (ActionRef δ γ)} {slots : List (Slot δ γ)}
    (done : refs.mapM (ActionRef.slot registry) = .ok slots) :
    List.Forall₂ (Binds registry) refs slots := by
  induction refs generalizing slots with
  | nil =>
      cases done
      exact .nil
  | cons ref refs ih =>
      rw [List.mapM_cons] at done
      obtain ⟨first, firstEq, done⟩ := bind_eq_ok_iff.mp done
      obtain ⟨rest, restEq, done⟩ := bind_eq_ok_iff.mp done
      cases done
      exact .cons (slot_eq_ok_iff.mp firstEq) (ih restEq)

end ActionRef

section Related

variable {α β : Type} {R : α → β → Prop} {l : List β}

theorem forall₂_split {before after : List α} {a : α}
    (related : List.Forall₂ R (before ++ a :: after) l) :
    ∃ before' b after', l = before' ++ b :: after' ∧ List.Forall₂ R before before' ∧ R a b ∧
      List.Forall₂ R after after' := by
  induction before generalizing l with
  | nil =>
      cases related with
      | cons own later => exact ⟨[], _, _, rfl, .nil, own, later⟩
  | cons first before ih =>
      cases related with
      | cons own rest =>
          obtain ⟨before', b, after', rfl, relatedBefore, relatedOwn, later⟩ := ih rest
          exact ⟨_ :: before', b, after', rfl, .cons own relatedBefore, relatedOwn, later⟩

theorem exists_related_right {l' : List α} {a : α} (related : List.Forall₂ R l' l)
    (member : a ∈ l') : ∃ b ∈ l, R a b := by
  obtain ⟨before, after, rfl⟩ := List.append_of_mem member
  obtain ⟨before', b, after', rfl, _, own, _⟩ := forall₂_split related
  exact ⟨b, List.mem_append_right before' List.mem_cons_self, own⟩

theorem exists_related_left {l' : List α} {b : β} (related : List.Forall₂ R l' l)
    (member : b ∈ l) : ∃ a ∈ l', R a b :=
  exists_related_right related.flip member

end Related

def Registry.hooked (registry : Registry δ γ) (names : List String) : List (Slot δ γ) :=
  names.filterMap registry.hookSlot?

theorem Registry.hooked_singleton (registry : Registry δ γ) (name : String) :
    registry.hooked [name] = (registry.hookSlot? name).toList := by
  cases found : registry.hookSlot? name <;> simp [hooked, found]

theorem Registry.weight_of_mem_hooked {registry : Registry δ γ} {names : List String}
    {slot : Slot δ γ} (member : slot ∈ registry.hooked names) :
    slot.weight = Weight.extension := by
  obtain ⟨name, _, found⟩ := List.mem_filterMap.mp member
  obtain ⟨action, _, rfl⟩ := Option.map_eq_some_iff.mp found
  rfl

namespace ActionList

variable {registry : Registry δ γ} {refs more : List (ActionRef δ γ)} {hooks : List String}
  {list : ActionList δ γ}

/-- What is declared at a point of a chart, and behind it the hooks of the point, unsorted. -/
def Collects (registry : Registry δ γ) (refs : List (ActionRef δ γ)) (hooks : List String)
    (list : ActionList δ γ) : Prop :=
  ∃ declared, List.Forall₂ (ActionRef.Binds registry) refs declared ∧
    list.slots = firstOfEach (declared ++ registry.hooked hooks)

/-- What is declared at a point of a chart and the hooks of the point, in the order they run in. -/
def Arranges (registry : Registry δ γ) (refs : List (ActionRef δ γ)) (hooks : List String)
    (list : ActionList δ γ) : Prop :=
  ∃ declared, List.Forall₂ (ActionRef.Binds registry) refs declared ∧
    Ranked Slot.weight (firstOfEach (declared ++ registry.hooked hooks)) list.slots

def Declares (registry : Registry δ γ) (refs : List (ActionRef δ γ)) (key : HandlerKey) : Prop :=
  ∃ ref ∈ refs, ∃ slot, ref.Binds registry slot ∧ slot.handler.key = key

/-- Hooks that are not declared themselves run behind what is declared, except for actions with a
weight below theirs. -/
def HooksLast (registry : Registry δ γ) (refs : List (ActionRef δ γ)) (list : ActionList δ γ) :
    Prop :=
  ∀ slot ∈ list.slots, ∀ hook ∈ list.slots, Declares registry refs slot.handler.key →
    ¬ Declares registry refs hook.handler.key → Weight.extension ≤ slot.weight →
      [slot, hook].Sublist list.slots

structure InOrder (registry : Registry δ γ) (refs : List (ActionRef δ γ)) (hooks : List String)
    (list : ActionList δ γ) : Prop where
  arranges : Arranges registry refs hooks list
  nodup_keys : list.keys.Nodup
  hooksLast : HooksLast registry refs list

/-- Of the references with one handler the first one decides on its weight. -/
def Prefers (registry : Registry δ γ) (refs : List (ActionRef δ γ)) (list : ActionList δ γ) :
    Prop :=
  ∀ before ref after slot, refs = before ++ ref :: after → ref.Binds registry slot →
    ¬ Declares registry before slot.handler.key → slot ∈ list.slots

theorem declares_iff {declared : List (Slot δ γ)} {key : HandlerKey}
    (binds : List.Forall₂ (ActionRef.Binds registry) refs declared) :
    Declares registry refs key ↔ key ∈ keysOf declared := by
  induction binds with
  | nil => simp [Declares, keysOf]
  | @cons ref slot refs declared own _ ih =>
      have split : Declares registry (ref :: refs) key ↔
          slot.handler.key = key ∨ Declares registry refs key := by
        constructor
        · rintro ⟨other, member, slot', binds, keyEq⟩
          rcases List.mem_cons.mp member with rfl | further
          · exact Or.inl (own.unique binds ▸ keyEq)
          · exact Or.inr ⟨other, further, slot', binds, keyEq⟩
        · rintro (keyEq | ⟨other, member, found⟩)
          · exact ⟨ref, List.mem_cons_self, slot, own, keyEq⟩
          · exact ⟨other, List.mem_cons_of_mem ref member, found⟩
      rw [split, ih, keysOf, keysOf, List.map_cons, List.mem_cons, eq_comm]

namespace Arranges

theorem nodup_keys (arranges : Arranges registry refs hooks list) : list.keys.Nodup := by
  obtain ⟨declared, _, ranked⟩ := arranges
  exact (ranked.perm.map _).nodup_iff.mpr (nodup_keysOf_firstOfEach _)

theorem prefers (arranges : Arranges registry (refs ++ more) hooks list) :
    Prefers registry refs list := by
  obtain ⟨declared, binds, ranked⟩ := arranges
  rintro before ref after slot rfl own fresh
  rw [List.append_assoc, List.cons_append] at binds
  obtain ⟨earlier, slot', later, rfl, bindsEarlier, own', _⟩ := forall₂_split binds
  cases own.unique own'
  rw [declares_iff bindsEarlier] at fresh
  rw [ranked.perm.mem_iff, List.append_assoc, List.cons_append]
  exact mem_firstOfEach_of_fresh fresh

theorem hooksLast (arranges : Arranges registry refs hooks list) :
    HooksLast registry refs list := by
  obtain ⟨declared, binds, ranked⟩ := arranges
  intro slot slotMember hook hookMember isDeclared isHook weight
  rw [declares_iff binds] at isDeclared isHook
  rw [ranked.perm.mem_iff, firstOfEach_append, List.mem_append] at slotMember hookMember
  have slotInside : slot ∈ firstOfEach declared := by
    rcases slotMember with inside | outside
    · exact inside
    · exact absurd isDeclared (of_decide_eq_true (List.mem_filter.mp outside).2)
  have hookOutside : hook ∈ (firstOfEach (registry.hooked hooks)).filter
      fun slot => slot.handler.key ∉ keysOf declared := by
    rcases hookMember with inside | outside
    · have listed : hook.handler.key ∈ keysOf (firstOfEach declared) :=
        List.mem_map_of_mem inside
      exact absurd (mem_keysOf_firstOfEach.mp listed) isHook
    · exact outside
  have hookWeight : hook.weight = Weight.extension :=
    Registry.weight_of_mem_hooked
      ((firstOfEach_sublist _).subset (List.mem_filter.mp hookOutside).1)
  refine ranked.pair_sublist ?_ (hookWeight ▸ weight)
  rw [firstOfEach_append]
  exact (List.singleton_sublist.mpr slotInside).append (List.singleton_sublist.mpr hookOutside)

theorem inOrder (arranges : Arranges registry refs hooks list) :
    InOrder registry refs hooks list :=
  ⟨arranges, arranges.nodup_keys, arranges.hooksLast⟩

theorem eq_sort {slots : List (Slot δ γ)} (arranges : Arranges registry refs hooks list)
    (bound : refs.mapM (ActionRef.slot registry) = .ok slots) :
    list = sort ⟨firstOfEach (slots ++ registry.hooked hooks)⟩ := by
  obtain ⟨declared, binds, ranked⟩ := arranges
  have unique : Relator.RightUnique (ActionRef.Binds registry) := fun _ _ _ => ActionRef.Binds.unique
  cases List.right_unique_forall₂' unique binds (ActionRef.forall₂_of_slots_eq_ok bound)
  obtain ⟨slots⟩ := list
  exact congrArg ActionList.mk (ranked.unique (ranked_mergeSort Slot.weight _))

end Arranges

namespace Collects

theorem of_slots {slots : List (Slot δ γ)} (refs : Option (List (ActionRef δ γ)))
    (done : ActionRef.slots registry refs = .ok slots) :
    Collects registry (refs.getD []) [] (extend {} slots) := by
  refine ⟨slots, ActionRef.forall₂_of_slots_eq_ok done, ?_⟩
  rw [slots_extend_empty, Registry.hooked, List.filterMap_nil, List.append_nil]

theorem extend (collects : Collects registry refs hooks list) (further : List String) :
    Collects registry refs (hooks ++ further) (list.extend (registry.hooked further)) := by
  obtain ⟨declared, binds, slotsEq⟩ := collects
  refine ⟨declared, binds, ?_⟩
  rw [slots_extend_of_firstOfEach slotsEq, List.append_assoc, Registry.hooked, Registry.hooked,
    Registry.hooked, List.filterMap_append]

theorem sort (collects : Collects registry refs hooks list) :
    Arranges registry refs hooks list.sort := by
  obtain ⟨declared, binds, slotsEq⟩ := collects
  exact ⟨declared, binds, slotsEq ▸ ranked_mergeSort Slot.weight list.slots⟩

end Collects

end ActionList

end Statechart
