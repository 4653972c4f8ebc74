import Statechart.Proofs.Layer.Absorption

namespace Statechart

variable {δ γ : Type}

/-- What a guard is known by.  A predicate is known by its tag, not by what it accepts. -/
inductive GuardIdentity where
  | named (name : String)
  | always
  | predicate (tag : Nat)
  deriving DecidableEq

namespace GuardRef

def identity : GuardRef γ → GuardIdentity
  | named name => .named name
  | direct .always => .always
  | direct (.predicate tag _) => .predicate tag

theorem same_iff_identity (guard other : GuardRef γ) :
    guard.same other = true ↔ guard.identity = other.identity := by
  cases guard with
  | named name => cases other with
    | named name' => simp [same, identity]
    | direct guard' => cases guard' <;> simp [same, identity]
  | direct guard => cases other with
    | named name' => cases guard <;> simp [same, identity]
    | direct guard' => cases guard <;> cases guard' <;> simp [same, identity, Guard.same]

end GuardRef

/-- What a transition is known by.  No guard at all differs from the guard that always accepts. -/
structure TransitionIdentity where
  source : StateId
  destination : StateId
  event : EventId
  guard : Option GuardIdentity
  deriving DecidableEq

namespace TransitionDecl

def identity (declared : TransitionDecl δ γ) : TransitionIdentity where
  source := declared.source
  destination := declared.target.getD declared.source
  event := declared.event
  guard := declared.guard.map GuardRef.identity

theorem same_iff_identity (first second : TransitionDecl δ γ) :
    first.same second = true ↔ first.identity = second.identity := by
  have guards : Option.Rel (fun guard guard' => GuardRef.same guard guard') first.guard
        second.guard ↔
      first.guard.map GuardRef.identity = second.guard.map GuardRef.identity := by
    cases first.guard <;> cases second.guard <;> simp [GuardRef.same_iff_identity]
  rw [same_iff, guards, identity, identity, TransitionIdentity.mk.injEq, destination, destination]

/-- A target that is left out is the source, and a guard that always accepts is still a guard. -/
example :
    let stay : TransitionDecl Unit Unit := { source := ⟨"A"⟩, event := ⟨"go"⟩ }
    stay.same { stay with target := some ⟨"A"⟩ } = true ∧
      stay.same { stay with guard := some (.direct .always) } = false := by
  decide

theorem same_eq_beq_identity (first second : TransitionDecl δ γ) :
    first.same second = (first.identity == second.identity) := by
  rw [Bool.eq_iff_iff, same_iff_identity, beq_iff_eq]

theorem same_equivalence :
    Equivalence fun first second : TransitionDecl δ γ => first.same second = true where
  refl := same_self
  symm same := same_comm _ _ ▸ same
  trans := same_trans

@[simp] theorem identity_fill (declared base : TransitionDecl δ γ) :
    (declared.fill base).identity = declared.identity :=
  rfl

end TransitionDecl

/-- A list, and behind it what another one has besides, each once. -/
def addNew {α : Type} [DecidableEq α] (known given : List α) : List α :=
  known ++ (given.removeAll known).eraseDups

section AddNew

variable {α : Type} [DecidableEq α]

theorem addNew_nil (known : List α) : addNew known [] = known := by
  simp [addNew]

theorem addNew_singleton (known : List α) (a : α) :
    addNew known [a] = if a ∈ known then known else known ++ [a] := by
  by_cases listed : a ∈ known <;> simp [addNew, List.removeAll, listed, List.eraseDups_cons]

theorem addNew_append (known first second : List α) :
    addNew known (first ++ second) = addNew (addNew known first) second := by
  have split : (first ++ second).removeAll known =
      first.removeAll known ++ second.removeAll known :=
    List.filter_append first second
  have rest : (second.removeAll known).removeAll (first.removeAll known) =
      second.removeAll (addNew known first) := by
    simp only [List.removeAll, List.filter_filter]
    refine List.filter_congr fun a _ => ?_
    by_cases listed : a ∈ known <;> simp [addNew, List.removeAll, listed]
  rw [addNew, split, List.eraseDups_append, rest, addNew, addNew, List.append_assoc]

end AddNew

section Places

open TransitionDecl (identity)

def takeIn (base : TransitionDecl δ γ) (declared : List (TransitionDecl δ γ)) :
    Option Nat → List (TransitionDecl δ γ)
  | some position => declared.modify position (·.fill base)
  | none => declared ++ [base]

theorem absorb_eq_takeIn (base : TransitionDecl δ γ) (declared : List (TransitionDecl δ γ)) :
    absorb base declared = takeIn base declared (declared.findIdx? fun own => own.same base) := by
  induction declared with
  | nil => rfl
  | cons head declared ih =>
      rw [absorb, List.findIdx?_cons]
      split
      · rfl
      · rw [ih]
        cases declared.findIdx? (fun own => own.same base) <;> rfl

theorem findIdx?_same (base : TransitionDecl δ γ) (declared : List (TransitionDecl δ γ)) :
    declared.findIdx? (fun own => own.same base) =
      (declared.map identity).idxOf? base.identity := by
  rw [List.idxOf?, List.findIdx?_map]
  congr 1
  funext own
  exact own.same_eq_beq_identity base

theorem identities_absorb (base : TransitionDecl δ γ) (declared : List (TransitionDecl δ γ)) :
    (absorb base declared).map identity = addNew (declared.map identity) [base.identity] := by
  rw [addNew_singleton]
  induction declared with
  | nil => rfl
  | cons head declared ih =>
      rw [absorb, List.map_cons]
      by_cases same : head.identity = base.identity
      · rw [if_pos ((head.same_iff_identity base).mpr same), List.map_cons,
          TransitionDecl.identity_fill, if_pos (List.mem_cons.mpr (Or.inl same.symm))]
      · rw [if_neg fun hit => same ((head.same_iff_identity base).mp hit), List.map_cons, ih]
        by_cases listed : base.identity ∈ declared.map identity
        · rw [if_pos listed, if_pos (List.mem_cons_of_mem _ listed)]
        · have absent : base.identity ∉ head.identity :: declared.map identity :=
            List.not_mem_cons_of_ne_of_not_mem (Ne.symm same) listed
          rw [if_neg listed, if_neg absent, List.cons_append]

/-- The transitions that a list is about once it has been filled in, in their places. -/
def knownAfter (declared given : List (TransitionDecl δ γ)) : List TransitionIdentity :=
  addNew (declared.map identity) (given.map identity)

theorem identities_fillTransitions (declared given : List (TransitionDecl δ γ)) :
    (fillTransitions declared given).map identity = knownAfter declared given := by
  rw [knownAfter]
  -- Each step adds at most one identity, so the rest is taken into a list that knows one more.
  induction given generalizing declared with
  | nil => rw [List.map_nil, addNew_nil, fillTransitions, List.foldl_nil]
  | cons first given ih =>
      rw [fillTransitions_absorb, ih, identities_absorb, ← addNew_append, List.map_cons,
        List.singleton_append]

theorem findIdx?_fillTransitions (declared given : List (TransitionDecl δ γ))
    (base : TransitionDecl δ γ) :
    (fillTransitions declared given).findIdx? (fun own => own.same base) =
      (knownAfter declared given).idxOf? base.identity := by
  rw [findIdx?_same, identities_fillTransitions]

theorem fillTransitions_append (declared given more : List (TransitionDecl δ γ)) :
    fillTransitions declared (given ++ more) =
      fillTransitions (fillTransitions declared given) more :=
  List.foldl_append

/--
To denote the same transition is to have the same identity, and an equivalence.  While a list is
filled in, every declaration in it keeps its identity and its place, and a further declaration is
taken in at the first place of its identity among those that were declared: nothing that was taken
in before has a part in that.
-/
theorem fillTransitions_keeps_identities :
    (Equivalence fun first second : TransitionDecl δ γ => first.same second = true) ∧
      (∀ first second : TransitionDecl δ γ,
        first.same second = true ↔ first.identity = second.identity) ∧
      ∀ declared given : List (TransitionDecl δ γ),
        (fillTransitions declared given).map identity = knownAfter declared given ∧
          (∀ more, (fillTransitions declared given).map identity <+:
            (fillTransitions declared (given ++ more)).map identity) ∧
          ∀ base : TransitionDecl δ γ,
            (fillTransitions declared given).findIdx? (fun own => own.same base) =
                (knownAfter declared given).idxOf? base.identity ∧
              fillTransitions declared (given ++ [base]) =
                takeIn base (fillTransitions declared given)
                  ((knownAfter declared given).idxOf? base.identity) := by
  refine ⟨TransitionDecl.same_equivalence, TransitionDecl.same_iff_identity,
    fun declared given => ⟨identities_fillTransitions declared given, fun more => ?_,
      fun base => ⟨findIdx?_fillTransitions declared given base, ?_⟩⟩⟩
  · rw [fillTransitions_append, identities_fillTransitions _ more]
    exact List.prefix_append _ _
  · rw [← findIdx?_fillTransitions, ← absorb_eq_takeIn, fillTransitions_append]
    rfl

end Places

end Statechart
