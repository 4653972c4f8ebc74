import Statechart.Behavior.Action

namespace Statechart

variable {δ γ : Type}

def Slot.key (slot : Slot δ γ) : HandlerKey :=
  slot.handler.key

def Slot.invocation (slot : Slot δ γ) (reply : Reply δ γ) : Invocation γ :=
  ⟨slot.handler.key, slot.handler.missing?, reply.fired⟩

namespace ActionList

/-- The slots run one after the other without a failure, and give these replies. -/
inductive Runs (scope : Scope γ) : List (Slot δ γ) → δ → List (Reply δ γ) → δ → Prop where
  | nil (data : δ) : Runs scope [] data [] data
  | cons {slot : Slot δ γ} {slots : List (Slot δ γ)} {data reached : δ}
      {replies : List (Reply δ γ)} (succeeds : (slot.handler.body scope data).failure = none)
      (rest : Runs scope slots (slot.handler.body scope data).data replies reached) :
      Runs scope (slot :: slots) data (slot.handler.body scope data :: replies) reached

variable {scope : Scope γ} {slot : Slot δ γ} {slots later : List (Slot δ γ)} {data : δ}
  {reason : String}

theorem runSlots_cons_of_some
    (failed : (slot.handler.body scope data).failure = some reason) :
    runSlots scope (slot :: slots) data =
      ⟨(slot.handler.body scope data).data,
        [⟨slot.handler.key, slot.handler.missing?, (slot.handler.body scope data).fired⟩],
        some reason⟩ := by
  simp only [runSlots, failed]

theorem runSlots_cons_of_none (succeeds : (slot.handler.body scope data).failure = none) :
    runSlots scope (slot :: slots) data =
      { runSlots scope slots (slot.handler.body scope data).data with
        invocations :=
          ⟨slot.handler.key, slot.handler.missing?, (slot.handler.body scope data).fired⟩ ::
            (runSlots scope slots (slot.handler.body scope data).data).invocations } := by
  simp only [runSlots, succeeds]

theorem runSlots_append (succeeds : (runSlots scope slots data).failure = none) :
    runSlots scope (slots ++ later) data =
      { runSlots scope later (runSlots scope slots data).data with
        invocations := (runSlots scope slots data).invocations ++
          (runSlots scope later (runSlots scope slots data).data).invocations } := by
  induction slots generalizing data with
  | nil => rfl
  | cons slot slots ih =>
      cases reply : (slot.handler.body scope data).failure with
      | some reason =>
          rw [runSlots_cons_of_some reply] at succeeds
          contradiction
      | none =>
          rw [runSlots_cons_of_none reply] at succeeds
          rw [List.cons_append, runSlots_cons_of_none reply, runSlots_cons_of_none reply,
            ih succeeds]
          rfl

theorem handlers_runSlots (succeeds : (runSlots scope slots data).failure = none) :
    (runSlots scope slots data).invocations.map Invocation.handler = slots.map Slot.key := by
  induction slots generalizing data with
  | nil => rfl
  | cons slot slots ih =>
      cases reply : (slot.handler.body scope data).failure with
      | some reason =>
          rw [runSlots_cons_of_some reply] at succeeds
          contradiction
      | none =>
          rw [runSlots_cons_of_none reply] at succeeds ⊢
          exact congrArg (List.cons slot.key) (ih succeeds)

theorem runSlots_of_fails (after : List (Slot δ γ))
    (succeeds : (runSlots scope slots data).failure = none)
    (fails : (slot.handler.body scope (runSlots scope slots data).data).failure = some reason) :
    (runSlots scope (slots ++ slot :: after) data).failure = some reason ∧
      (runSlots scope (slots ++ slot :: after) data).invocations.map Invocation.handler =
        (slots ++ [slot]).map Slot.key := by
  rw [runSlots_append succeeds, runSlots_cons_of_some fails]
  refine ⟨rfl, ?_⟩
  rw [List.map_append, handlers_runSlots succeeds, List.map_append]
  rfl

theorem Runs.runSlots_eq {replies : List (Reply δ γ)} {reached : δ}
    (runs : Runs scope slots data replies reached) :
    runSlots scope slots data = ⟨reached, List.zipWith Slot.invocation slots replies, none⟩ := by
  induction runs with
  | nil _ => rfl
  | cons succeeds _ ih =>
      rw [runSlots_cons_of_none succeeds, ih]
      rfl

/-- What running slots comes to: all of them run, or those up to the first that fails. -/
inductive Performs (scope : Scope γ) (slots : List (Slot δ γ)) (data : δ) :
    Performance δ γ → Prop where
  | completes {replies : List (Reply δ γ)} {reached : δ}
      (runs : Runs scope slots data replies reached) :
      Performs scope slots data ⟨reached, List.zipWith Slot.invocation slots replies, none⟩
  | breaks {ran after : List (Slot δ γ)} {slot : Slot δ γ} {replies : List (Reply δ γ)}
      {reached : δ} {reason : String} (split : slots = ran ++ slot :: after)
      (runs : Runs scope ran data replies reached)
      (fails : (slot.handler.body scope reached).failure = some reason) :
      Performs scope slots data
        ⟨(slot.handler.body scope reached).data,
          List.zipWith Slot.invocation (ran ++ [slot])
            (replies ++ [slot.handler.body scope reached]),
          some reason⟩

theorem performs_runSlots (scope : Scope γ) (slots : List (Slot δ γ)) (data : δ) :
    Performs scope slots data (runSlots scope slots data) := by
  induction slots generalizing data with
  | nil => exact .completes (.nil data)
  | cons slot slots ih =>
      cases reply : (slot.handler.body scope data).failure with
      | some reason =>
          rw [runSlots_cons_of_some reply]
          exact .breaks (List.nil_append (slot :: slots)).symm (.nil data) reply
      | none =>
          rw [runSlots_cons_of_none reply]
          have rest := ih (slot.handler.body scope data).data
          generalize runSlots scope slots (slot.handler.body scope data).data = later at rest ⊢
          cases rest with
          | completes runs => exact .completes (.cons reply runs)
          | breaks split runs fails =>
              exact .breaks (congrArg (List.cons slot) split) (.cons reply runs) fails

theorem exists_failing_slot (failed : (runSlots scope slots data).failure = some reason) :
    ∃ ran slot after, slots = ran ++ slot :: after ∧ (runSlots scope ran data).failure = none ∧
      (slot.handler.body scope (runSlots scope ran data).data).failure = some reason := by
  have performs := performs_runSlots scope slots data
  generalize runSlots scope slots data = performance at performs failed
  cases performs with
  | completes _ => contradiction
  | breaks split runs fails =>
      cases failed
      have ranEq := runs.runSlots_eq
      exact ⟨_, _, _, split, by rw [ranEq], by rw [ranEq, fails]⟩

end ActionList

end Statechart
