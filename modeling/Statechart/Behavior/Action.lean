import Statechart.Ident

namespace Statechart

variable {δ γ : Type}

structure Occurrence (γ : Type) where
  event : EventId
  context : γ
  deriving DecidableEq

structure Scope (γ : Type) where
  /-- The leaf the machine was in when the event arrived; none while it is starting. -/
  origin : Option StateId
  /-- The declared target of the step; none while the machine is terminating. -/
  target : Option StateId
  event : EventId
  context : γ

structure Reply (δ γ : Type) where
  data : δ
  fired : List (Occurrence γ)
  failure : Option String

abbrev Body (δ γ : Type) := Scope γ → δ → Reply δ γ

/-- An action supplied by the user; two actions are the same if they have the same tag. -/
structure Action (δ γ : Type) where
  tag : Nat
  body : Body δ γ

/-- What an action list holds: a supplied action, or a stand-in for a name without one. -/
inductive Handler (δ γ : Type) where
  | action (action : Action δ γ)
  | standIn (name : String) (fallback : Option (Body δ γ))

inductive HandlerKey where
  | tag (n : Nat)
  | name (name : String)
  deriving DecidableEq

namespace Handler

def key : Handler δ γ → HandlerKey
  | .action a => .tag a.tag
  | .standIn name _ => .name name

def body : Handler δ γ → Body δ γ
  | .action a => a.body
  | .standIn _ (some fallback) => fallback
  | .standIn _ none => fun _ data => ⟨data, [], none⟩

def missing? : Handler δ γ → Option String
  | .standIn name none => some name
  | _ => none

end Handler

abbrev Weight := Int32

def Weight.normal : Weight := 10

def Weight.extension : Weight := -10

structure Slot (δ γ : Type) where
  handler : Handler δ γ
  weight : Weight

/-- Handlers in the order in which they run. -/
structure ActionList (δ γ : Type) where
  slots : List (Slot δ γ) := []

structure Invocation (γ : Type) where
  handler : HandlerKey
  missing : Option String
  fired : List (Occurrence γ)

structure Performance (δ γ : Type) where
  data : δ
  invocations : List (Invocation γ)
  failure : Option String

namespace ActionList

def keys (list : ActionList δ γ) : List HandlerKey :=
  list.slots.map fun slot => slot.handler.key

/-- Adds a slot at the end unless its handler is there already; says whether it was added. -/
def push (list : ActionList δ γ) (slot : Slot δ γ) : ActionList δ γ × Bool :=
  if slot.handler.key ∈ list.keys then (list, false) else (⟨list.slots ++ [slot]⟩, true)

def extend (list : ActionList δ γ) (slots : List (Slot δ γ)) : ActionList δ γ :=
  slots.foldl (fun list slot => (list.push slot).1) list

def ofSlots (slots : List (Slot δ γ)) : ActionList δ γ :=
  extend {} slots

/-- Orders by descending weight; equal weights keep their order. -/
def sort (list : ActionList δ γ) : ActionList δ γ :=
  ⟨list.slots.mergeSort fun first second => decide (second.weight ≤ first.weight)⟩

def size (list : ActionList δ γ) : Nat :=
  list.slots.length

@[simp] theorem keys_push (list : ActionList δ γ) (slot : Slot δ γ) :
    (list.push slot).1.keys =
      if slot.handler.key ∈ list.keys then list.keys else list.keys ++ [slot.handler.key] := by
  unfold push
  split <;> simp [keys]

theorem sort_perm (list : ActionList δ γ) : list.sort.slots.Perm list.slots :=
  List.mergeSort_perm list.slots _

def runSlots (scope : Scope γ) : List (Slot δ γ) → δ → Performance δ γ
  | [], data => ⟨data, [], none⟩
  | slot :: rest, data =>
    let reply := slot.handler.body scope data
    let invocation := ⟨slot.handler.key, slot.handler.missing?, reply.fired⟩
    match reply.failure with
    | some reason => ⟨reply.data, [invocation], some reason⟩
    | none =>
      let later := runSlots scope rest reply.data
      ⟨later.data, invocation :: later.invocations, later.failure⟩

def run (list : ActionList δ γ) (scope : Scope γ) (data : δ) : Performance δ γ :=
  runSlots scope list.slots data

def asBody (list : ActionList δ γ) : Body δ γ := fun scope data =>
  let performed := list.run scope data
  ⟨performed.data, performed.invocations.flatMap Invocation.fired, performed.failure⟩

end ActionList

end Statechart
