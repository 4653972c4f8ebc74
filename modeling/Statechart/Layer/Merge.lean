import Statechart.Layer.Basic

/-!
Filling a layer in from the layers it is derived from.

What the derived layer sets stands; lists of actions are joined, those of the derived layer first.
States keep the order of the base layer, and states of the derived layer alone follow them.
Transitions keep the order of the derived layer, and those of the base layer alone follow them.
-/

namespace Statechart

variable {δ γ : Type}

def joinLists {α : Type} : Option (List α) → Option (List α) → Option (List α)
  | some derived, some base => some (derived ++ base)
  | derived, base => derived.or base

def Traits.fill (derived base : Traits δ γ) : Traits δ γ where
  entry := joinLists derived.entry base.entry
  exit := joinLists derived.exit base.exit
  isFinal := derived.isFinal.or base.isFinal
  isInitial := derived.isInitial.or base.isInitial
  history := derived.history.or base.history
  composition := derived.composition.or base.composition

def takeState? (id : StateId) :
    List (StateDecl δ γ) → Option (StateDecl δ γ × List (StateDecl δ γ))
  | [] => none
  | state :: rest =>
    if state.id = id then
      some (state, rest)
    else
      (takeState? id rest).map fun (found, rest) => (found, state :: rest)

mutual

def StateDecl.fill (derived : StateDecl δ γ) : StateDecl δ γ → StateDecl δ γ
  | .mk id traits children =>
    .mk id (derived.traits.fill traits) (fillStates derived.children children)

def fillStates (derived : List (StateDecl δ γ)) : List (StateDecl δ γ) → List (StateDecl δ γ)
  | [] => derived
  | base :: rest =>
    match takeState? base.id derived with
    | some (state, derived) => state.fill base :: fillStates derived rest
    | none => base :: fillStates derived rest

end

def TransitionDecl.fill (derived base : TransitionDecl δ γ) : TransitionDecl δ γ :=
  { derived with
    actions := joinLists derived.actions base.actions
    priority := derived.priority.or base.priority
    kind := derived.kind.or base.kind }

/-- Adds a base declaration to the first one of the same transition, or else at the end. -/
def absorb (base : TransitionDecl δ γ) : List (TransitionDecl δ γ) → List (TransitionDecl δ γ)
  | [] => [base]
  | declared :: rest =>
    if declared.same base then declared.fill base :: rest else declared :: absorb base rest

def fillTransitions (derived base : List (TransitionDecl δ γ)) : List (TransitionDecl δ γ) :=
  base.foldl (fun declared base => absorb base declared) derived

namespace Layer

/-- Fills a layer in from the layer it is derived from. -/
def fill (derived base : Layer δ γ) : Layer δ γ where
  initial := derived.initial.or base.initial
  states := fillStates derived.states base.states
  transitions := fillTransitions derived.transitions base.transitions

/-- The single layer that a chain of layers amounts to, the most derived one first. -/
def merge : List (Layer δ γ) → Layer δ γ
  | [] => {}
  | derived :: bases => bases.foldl fill derived

end Layer

end Statechart
