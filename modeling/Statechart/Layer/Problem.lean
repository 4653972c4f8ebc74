import Statechart.Behavior.Registry
import Statechart.Layer.Basic

namespace Statechart

variable {δ γ : Type}

namespace ActionRef

def problem? (owner : Owner) : ActionRef δ γ → Option BuildError
  | .written text =>
    match parse text with
    | .ok _ => none
    | .error fault => some (.configuration (.descriptorOf owner fault))
  | .named name _ =>
    if (Text.trim name.toList).isEmpty then
      some (.configuration (.emptyReference owner))
    else
      none
  | .direct _ _ => none

def problems (owner : Owner) (refs : Option (List (ActionRef δ γ))) : List BuildError :=
  (refs.getD []).filterMap (problem? owner)

end ActionRef

mutual

def StateDecl.preorder : StateDecl δ γ → List (StateId × Traits δ γ)
  | .mk id traits children => (id, traits) :: preorderOf children

def preorderOf : List (StateDecl δ γ) → List (StateId × Traits δ γ)
  | [] => []
  | state :: rest => state.preorder ++ preorderOf rest

end

/-- The problems with states, given the states declared before them. -/
def stateProblems (declared : List StateId) : List (StateId × Traits δ γ) → List BuildError
  | [] => []
  | (id, traits) :: rest =>
    (if id ∈ declared then [.configuration (.declaredTwice id)] else []) ++
      ActionRef.problems (.state id) traits.entry ++
      ActionRef.problems (.state id) traits.exit ++
      stateProblems (id :: declared) rest

def unknownState? (declared : List StateId) (referrer : Referrer) (id : StateId) :
    Option BuildError :=
  if id ∈ declared then none else some (.unknownState id referrer)

namespace TransitionDecl

def owner (declaration : TransitionDecl δ γ) : Owner :=
  .transition declaration.source declaration.event

/-- The problem of an internal transition that names another state as its target. -/
def internalProblem? (declaration : TransitionDecl δ γ) : Option BuildError :=
  match declaration.kind, declaration.target with
  | some .internal, some target =>
    if target = declaration.source then none
    else some (.configuration (.internalDeclared declaration.owner target))
  | _, _ => none

def guardProblem? (registry : Registry δ γ) (declaration : TransitionDecl δ γ) :
    Option BuildError :=
  match declaration.guard with
  | some (.named name) =>
    if (registry.guard? name).isSome then none
    else some (.configuration (.guardUnknown declaration.owner name))
  | _ => none

def problems (declared : List StateId) (registry : Registry δ γ)
    (declaration : TransitionDecl δ γ) : List BuildError :=
  let referrer := Referrer.declaration declaration.owner
  (unknownState? declared referrer declaration.source).toList ++
    (declaration.target.bind (unknownState? declared referrer)).toList ++
    declaration.internalProblem?.toList ++
    (declaration.guardProblem? registry).toList ++
    ActionRef.problems declaration.owner declaration.actions

end TransitionDecl

namespace Layer

def declaredStates (layer : Layer δ γ) : List (StateId × Traits δ γ) :=
  preorderOf layer.states

def problems (layer : Layer δ γ) (registry : Registry δ γ) : List BuildError :=
  let declared := layer.declaredStates.map Prod.fst
  stateProblems [] layer.declaredStates ++
    (layer.initial.bind (unknownState? declared .machineInitial)).toList ++
    layer.transitions.flatMap (TransitionDecl.problems declared registry)

/-- The error that reports the problems: the problem itself if there is only one. -/
def check (layer : Layer δ γ) (registry : Registry δ γ) : Except BuildError Unit :=
  match layer.problems registry with
  | [] => .ok ()
  | [problem] => .error problem
  | problems => .error (.several problems)

end Layer

end Statechart
