import Statechart.Chart.Basic
import Statechart.Behavior.Hook
import Statechart.Layer.Merge
import Statechart.Layer.Problem

namespace Statechart

variable {δ γ : Type}

def Registry.hookSlot? (registry : Registry δ γ) (name : String) : Option (Slot δ γ) :=
  (registry.action? name).map fun action => ⟨.action action, Weight.extension⟩

namespace ActionRef

def slot (registry : Registry δ γ) : ActionRef δ γ → Except BuildError (Slot δ γ)
  | .written text =>
    match parse text with
    | .ok (name, weight) => .ok ⟨registry.resolve name, weight⟩
    | .error fault => .error (.configuration (.descriptor fault))
  | .named name weight =>
    .ok ⟨registry.resolve (String.ofList (Text.trim name.toList)), weight⟩
  | .direct action weight => .ok ⟨.action action, weight⟩

def slots (registry : Registry δ γ) (refs : Option (List (ActionRef δ γ))) :
    Except BuildError (List (Slot δ γ)) :=
  (refs.getD []).mapM (slot registry)

end ActionRef

def setIf {α σ : Type} (set : σ → α → Except BuildError σ) (value : Option α) (state : σ) :
    Except BuildError σ :=
  match value with
  | none => .ok state
  | some value => set state value

def Traits.applyTo (traits : Traits δ γ) (entry exit : List (Slot δ γ)) (node : Node δ γ) :
    Except BuildError (Node δ γ) := do
  let node ← setIf Node.setFinal traits.isFinal node
  let node ← setIf Node.setInitial traits.isInitial node
  let node ← setIf Node.setHistory traits.history node
  let node ← setIf Node.setComposition traits.composition node
  let node ← entry.foldlM Node.addEntry node
  exit.foldlM Node.addExit node

namespace Forest

def declare (registry : Registry δ γ) (parent : Option StateId) (id : StateId)
    (traits : Traits δ γ) (forest : Forest δ γ) : Except BuildError (Forest δ γ) := do
  let entry ← ActionRef.slots registry traits.entry
  let exit ← ActionRef.slots registry traits.exit
  let forest ← (forest.insert id).toExcept
  let forest ← (forest.update id (traits.applyTo entry exit)).toExcept
  match parent with
  | none => return forest
  | some parent => (forest.attach parent id).toExcept

mutual

def declareState (registry : Registry δ γ) (parent : Option StateId) (forest : Forest δ γ) :
    StateDecl δ γ → Except BuildError (Forest δ γ)
  | .mk id traits children => do
    let forest ← forest.declare registry parent id traits
    declareStates registry (some id) forest children

def declareStates (registry : Registry δ γ) (parent : Option StateId) (forest : Forest δ γ) :
    List (StateDecl δ γ) → Except BuildError (Forest δ γ)
  | [] => .ok forest
  | state :: rest => do
    let forest ← declareState registry parent forest state
    declareStates registry parent forest rest

end

def addHooks (registry : Registry δ γ) (forest : Forest δ γ) :
    Except BuildError (Forest δ γ) :=
  forest.ids.foldlM (fun forest id =>
    (forest.update id fun node => do
      let node ← setIf Node.addEntry (registry.hookSlot? Hook.entryAny) node
      setIf Node.addExit (registry.hookSlot? Hook.exitAny) node).toExcept) forest

end Forest

namespace TransitionDecl

/-- The kind of a declared transition: internal unless a target or another kind is given. -/
def effectiveKind (declaration : TransitionDecl δ γ) : TransitionKind :=
  declaration.kind.getD (if declaration.target.isNone then .internal else .external)

def resolveGuard (registry : Registry δ γ) (declaration : TransitionDecl δ γ) :
    Except BuildError (Guard γ) :=
  match declaration.guard with
  | none => .ok .always
  | some (.direct guard) => .ok guard
  | some (.named name) =>
    match registry.guard? name with
    | some guard => .ok guard
    | none => .error (.configuration (.guardUnbound name))

def hookSlots (registry : Registry δ γ) (declaration : TransitionDecl δ γ) :
    List (Slot δ γ) :=
  (Hook.forTransition declaration.source declaration.destination declaration.event).filterMap
    registry.hookSlot?

def transition (registry : Registry δ γ) (declaration : TransitionDecl δ γ) :
    Except BuildError (Transition δ γ) := do
  let guard ← declaration.resolveGuard registry
  let bare : Transition δ γ :=
    { source := declaration.source
      target := declaration.destination
      event := declaration.event
      guard
      priority := declaration.priority.getD Priority.normal }
  let bare ← bare.withKind declaration.effectiveKind
  let slots ← ActionRef.slots registry declaration.actions
  (slots ++ declaration.hookSlots registry).foldlM Transition.addAction bare

end TransitionDecl

def Table.declare (registry : Registry δ γ) (table : Table δ γ)
    (declaration : TransitionDecl δ γ) : Except BuildError (Table δ γ) := do
  let transition ← declaration.transition registry
  (table.add transition).toExcept

namespace Layer

/-- Where machines start: the state named by the layer, or its first state marked initial. -/
def effectiveInitial (layer : Layer δ γ) : Option StateId :=
  layer.initial.or
    ((layer.states.find? fun state => state.traits.isInitial == some true).map StateDecl.id)

def build (layer : Layer δ γ) (registry : Registry δ γ) : Except BuildError (Chart δ γ) := do
  let forest ← Forest.declareStates registry none {} layer.states
  let forest ← forest.addHooks registry
  let table ← layer.transitions.foldlM (Table.declare registry) {}
  let forest ← forest.freeze.toExcept
  let table ← table.freeze.toExcept
  Chart.assemble forest table layer.effectiveInitial

def compile (layer : Layer δ γ) (registry : Registry δ γ) :
    Except BuildError (Chart δ γ) := do
  layer.check registry
  layer.build registry

end Layer

/-- The chart of a chain of layers, the most derived one first. -/
def Chart.ofLayers (chain : List (Layer δ γ)) (registry : Registry δ γ) :
    Except BuildError (Chart δ γ) :=
  (Layer.merge chain).compile registry

end Statechart
