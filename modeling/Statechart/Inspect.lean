import Statechart.Behavior.Registry
import Statechart.Chart.Basic
import Statechart.Layer.Basic
import Statechart.Run.Machine
import Statechart.Text.Inspect

namespace Statechart

open Text

variable {δ γ : Type}

def StateId.inspect (id : StateId) : String :=
  inspectWrapped "StateId" (quoted id.text)

def EventId.inspect (id : EventId) : String :=
  inspectWrapped "EventId" (quoted id.text)

def History.inspect : History → String
  | .none => "None"
  | .shallow => "Shallow"
  | .deep => "Deep"

def Composition.inspect : Composition → String
  | .sequential => "Sequential"
  | .parallel => "Parallel"

def TransitionKind.inspect : TransitionKind → String
  | .internal => "Internal"
  | .localized => "Local"
  | .external => "External"

def Guard.inspect : Guard γ → String
  | .always => inspectWrapped "Guard" "always"
  | .predicate _ _ => inspectWrapped "Guard" "predicate"

def Node.inspect (node : Node δ γ) : String :=
  inspectRecord "StateNode"
    [("id", node.id.inspect),
      ("parent", inspectOption (node.parent.map StateId.inspect)),
      ("children", inspectList (node.children.map StateId.inspect)),
      ("level", inspectNat node.level),
      ("initial", inspectBool node.isInitial),
      ("final", inspectBool node.isFinal),
      ("history", node.history.inspect),
      ("entry_actions", inspectNat node.entry.size),
      ("exit_actions", inspectNat node.exit.size)]

def Forest.inspect (forest : Forest δ γ) : String :=
  inspectList (forest.nodes.map Node.inspect)

def Transition.inspect (transition : Transition δ γ) : String :=
  inspectRecord "Transition"
    [("source", transition.source.inspect),
      ("target", transition.target.inspect),
      ("event", transition.event.inspect),
      ("guard", transition.guard.inspect),
      ("priority", inspectWord transition.priority),
      ("kind", transition.kind.inspect),
      ("actions", inspectNat transition.actions.size)]

def Table.inspect (table : Table δ γ) : String :=
  inspectList (table.transitions.map Transition.inspect)

def Chart.inspect (chart : Chart δ γ) : String :=
  inspectRecord "StateModel"
    [("tree", chart.forest.inspect),
      ("table", chart.table.inspect),
      ("initial", inspectOption (chart.initial.map StateId.inspect))]

def ActionRef.inspect : ActionRef δ γ → String
  | .written text => inspectWrapped "Named" (quoted text)
  | .named name weight =>
    inspectRecord "Reference" [("name", quoted name), ("weight", inspectWord weight)]
  | .direct _ weight => inspectOpenRecord "Callable" [("weight", inspectWord weight)]

def ActionRef.inspectAll (refs : Option (List (ActionRef δ γ))) : String :=
  inspectOption (refs.map fun refs => inspectList (refs.map inspect))

def GuardRef.inspect : GuardRef γ → String
  | .named name => inspectWrapped "Named" (quoted name)
  | .direct guard => inspectWrapped "Predicate" guard.inspect

mutual

def StateDecl.inspect : StateDecl δ γ → String
  | .mk id traits children =>
    inspectPair id.inspect (inspectRecord "StateSpec"
      [("on_entry", ActionRef.inspectAll traits.entry),
        ("on_exit", ActionRef.inspectAll traits.exit),
        ("final", inspectOption (traits.isFinal.map inspectBool)),
        ("initial", inspectOption (traits.isInitial.map inspectBool)),
        ("history", inspectOption (traits.history.map History.inspect)),
        ("composition", inspectOption (traits.composition.map Composition.inspect)),
        ("children", inspectList (inspectStates children))])

def inspectStates : List (StateDecl δ γ) → List String
  | [] => []
  | state :: rest => state.inspect :: inspectStates rest

end

def TransitionDecl.inspect (declaration : TransitionDecl δ γ) : String :=
  inspectRecord "TransitionSpec"
    [("from", declaration.source.inspect),
      ("to", inspectOption (declaration.target.map StateId.inspect)),
      ("on", declaration.event.inspect),
      ("when", inspectOption (declaration.guard.map GuardRef.inspect)),
      ("priority", inspectOption (declaration.priority.map inspectWord)),
      ("perform", ActionRef.inspectAll declaration.actions),
      ("kind", inspectOption (declaration.kind.map TransitionKind.inspect))]

def Layer.inspect (layer : Layer δ γ) : String :=
  inspectRecord "MachineDefinition"
    [("initial", inspectOption (layer.initial.map StateId.inspect)),
      ("states", inspectList (inspectStates layer.states)),
      ("transitions", inspectList (layer.transitions.map TransitionDecl.inspect))]

def Registry.inspect (registry : Registry δ γ) : String :=
  let sorted (names : List String) :=
    inspectList ((names.mergeSort fun first second => decide (first ≤ second)).map quoted)
  inspectRecord "BehaviorTable"
    [("actions", sorted registry.actions.keys),
      ("guards", sorted registry.guards.keys),
      ("fallback", inspectBool registry.fallback.isSome)]

def Machine.inspect (machine : Machine δ γ) (id : String) : String :=
  inspectOpenRecord "StateMachine"
    [("id", id),
      ("current", machine.current.inspect),
      ("status", machine.status.name),
      ("pending_events", inspectNat machine.queue.length),
      ("observers", inspectNat machine.observers)]

def Chart.record (chart : Chart δ γ) : LogRecord :=
  .compiled chart.forest.size chart.table.size chart.initial

end Statechart
