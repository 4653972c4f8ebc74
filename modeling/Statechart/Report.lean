import Statechart.Inspect
import Statechart.Json.Ident

namespace Statechart

open Json

variable {δ γ : Type}

/-- Actions and guards that are known by a name. -/
structure Known (δ γ : Type) where
  actions : List (String × Action δ γ) := []
  guards : List (String × Guard γ) := []

namespace Report

def orNull {α : Type} (report : α → Value) : Option α → Value
  | none => .null
  | some value => report value

def natural (n : Nat) : Value := .ofInt n

def word (n : Int32) : Value := .ofInt n.toInt

def states (ids : List StateId) : Value := .array (ids.map StateId.toJson)

def actionName (known : Known δ γ) (action : Action δ γ) : Value :=
  orNull (fun entry => .ofString entry.1)
    (known.actions.find? fun entry => entry.2.tag = action.tag)

/-- The least name of a guard. -/
def guardName (known : Known δ γ) (guard : Guard γ) : Value :=
  orNull (fun entry => .ofString entry.1)
    ((known.guards.mergeSort fun first second => decide (first.1 ≤ second.1)).find? fun entry =>
      entry.2.same guard)

def slot (known : Known δ γ) (slot : Slot δ γ) : Value :=
  let name :=
    match slot.handler with
    | .action action => actionName known action
    | .standIn _ _ => .null
  .array [name, word slot.weight]

def actionList (known : Known δ γ) (actions : ActionList δ γ) : Value :=
  .array (actions.slots.map (slot known))

def nodeMembers (known : Known δ γ) (node : Node δ γ) : List (String × Value) :=
  [("id", node.id.toJson),
    ("parent", orNull StateId.toJson node.parent),
    ("children", states node.children),
    ("level", natural node.level),
    ("root", .bool node.isRoot),
    ("leaf", .bool node.isLeaf),
    ("initial", .bool node.isInitial),
    ("final", .bool node.isFinal),
    ("history", .ofString node.history.name),
    ("composition", .ofString node.composition.name),
    ("entry", actionList known node.entry),
    ("exit", actionList known node.exit),
    ("finalized", .bool node.frozen)]

def node (known : Known δ γ) (node : Node δ γ) : Value :=
  .ofMembers (nodeMembers known node)

def placedNode (known : Known δ γ) (forest : Forest δ γ) (node : Node δ γ) : Value :=
  .ofMembers (nodeMembers known node ++
    [("path", .ofString (forest.path node.id)),
      ("initial_child", orNull StateId.toJson (forest.initialChild? node.id)),
      ("tracks_history", .bool (forest.tracksHistory node.id))])

def forest (known : Known δ γ) (forest : Forest δ γ) : Value :=
  .ofMembers
    [("len", natural forest.size),
      ("empty", .bool forest.nodes.isEmpty),
      ("finalized", .bool forest.frozen),
      ("roots", states (forest.roots.map Node.id)),
      ("nodes", .array (forest.nodes.map (placedNode known forest)))]

def transition (known : Known δ γ) (transition : Transition δ γ) : Value :=
  .ofMembers
    [("source", transition.source.toJson),
      ("target", transition.target.toJson),
      ("event", transition.event.toJson),
      ("always", .bool transition.guard.isAlways),
      ("priority", word transition.priority),
      ("kind", .ofString transition.kind.name),
      ("actions", actionList known transition.actions),
      ("finalized", .bool transition.frozen)]

def sortedTransitions (table : Table δ γ) : List (Transition δ γ) :=
  let before (first second : TransitionGroup δ γ) : Bool :=
    decide (first.source.text < second.source.text) ||
      (first.source = second.source && decide (first.event.text ≤ second.event.text))
  (table.groups.mergeSort before).flatMap TransitionGroup.transitions

def table (known : Known δ γ) (table : Table δ γ) : Value :=
  .ofMembers
    [("len", natural table.size),
      ("empty", .bool table.isEmpty),
      ("finalized", .bool table.frozen),
      ("transitions", .array ((sortedTransitions table).map (transition known)))]

def chartMembers (known : Known δ γ) (chart : Chart δ γ) : List (String × Value) :=
  [("initial", orNull StateId.toJson chart.initial),
    ("tree", forest known chart.forest),
    ("table", table known chart.table)]

def actionRef (known : Known δ γ) : ActionRef δ γ → Value
  | .written text => .ofString text
  | .named name weight => .ofMembers [("name", .ofString name), ("weight", word weight)]
  | .direct action weight =>
    .ofMembers [("callable", actionName known action), ("weight", word weight)]

def actionRefs (known : Known δ γ) : Option (List (ActionRef δ γ)) → Value :=
  orNull fun refs => .array (refs.map (actionRef known))

def guardRef (known : Known δ γ) : GuardRef γ → Value
  | .named name => .ofString name
  | .direct guard => .ofMembers [("pred", guardName known guard)]

mutual

def stateDecl (known : Known δ γ) : StateDecl δ γ → Value
  | .mk id traits children =>
    .array [id.toJson, .ofMembers
      [("entry", actionRefs known traits.entry),
        ("exit", actionRefs known traits.exit),
        ("final", orNull .bool traits.isFinal),
        ("initial", orNull .bool traits.isInitial),
        ("history", orNull (fun history => .ofString history.name) traits.history),
        ("composition",
          orNull (fun composition => .ofString composition.name) traits.composition),
        ("children", .array (stateDecls known children))]]

def stateDecls (known : Known δ γ) : List (StateDecl δ γ) → List Value
  | [] => []
  | state :: rest => stateDecl known state :: stateDecls known rest

end

def transitionDecl (known : Known δ γ) (declaration : TransitionDecl δ γ) : Value :=
  .ofMembers
    [("from", declaration.source.toJson),
      ("to", orNull StateId.toJson declaration.target),
      ("target", declaration.destination.toJson),
      ("on", declaration.event.toJson),
      ("when", orNull (guardRef known) declaration.guard),
      ("priority", orNull word declaration.priority),
      ("perform", actionRefs known declaration.actions),
      ("kind", orNull (fun kind => .ofString kind.name) declaration.kind)]

def layerMembers (known : Known δ γ) (layer : Layer δ γ) : List (String × Value) :=
  [("initial", orNull StateId.toJson layer.initial),
    ("states", .array (stateDecls known layer.states)),
    ("transitions", .array (layer.transitions.map (transitionDecl known)))]

mutual

def buildError : BuildError → Value
  | .unknownState id referrer =>
    .ofMembers
      [("error", .ofString "InvalidState"),
        ("message", .ofString (BuildError.unknownState id referrer).message),
        ("state", id.toJson),
        ("referenced_by", .ofString referrer.text)]
  | .configuration cause =>
    .ofMembers
      [("error", .ofString "Configuration"),
        ("message", .ofString (BuildError.configuration cause).message)]
  | .several problems =>
    .ofMembers
      [("error", .ofString "Invalid"),
        ("message", .ofString (BuildError.several problems).message),
        ("problems", .array (buildErrors problems))]

def buildErrors : List BuildError → List Value
  | [] => []
  | .several problems :: rest => buildErrors problems ++ buildErrors rest
  | error :: rest => buildError error :: buildErrors rest

end

def machineError (error : MachineError) : Value :=
  let message := Value.ofString error.message
  match error with
  | .invalidStatus status operation =>
    .ofMembers
      [("error", .ofString "InvalidStatus"), ("message", message),
        ("status", .ofString status.text), ("operation", .ofString operation.text)]
  | .notRunning => .ofMembers [("error", .ofString "NotRunning"), ("message", message)]
  | .actionFailure id event reason =>
    .ofMembers
      [("error", .ofString "ActionFailure"), ("message", message), ("state", id.toJson),
        ("event", event.toJson), ("source", .ofString reason)]

/-- The notification as a row; the error of a failure follows in a row of its own. -/
def notification (context : γ → Value) : Notification γ → List Value
  | .started id c => [.array [.ofString "started", id.toJson, context c]]
  | .terminated id c => [.array [.ofString "terminated", id.toJson, context c]]
  | .step stage origin event c =>
    let target :=
      match stage with
      | .completed target => target.toJson
      | _ => .null
    let row := Value.array
      [.ofString stage.text, event.toJson, origin.toJson, target, context c]
    match stage with
    | .failed error => [row, .array [.ofString "error", .ofString error.message]]
    | _ => [row]

def recordMembers : LogRecord → List (String × Value)
  | .started id | .terminated id => [("state", id.toJson)]
  | .step (.failed error) origin event =>
    [("state", origin.toJson), ("event", event.toJson),
      ("error", .ofString error.message)]
  | .step (.completed target) origin event =>
    [("from", origin.toJson), ("to", target.toJson), ("event", event.toJson)]
  | .step _ origin event => [("from", origin.toJson), ("event", event.toJson)]
  | .unhandled name event => [("handler", .ofString name), ("event", event.toJson)]
  | .compiled states transitions initial =>
    [("states", natural states), ("transitions", natural transitions),
      ("initial", .ofString (Text.inspectOption (initial.map StateId.inspect)))]

def record (record : LogRecord) : Value :=
  .ofMembers ([("level", .ofString record.level.text), ("message", .ofString record.message)] ++
    recordMembers record)

def memory (memory : Memory) : Value :=
  .array ((memory.lastActive.mergeSort fun first second =>
    decide (first.1.text ≤ second.1.text)).map fun entry => .array [entry.1.toJson, entry.2.toJson])

def passage {τ : Type} (passage : Passage τ) : Value :=
  .array [passage.source.toJson, passage.target.toJson, passage.event.toJson]

end Report

end Statechart
