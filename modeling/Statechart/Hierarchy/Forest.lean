import Statechart.Hierarchy.Node
import Statechart.Hierarchy.Refusal

namespace Statechart

variable {δ γ : Type}

structure Forest (δ γ : Type) where
  nodes : List (Node δ γ) := []
  frozen : Bool := false

namespace Forest

def size (forest : Forest δ γ) : Nat :=
  forest.nodes.length

def ids (forest : Forest δ γ) : List StateId :=
  forest.nodes.map Node.id

def node? (forest : Forest δ γ) (id : StateId) : Option (Node δ γ) :=
  forest.nodes.find? fun node => node.id = id

def contains (forest : Forest δ γ) (id : StateId) : Bool :=
  (forest.node? id).isSome

theorem id_of_node? {forest : Forest δ γ} {id : StateId} {node : Node δ γ}
    (found : forest.node? id = some node) : node.id = id := by
  simpa using List.find?_some found

theorem mem_of_node? {forest : Forest δ γ} {id : StateId} {node : Node δ γ}
    (found : forest.node? id = some node) : node ∈ forest.nodes :=
  List.mem_of_find?_eq_some found

theorem contains_iff {forest : Forest δ γ} {id : StateId} :
    forest.contains id = true ↔ id ∈ forest.ids := by
  simp [contains, node?, ids]

def roots (forest : Forest δ γ) : List (Node δ γ) :=
  forest.nodes.filter Node.isRoot

def climb (forest : Forest δ γ) : Nat → StateId → List (Node δ γ)
  | 0, _ => []
  | steps + 1, id =>
    match forest.node? id with
    | none => []
    | some node =>
      node :: match node.parent with
        | none => []
        | some parent => climb forest steps parent

/-- The node of a state and its ancestors, innermost first. -/
def lineage (forest : Forest δ γ) (id : StateId) : List (Node δ γ) :=
  forest.climb forest.size id

def ancestors (forest : Forest δ γ) (id : StateId) : List StateId :=
  (forest.lineage id).map Node.id

def isAncestorOrSelf (forest : Forest δ γ) (ancestor id : StateId) : Bool :=
  (forest.ancestors id).contains ancestor

/-- The child marked initial, or else the first one. -/
def initialChild? (forest : Forest δ γ) (id : StateId) : Option StateId :=
  (forest.node? id).bind fun node =>
    (node.children.find? fun child => (forest.node? child).any Node.isInitial).or
      node.children.head?

/--
Whether the last active child of a composite is remembered: the composite keeps history itself or
lies below a state with deep history.
-/
def tracksHistory (forest : Forest δ γ) (composite : StateId) : Bool :=
  match forest.lineage composite with
  | [] => false
  | node :: above => node.history != .none || above.any fun ancestor => ancestor.history == .deep

def path (forest : Forest δ γ) (id : StateId) : String :=
  "/".intercalate ((forest.ancestors id).reverse.map StateId.text)

def put (forest : Forest δ γ) (node : Node δ γ) : Forest δ γ :=
  { forest with nodes := forest.nodes.map fun old => if old.id = node.id then node else old }

theorem ids_put (forest : Forest δ γ) (node : Node δ γ) : (forest.put node).ids = forest.ids := by
  simp only [ids, put, List.map_map]
  refine List.map_congr_left fun old _ => ?_
  simp only [Function.comp_apply]
  split
  · next same => exact same.symm
  · rfl

def update (forest : Forest δ γ) (id : StateId)
    (change : Node δ γ → Except BuildError (Node δ γ)) : Change (Forest δ γ) :=
  match forest.node? id with
  | none => .ok forest
  | some node =>
    match change node with
    | .ok changed => .ok (forest.put changed)
    | .error error => .error ⟨error, forest⟩

def insert (forest : Forest δ γ) (id : StateId) : Change (Forest δ γ) :=
  if forest.frozen then
    .error ⟨.configuration .forestFrozen, forest⟩
  else if forest.contains id then
    .ok forest
  else
    .ok { forest with nodes := forest.nodes ++ [{ id }] }

def relevel : Nat → Forest δ γ → StateId → Nat → Change (Forest δ γ)
  | 0, forest, _, _ => .ok forest
  | steps + 1, forest, id, level =>
    match forest.node? id with
    | none => .ok forest
    | some node =>
      (forest.update id fun node => node.setLevel level).andThen <|
        Change.each (fun forest child => relevel steps forest child (level + 1)) node.children

/--
Puts a state under a parent.  A refusal by the parent's node, or by one below the child, comes after
the child was given its parent.
-/
def attach (forest : Forest δ γ) (parent child : StateId) : Change (Forest δ γ) :=
  if forest.frozen then
    .error ⟨.configuration .forestFrozen, forest⟩
  else if forest.isAncestorOrSelf child parent then
    .error ⟨.configuration (.cycle parent child), forest⟩
  else
    match forest.node? parent with
    | none => .error ⟨.unknownState parent (.parentOf child), forest⟩
    | some above =>
      if forest.contains child then
        (forest.update child fun node => node.setParent parent).andThen fun forest =>
        (forest.update parent fun node => node.addChild child).andThen fun forest =>
        relevel forest.size forest child (above.level + 1)
      else
        .error ⟨.unknownState child (.childOf parent), forest⟩

def freezeNodes : List (Node δ γ) → List (Node δ γ) × Option BuildError
  | [] => ([], none)
  | node :: rest =>
    match node.freeze with
    | .error error => (node :: rest, some error)
    | .ok node =>
      let (rest, error?) := freezeNodes rest
      (node :: rest, error?)

/-- Freezes every node and the forest; stops at a node that is frozen already. -/
def freeze (forest : Forest δ γ) : Change (Forest δ γ) :=
  if forest.frozen then
    .error ⟨.configuration .forestFrozen, forest⟩
  else
    match freezeNodes forest.nodes with
    | (nodes, some error) => .error ⟨error, { forest with nodes }⟩
    | (nodes, none) => .ok { nodes, frozen := true }

end Forest

end Statechart
