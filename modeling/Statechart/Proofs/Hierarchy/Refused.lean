import Mathlib.Logic.Relation
import Statechart.Proofs.Hierarchy.Reachable

namespace Statechart

variable {δ γ : Type}

namespace Node

theorem open_of_setParent_eq_ok {node changed : Node δ γ} {parent : StateId}
    (done : node.setParent parent = .ok changed) : node.frozen = false ∧ parent ≠ node.id := by
  obtain ⟨moved, opened, rest⟩ := bind_eq_ok_iff.mp done
  refine ⟨(change_eq_ok_iff.mp opened).1, fun own => ?_⟩
  simp [own, bind, Except.bind, throw, throwThe, MonadExceptOf.throw] at rest

theorem setParent_of_free {node : Node δ γ} {parent : StateId} (unfrozen : node.frozen = false)
    (apart : parent ≠ node.id) (root : node.parent = none) :
    node.setParent parent = .ok { node with parent := some parent } := by
  simp [setParent, change, unfrozen, apart, root, bind, Except.bind, pure, Except.pure]

def links (node : Node δ γ) : Option StateId × List StateId × Bool :=
  (node.parent, node.children, node.frozen)

end Node

namespace Forest

variable {forest changed : Forest δ γ} {id parent child : StateId} {refusal : Refusal (Forest δ γ)}

def SameLinks (forest changed : Forest δ γ) : Prop :=
  ∀ id, (changed.node? id).map Node.links = (forest.node? id).map Node.links

def Lists (forest : Forest δ γ) (id child : StateId) : Prop :=
  ∃ node, forest.node? id = some node ∧ child ∈ node.children

namespace SameLinks

theorem refl (forest : Forest δ γ) : SameLinks forest forest :=
  fun _ => rfl

theorem trans {middle : Forest δ γ} (first : SameLinks forest middle)
    (second : SameLinks middle changed) : SameLinks forest changed :=
  fun id => (second id).trans (first id)

theorem origin (same : SameLinks forest changed) {node' : Node δ γ}
    (found : changed.node? id = some node') :
    ∃ node, forest.node? id = some node ∧ node.links = node'.links := by
  have linksEq := same id
  rw [found, Option.map_some, eq_comm, Option.map_eq_some_iff] at linksEq
  exact linksEq

theorem lists (same : SameLinks forest changed) (lists : changed.Lists id child) :
    forest.Lists id child := by
  obtain ⟨node', found, member⟩ := lists
  obtain ⟨node, original, linksEq⟩ := same.origin found
  have childrenEq : node.children = node'.children := congrArg (fun links => links.2.1) linksEq
  exact ⟨node, original, childrenEq ▸ member⟩

theorem setLevel (forest : Forest δ γ) (id : StateId) (level : Nat) :
    SameLinks forest (forest.update id fun node => node.setLevel level).left := by
  cases updated : forest.update id (fun node => node.setLevel level) with
  | error refusal =>
      rw [Change.left_error, (left_update_of_error updated).1]
      exact refl forest
  | ok changed =>
      have keepsId (node node' : Node δ γ) (done : node.setLevel level = .ok node') :
          node'.id = node.id := by
        obtain ⟨_, rfl⟩ := Node.change_eq_ok_iff.mp done
        rfl
      rcases becomes_update keepsId updated with ⟨_, rfl⟩ | ⟨node, node', found, done, becomes⟩
      · exact refl _
      · obtain ⟨_, rfl⟩ := Node.change_eq_ok_iff.mp done
        intro other
        rw [Change.left_ok, becomes.node?_eq]
        by_cases hit : other = id
        · rw [hit, found]
          simp [Node.links]
        · simp [hit]

theorem relevel (steps : Nat) (forest : Forest δ γ) (id : StateId) (level : Nat) :
    SameLinks forest (Forest.relevel steps forest id level).left := by
  induction steps generalizing forest id level with
  | zero => exact refl forest
  | succ steps ih =>
      rw [Forest.relevel]
      split
      · exact refl forest
      · next node _ =>
        apply Change.related_andThen SameLinks trans (setLevel forest id level)
        exact Change.related_each SameLinks refl trans
          (fun middle child => ih middle child (level + 1)) node.children

end SameLinks

/-- Levelling stops at a frozen node, somewhere below where it started. -/
theorem relevel_eq_error {steps level : Nat}
    (stopped : relevel steps forest id level = .error refusal) :
    ∃ other node, Relation.ReflTransGen forest.Lists id other ∧
      forest.node? other = some node ∧ node.frozen = true ∧
      refusal.error = .configuration (.stateFrozen other) := by
  induction steps generalizing forest id level with
  | zero => contradiction
  | succ steps ih =>
      rw [relevel] at stopped
      split at stopped
      · contradiction
      next top topFound =>
        rcases Change.andThen_eq_error_iff.mp stopped with own | ⟨middle, levelled, below⟩
        · obtain ⟨node, found, frozen, rfl⟩ := update_change_eq_error own
          exact ⟨id, node, .refl, found, frozen, rfl⟩
        · have toMiddle := SameLinks.setLevel forest id level
          rw [levelled, Change.left_ok] at toMiddle
          have kept (state : Forest δ γ) (item : StateId) (changed : Forest δ γ)
              (same : SameLinks forest state)
              (done : relevel steps state item (level + 1) = .ok changed) :
              SameLinks forest changed := by
            have step := SameLinks.relevel steps state item (level + 1)
            rw [done] at step
            exact same.trans step
          obtain ⟨next, member, before, same, refused⟩ :=
            Change.exists_of_each_eq_error kept toMiddle below
          obtain ⟨other, node', path, found, frozen, errorEq⟩ := ih refused
          obtain ⟨node, original, linksEq⟩ := same.origin found
          have frozenEq : node.frozen = node'.frozen := congrArg (fun links => links.2.2) linksEq
          have path : Relation.ReflTransGen forest.Lists next other :=
            Relation.ReflTransGen.mono (fun _ _ lists => same.lists lists) _ _ path
          exact ⟨other, node, path.head ⟨top, topFound, member⟩, original, frozenEq.trans frozen,
            errorEq⟩

/-- The states that hang below a state, the state itself apart unless it hangs below itself. -/
def Below (forest : Forest δ γ) (id other : StateId) : Prop :=
  Relation.TransGen forest.Lists id other

theorem lists_of_linked (becomes : Becomes (linked parent child) forest changed) {other : StateId}
    (lists : changed.Lists id other) : other = child ∨ forest.Lists id other := by
  obtain ⟨node', found, member⟩ := lists
  rw [becomes.node?_eq] at found
  obtain ⟨node, original, rfl⟩ := Option.map_eq_some_iff.mp found
  simp only [linked] at member
  split at member
  · rcases List.mem_append.mp member with old | new
    · exact Or.inr ⟨node, original, old⟩
    · exact Or.inl (List.mem_singleton.mp new)
  · exact Or.inr ⟨node, original, member⟩

theorem below_of_linked (becomes : Becomes (linked parent child) forest changed) {other : StateId}
    (path : Relation.ReflTransGen changed.Lists child other) :
    other = child ∨ forest.Below child other := by
  induction path with
  | refl => exact Or.inl rfl
  | tail _ lists ih =>
      rcases lists_of_linked becomes lists with same | old
      · exact Or.inl same
      · right
        rcases ih with rfl | inside
        · exact .single old
        · exact .tail inside old

theorem moved_eq {own : Node δ γ} {moved : Forest δ γ} (ownFound : forest.node? child = some own)
    (done : forest.update child (fun node => node.setParent parent) = .ok moved) :
    own.frozen = false ∧ parent ≠ own.id ∧
      moved = forest.put { own with parent := some parent } := by
  cases result : own.setParent parent with
  | error error =>
      rw [update_of_error ownFound result] at done
      contradiction
  | ok own' =>
      rw [update_of_ok ownFound result, (Node.setParent_eq_ok result).1] at done
      obtain ⟨free, apart⟩ := Node.open_of_setParent_eq_ok result
      exact ⟨free, apart, (Except.ok.inj done).symm⟩

/-- What a refused attachment can leave half done. -/
inductive Halfway (forest : Forest δ γ) (parent child : StateId) : Refusal (Forest δ γ) → Prop where
  /-- The child has its parent, but the parent is frozen and does not list it. -/
  | unlisted {above own : Node δ γ} (aboveFound : forest.node? parent = some above)
      (closed : above.frozen = true) (ownFound : forest.node? child = some own)
      (free : own.frozen = false) :
      Halfway forest parent child
        ⟨.configuration (.stateFrozen parent), forest.put { own with parent := some parent }⟩
  /-- The two are linked, but the levels are changed only up to a frozen state. -/
  | unlevelled {below : StateId} {node : Node δ γ} {left : Forest δ γ}
      (under : forest.Below child below) (found : forest.node? below = some node)
      (closed : node.frozen = true)
      (links : ∀ id, (left.node? id).map Node.links =
        (forest.node? id).map fun node => (linked parent child id node).links) :
      Halfway forest parent child ⟨.configuration (.stateFrozen below), left⟩

theorem left_eq_or_halfway (refused : forest.attach parent child = .error refusal) :
    refusal.left = forest ∨ forest.Halfway parent child refusal := by
  unfold attach at refused
  split at refused
  · cases refused
    exact Or.inl rfl
  split at refused
  · cases refused
    exact Or.inl rfl
  split at refused
  · cases refused
    exact Or.inl rfl
  next above aboveFound =>
    split at refused
    · next known =>
      rcases Change.andThen_eq_error_iff.mp refused with first | ⟨moved, movedEq, later⟩
      · exact Or.inl (left_update_of_error first).1
      right
      obtain ⟨own, ownFound⟩ := Option.isSome_iff_exists.mp known
      obtain ⟨free, apart, movedIs⟩ := moved_eq ownFound movedEq
      have aboveMoved : moved.node? parent = some above := by
        rw [movedIs, (becomes_put forest _).node?_eq, aboveFound, Option.map_some,
          if_neg (id_of_node? ownFound ▸ apart)]
      rcases Change.andThen_eq_error_iff.mp later with second | ⟨extended, extendedEq, last⟩
      · obtain ⟨above', aboveFound', closed, rfl⟩ := update_change_eq_error second
        cases aboveMoved.symm.trans aboveFound'
        rw [movedIs]
        exact .unlisted aboveFound closed ownFound free
      · obtain ⟨_, _, _, becomes⟩ :=
          becomes_linked (id_of_node? ownFound ▸ apart) known aboveFound movedEq extendedEq
        obtain ⟨below, node', path, found, closed, errorEq⟩ := relevel_eq_error last
        rw [becomes.node?_eq] at found
        obtain ⟨node, original, rfl⟩ := Option.map_eq_some_iff.mp found
        have same := SameLinks.relevel extended.size extended child (above.level + 1)
        rw [last, Change.left_error] at same
        obtain ⟨error, left⟩ := refusal
        cases errorEq
        refine .unlevelled ?_ original closed fun id => ?_
        · rcases below_of_linked becomes path with rfl | under
          · cases ownFound.symm.trans original
            rw [show own.frozen = true from closed] at free
            contradiction
          · exact under
        · rw [same id, becomes.node?_eq, Option.map_map]
          rfl
    · cases refused
      exact Or.inl rfl

theorem attach_of_frozen_parent {above own : Node δ γ} (unfrozen : forest.frozen = false)
    (acyclic : forest.isAncestorOrSelf child parent = false)
    (aboveFound : forest.node? parent = some above) (closed : above.frozen = true)
    (ownFound : forest.node? child = some own) (free : own.frozen = false)
    (root : own.parent = none) :
    forest.attach parent child =
      .error ⟨.configuration (.stateFrozen parent),
        forest.put { own with parent := some parent }⟩ := by
  have apart : parent ≠ own.id := by
    rw [id_of_node? ownFound]
    rintro rfl
    cases aboveFound.symm.trans ownFound
    rw [closed] at free
    contradiction
  have aboveMoved : (forest.put { own with parent := some parent }).node? parent = some above := by
    rw [(becomes_put forest _).node?_eq, aboveFound, Option.map_some, if_neg apart]
  have refused : above.addChild child = .error (.configuration (.stateFrozen parent)) := by
    rw [← id_of_node? aboveFound]
    exact Node.change_eq_error_iff.mpr ⟨closed, rfl⟩
  have given : forest.update child (fun node => node.setParent parent) =
      .ok (forest.put { own with parent := some parent }) :=
    update_of_ok ownFound (Node.setParent_of_free free apart root)
  have stopped : (forest.put { own with parent := some parent }).update parent
      (fun node => node.addChild child) = .error ⟨_, _⟩ := update_of_error aboveMoved refused
  simp only [attach, unfrozen, acyclic, aboveFound, contains_of_node? ownFound, given, stopped,
    Bool.false_eq_true, if_false, if_true, Change.ok_andThen, Change.error_andThen]

/--
An attachment that is refused changes nothing if the parent and the states below the child are open.
If one of them is frozen the change may be left half done; with a frozen parent it always is, when
nothing else speaks against the attachment, and the child then keeps a parent that does not list it.
-/
theorem left_of_refused_attach (refused : forest.attach parent child = .error refusal) :
    ((∀ above, forest.node? parent = some above → above.frozen = false) →
      (∀ id node, forest.Below child id → forest.node? id = some node → node.frozen = false) →
        refusal.left = forest) ∧
      (refusal.left = forest ∨ forest.Halfway parent child refusal) ∧
      (∀ above own, forest.frozen = false → forest.isAncestorOrSelf child parent = false →
        forest.node? parent = some above → above.frozen = true →
        forest.node? child = some own → own.frozen = false → own.parent = none →
          refusal.left = forest.put { own with parent := some parent } ∧
            refusal.left ≠ forest) := by
  have kinds := left_eq_or_halfway refused
  refine ⟨fun openAbove openBelow => ?_, kinds, ?_⟩
  · rcases kinds with same | halfway
    · exact same
    · cases halfway with
      | unlisted aboveFound closed _ _ =>
          rw [openAbove _ aboveFound] at closed
          contradiction
      | unlevelled under found closed _ =>
          rw [openBelow _ _ under found] at closed
          contradiction
  · intro above own unfrozen acyclic aboveFound closed ownFound free root
    rw [attach_of_frozen_parent unfrozen acyclic aboveFound closed ownFound free root] at refused
    cases refused
    refine ⟨rfl, fun same => ?_⟩
    have moved := (becomes_put forest { own with parent := some parent }).node?_eq child
    change forest.put { own with parent := some parent } = forest at same
    rw [same, ownFound, Option.map_some, if_pos (id_of_node? ownFound).symm, Option.some_inj]
      at moved
    have parentEq := congrArg Node.parent moved
    rw [root] at parentEq
    contradiction

/-- `C` hangs under `P`. -/
def claimed : Forest Unit Unit :=
  after {} [.insert ⟨"P"⟩, .insert ⟨"Q"⟩, .insert ⟨"C"⟩, .attach ⟨"P"⟩ ⟨"C"⟩]

def partlyFrozen : Forest Unit Unit :=
  after {} [.insert ⟨"P"⟩, .insert ⟨"C"⟩, .change ⟨"P"⟩ .freeze]

theorem left_of_refused_attach_claimed :
    (∃ refusal, claimed.attach ⟨"Q"⟩ ⟨"C"⟩ = .error refusal ∧ refusal.left = claimed) ∧
      ∃ refusal, partlyFrozen.attach ⟨"P"⟩ ⟨"C"⟩ = .error refusal ∧
        refusal.left = partlyFrozen.put { id := ⟨"C"⟩, parent := some ⟨"P"⟩ } ∧
        refusal.left ≠ partlyFrozen := by
  constructor
  · have refused : claimed.attach ⟨"Q"⟩ ⟨"C"⟩ =
        .error ⟨.configuration (.otherParent ⟨"C"⟩ ⟨"P"⟩ ⟨"Q"⟩), claimed⟩ := by cbv
    have all : claimed.nodes.all (fun node => !node.frozen) = true := by cbv
    have unfrozen {id : StateId} {node : Node Unit Unit} (found : claimed.node? id = some node) :
        node.frozen = false := by
      simpa using List.all_eq_true.mp all node (mem_of_node? found)
    obtain ⟨unchanged, _⟩ := left_of_refused_attach refused
    exact ⟨_, refused, unchanged (fun _ => unfrozen) fun _ _ _ => unfrozen⟩
  · have refused : partlyFrozen.attach ⟨"P"⟩ ⟨"C"⟩ =
        .error ⟨.configuration (.stateFrozen ⟨"P"⟩),
          partlyFrozen.put { id := ⟨"C"⟩, parent := some ⟨"P"⟩ }⟩ := by cbv
    obtain ⟨_, _, halfway⟩ := left_of_refused_attach refused
    exact ⟨_, refused, halfway _ _ rfl (by cbv) rfl rfl rfl rfl rfl⟩

theorem attach_partlyFrozen_not_undone :
    partlyFrozen.Reachable ∧
      ∃ refusal, partlyFrozen.attach ⟨"P"⟩ ⟨"C"⟩ = .error refusal ∧
        (partlyFrozen.node? ⟨"C"⟩).map Node.parent = some none ∧
        (refusal.left.node? ⟨"C"⟩).map Node.parent = some (some ⟨"P"⟩) ∧
        (refusal.left.node? ⟨"P"⟩).map Node.children = some [] :=
  ⟨.after .empty _, _, rfl, by cbv, by cbv, by cbv⟩

end Forest

end Statechart
