import Mathlib.Data.List.Nodup
import Statechart.Proofs.Hierarchy.Attach

/-!
The forests that can be built.

A refused change may leave something behind, but only where a node was frozen on its own; a forest
with such a node can never be frozen as a whole.  So every frozen forest is well-formed, whatever
was tried while it was built.
-/

namespace Statechart

variable {δ γ : Type}

def Node.sealed (node : Node δ γ) : Node δ γ :=
  { node with entry := node.entry.sort, exit := node.exit.sort, frozen := true }

/-- Where going over some items stops: at the first one that is closed. -/
structure FirstClosed {α : Type} (closed : α → Bool) (items : List α) where
  before : List α
  item : α
  after : List α
  items_eq : items = before ++ item :: after
  before_open : ∀ other ∈ before, closed other = false
  item_closed : closed item = true

namespace FirstClosed

variable {α : Type} {closed : α → Bool} {item : α} {items : List α}

def here (items : List α) (itemClosed : closed item = true) :
    FirstClosed closed (item :: items) where
  before := []
  item := item
  after := items
  items_eq := rfl
  before_open _ member := absurd member List.not_mem_nil
  item_closed := itemClosed

def later (itemOpen : closed item = false) (stop : FirstClosed closed items) :
    FirstClosed closed (item :: items) where
  before := item :: stop.before
  item := stop.item
  after := stop.after
  items_eq := congrArg (List.cons item) stop.items_eq
  before_open := List.forall_mem_cons.mpr ⟨itemOpen, stop.before_open⟩
  item_closed := stop.item_closed

def left (stop : FirstClosed closed items) (sealing : α → α) : List α :=
  stop.before.map sealing ++ stop.item :: stop.after

end FirstClosed

namespace Forest

/-- What can be built from nothing; a refused change counts with what it left. -/
inductive Reachable : Forest δ γ → Prop where
  | empty : Reachable {}
  | edit {forest : Forest δ γ} (reachable : Reachable forest) (edit : ForestEdit δ γ) :
      Reachable (forest.edit edit).left

variable {forest changed : Forest δ γ}

/-- What is left of a forest after edits were tried one after the other. -/
def after (forest : Forest δ γ) (edits : List (ForestEdit δ γ)) : Forest δ γ :=
  edits.foldl (fun forest edit => (forest.edit edit).left) forest

theorem Reachable.after (reachable : forest.Reachable) (edits : List (ForestEdit δ γ)) :
    (forest.after edits).Reachable := by
  induction edits generalizing forest with
  | nil => exact reachable
  | cons edit edits ih => exact ih (.edit reachable edit)

theorem node?_of_mem {node : Node δ γ} (apart : forest.ids.Nodup)
    (member : node ∈ forest.nodes) : forest.node? node.id = some node := by
  have known : forest.contains node.id = true :=
    contains_iff.mpr (List.mem_map_of_mem member)
  obtain ⟨other, found⟩ := Option.isSome_iff_exists.mp known
  rw [found, List.inj_on_of_nodup_map apart (mem_of_node? found) member (id_of_node? found)]

theorem becomes_map (change : Node δ γ → Node δ γ) (keepsId : ∀ node, (change node).id = node.id)
    (forest : Forest δ γ) :
    Becomes (fun _ => change) forest { forest with nodes := forest.nodes.map change } where
  ids_eq := by simp [ids, List.map_map, keepsId]
  frozen_eq := rfl
  node?_eq id := by
    have sameId : (fun node : Node δ γ => decide (node.id = id)) ∘ change =
        fun node => decide (node.id = id) :=
      funext fun node => congrArg (fun own => decide (own = id)) (keepsId node)
    rw [node?, node?, List.find?_map, sameId]

def withLeaf (forest : Forest δ γ) (id : StateId) : Forest δ γ :=
  { forest with nodes := forest.nodes ++ [{ id }] }

theorem insert_eq_ok {id : StateId} (inserted : forest.insert id = .ok changed) :
    forest.frozen = false ∧
      ((forest.contains id = true ∧ changed = forest) ∨
        (forest.contains id = false ∧ changed = forest.withLeaf id)) := by
  unfold insert at inserted
  split at inserted
  · contradiction
  next unfrozen =>
    refine ⟨Bool.eq_false_iff.mpr unfrozen, ?_⟩
    split at inserted
    · next known =>
      cases inserted
      exact Or.inl ⟨known, rfl⟩
    · next unknown =>
      cases inserted
      exact Or.inr ⟨Bool.eq_false_iff.mpr unknown, rfl⟩

theorem node?_withLeaf (forest : Forest δ γ) (id other : StateId) :
    (forest.withLeaf id).node? other =
      (forest.node? other).or (if id = other then some { id } else none) := by
  rw [node?, withLeaf, List.find?_append]
  by_cases same : id = other <;> simp [same, node?]

theorem ids_nodup_withLeaf {id : StateId} (apart : forest.ids.Nodup)
    (unknown : forest.contains id = false) : (forest.withLeaf id).ids.Nodup := by
  have fresh : id ∉ forest.ids := by
    rw [← contains_iff, unknown]
    exact Bool.false_ne_true
  have idsEq : (forest.withLeaf id).ids = forest.ids ++ [id] := by simp [ids, withLeaf]
  rw [idsEq, List.nodup_append]
  refine ⟨apart, by simp, ?_⟩
  rintro other member _ single rfl
  rw [List.mem_singleton.mp single] at member
  exact fresh member

theorem WellFormed.withLeaf (wellFormed : forest.WellFormed) {id : StateId}
    (unknown : forest.contains id = false) : (forest.withLeaf id).WellFormed := by
  have absent : forest.node? id = none := node?_eq_none_iff.mpr unknown
  have old {other : StateId} {node : Node δ γ} (found : forest.node? other = some node) :
      (forest.withLeaf id).node? other = some node := by
    rw [node?_withLeaf, found, Option.some_or]
  have origin {other : StateId} {node : Node δ γ}
      (found : (forest.withLeaf id).node? other = some node) :
      forest.node? other = some node ∨ (other = id ∧ node = { id }) := by
    rw [node?_withLeaf] at found
    rcases Option.or_eq_some_iff.mp found with original | ⟨_, new⟩
    · exact Or.inl original
    · split at new
      · next same => exact Or.inr ⟨same.symm, (Option.some.inj new).symm⟩
      · contradiction
  refine ⟨ids_nodup_withLeaf wellFormed.ids_nodup unknown, ?_, ?_, ?_, ?_⟩
  · intro other node found
    rcases origin found with original | ⟨_, rfl⟩
    · exact wellFormed.children_nodup original
    · exact List.nodup_nil
  · intro other node child found
    have sameBelow : (∃ below, (forest.withLeaf id).node? child = some below ∧
        below.parent = some other) ↔
        ∃ below, forest.node? child = some below ∧ below.parent = some other := by
      constructor
      · rintro ⟨below, belowFound, nested⟩
        rcases origin belowFound with original | ⟨_, rfl⟩
        · exact ⟨below, original, nested⟩
        · contradiction
      · rintro ⟨below, original, nested⟩
        exact ⟨below, old original, nested⟩
    rw [sameBelow]
    rcases origin found with original | ⟨rfl, rfl⟩
    · exact wellFormed.mem_children_iff original
    · simp only [List.not_mem_nil, false_iff]
      rintro ⟨below, belowFound, nested⟩
      obtain ⟨above, aboveFound, _⟩ := wellFormed.level_of_parent belowFound nested
      rw [absent] at aboveFound
      contradiction
  · intro other node found root
    rcases origin found with original | ⟨_, rfl⟩
    · exact wellFormed.level_of_root original root
    · rfl
  · intro other node parent found nested
    rcases origin found with original | ⟨_, rfl⟩
    · obtain ⟨above, aboveFound, levelEq⟩ := wellFormed.level_of_parent original nested
      exact ⟨above, old aboveFound, levelEq⟩
    · contradiction

def HasFrozen (forest : Forest δ γ) : Prop :=
  ∃ id node, forest.node? id = some node ∧ node.frozen = true

structure KeepsFrozen (forest changed : Forest δ γ) : Prop where
  ids_eq : changed.ids = forest.ids
  frozen_eq : changed.frozen = forest.frozen
  node_frozen : ∀ {id node}, forest.node? id = some node → node.frozen = true →
    ∃ node', changed.node? id = some node' ∧ node'.frozen = true

namespace KeepsFrozen

theorem refl (forest : Forest δ γ) : KeepsFrozen forest forest :=
  ⟨rfl, rfl, fun found frozen => ⟨_, found, frozen⟩⟩

theorem trans {middle : Forest δ γ} (first : KeepsFrozen forest middle)
    (second : KeepsFrozen middle changed) : KeepsFrozen forest changed where
  ids_eq := second.ids_eq.trans first.ids_eq
  frozen_eq := second.frozen_eq.trans first.frozen_eq
  node_frozen found frozen := by
    obtain ⟨_, found', frozen'⟩ := first.node_frozen found frozen
    exact second.node_frozen found' frozen'

theorem hasFrozen (keeps : KeepsFrozen forest changed) (some_frozen : forest.HasFrozen) :
    changed.HasFrozen := by
  obtain ⟨id, node, found, frozen⟩ := some_frozen
  obtain ⟨node', found', frozen'⟩ := keeps.node_frozen found frozen
  exact ⟨id, node', found', frozen'⟩

theorem update {change : Node δ γ → Except BuildError (Node δ γ)}
    (opens : ∀ node node', change node = .ok node' → node.frozen = false ∧ node'.id = node.id)
    (forest : Forest δ γ) (id : StateId) : KeepsFrozen forest (forest.update id change).left := by
  cases updated : forest.update id change with
  | error refusal =>
      rw [Change.left_error, (left_update_of_error updated).1]
      exact refl forest
  | ok changed =>
      rw [Change.left_ok]
      rcases becomes_update (fun node node' result => (opens node node' result).2) updated with
        ⟨_, rfl⟩ | ⟨node, node', found, result, becomes⟩
      · exact refl _
      · refine ⟨becomes.ids_eq, becomes.frozen_eq, fun {other old} original frozen => ?_⟩
        have other_ne : other ≠ id := by
          rintro rfl
          rw [found] at original
          cases original
          rw [(opens node node' result).1] at frozen
          contradiction
        exact ⟨old, by rw [becomes.node?_eq, original, Option.map_some, if_neg other_ne], frozen⟩

theorem relevel (steps : Nat) (forest : Forest δ γ) (id : StateId) (level : Nat) :
    KeepsFrozen forest (Forest.relevel steps forest id level).left := by
  induction steps generalizing forest id level with
  | zero => exact refl forest
  | succ steps ih =>
      rw [Forest.relevel]
      split
      · exact refl forest
      · next top _ =>
        refine Change.related_andThen KeepsFrozen trans (update ?_ forest id) ?_
        · intro node node' result
          obtain ⟨unfrozen, rfl⟩ := Node.change_eq_ok_iff.mp result
          exact ⟨unfrozen, rfl⟩
        · exact Change.related_each KeepsFrozen refl trans
            (fun middle child => ih middle child (level + 1)) top.children

theorem attach (forest : Forest δ γ) (parent child : StateId) :
    KeepsFrozen forest (forest.attach parent child).left := by
  have setOpens : ∀ node node' : Node δ γ, node.setParent parent = .ok node' →
      node.frozen = false ∧ node'.id = node.id := by
    intro node node' result
    obtain ⟨_, change, _⟩ := bind_eq_ok_iff.mp result
    exact ⟨(Node.change_eq_ok_iff.mp change).1, Node.setParent_keepsId result⟩
  have addOpens : ∀ node node' : Node δ γ, node.addChild child = .ok node' →
      node.frozen = false ∧ node'.id = node.id := by
    intro node node' result
    exact ⟨(Node.change_eq_ok_iff.mp result).1, Node.addChild_keepsId result⟩
  unfold Forest.attach
  split
  · exact refl forest
  split
  · exact refl forest
  split
  · exact refl forest
  split
  · refine Change.related_andThen KeepsFrozen trans (update setOpens forest child) fun moved => ?_
    refine Change.related_andThen KeepsFrozen trans (update addOpens moved parent) fun extended => ?_
    exact relevel extended.size extended child _
  · exact refl forest

end KeepsFrozen

theorem hasFrozen_of_change_error {id : StateId} {change : Node δ γ → Node δ γ}
    {refusal : Refusal (Forest δ γ)}
    (updated : forest.update id (fun node => node.change (change node)) = .error refusal) :
    refusal.left.HasFrozen := by
  obtain ⟨node, found, frozen, rfl⟩ := update_change_eq_error updated
  exact ⟨id, node, found, frozen⟩

theorem hasFrozen_of_relevel_error {steps level : Nat} {id : StateId}
    {refusal : Refusal (Forest δ γ)} (stopped : relevel steps forest id level = .error refusal) :
    refusal.left.HasFrozen := by
  induction steps generalizing forest id level refusal with
  | zero => contradiction
  | succ steps ih =>
      rw [relevel] at stopped
      split at stopped
      · contradiction
      · rcases Change.andThen_eq_error_iff.mp stopped with first | ⟨middle, _, later⟩
        · exact hasFrozen_of_change_error first
        · exact Change.left_of_each_eq_error (fun _ _ _ below => ih below) later

theorem left_attach_of_error {parent child : StateId} {refusal : Refusal (Forest δ γ)}
    (refused : forest.attach parent child = .error refusal) :
    refusal.left = forest ∨ refusal.left.HasFrozen := by
  unfold attach at refused
  split at refused
  · cases refused
    exact Or.inl rfl
  split at refused
  · cases refused
    exact Or.inl rfl
  split at refused
  · cases refused
    exact Or.inl rfl
  split at refused
  · rcases Change.andThen_eq_error_iff.mp refused with first | ⟨moved, _, later⟩
    · exact Or.inl (left_update_of_error first).1
    · right
      rcases Change.andThen_eq_error_iff.mp later with second | ⟨extended, _, later⟩
      · exact hasFrozen_of_change_error second
      · exact hasFrozen_of_relevel_error later
  · cases refused
    exact Or.inl rfl

theorem freezeNodes_eq_none {nodes nodes' : List (Node δ γ)}
    (frozen : freezeNodes nodes = (nodes', none)) :
    (∀ node ∈ nodes, node.frozen = false) ∧ nodes' = nodes.map Node.sealed := by
  induction nodes generalizing nodes' with
  | nil =>
      cases frozen
      simp
  | cons node nodes ih =>
      unfold freezeNodes at frozen
      split at frozen
      · simp at frozen
      · next node' result =>
        obtain ⟨unfrozen, rfl⟩ := Node.change_eq_ok_iff.mp result
        cases later : freezeNodes nodes with
        | mk rest error? =>
            simp only [later, Prod.mk.injEq] at frozen
            obtain ⟨rfl, rfl⟩ := frozen
            obtain ⟨restUnfrozen, rfl⟩ := ih later
            exact ⟨by simpa [unfrozen] using restUnfrozen, rfl⟩

theorem freezeNodes_eq_some {nodes nodes' : List (Node δ γ)} {error : BuildError}
    (stopped : freezeNodes nodes = (nodes', some error)) :
    ∃ stop : FirstClosed Node.frozen nodes, nodes' = stop.left Node.sealed ∧
      error = .configuration (.stateFrozen stop.item.id) := by
  induction nodes generalizing nodes' with
  | nil => simp [freezeNodes] at stopped
  | cons node nodes ih =>
      unfold freezeNodes at stopped
      split at stopped
      · next result =>
        simp only [Prod.mk.injEq, Option.some.injEq] at stopped
        obtain ⟨rfl, rfl⟩ := stopped
        obtain ⟨frozen, rfl⟩ := Node.change_eq_error_iff.mp result
        exact ⟨.here nodes frozen, rfl, rfl⟩
      · next node' result =>
        obtain ⟨unfrozen, rfl⟩ := Node.change_eq_ok_iff.mp result
        cases rest : freezeNodes nodes with
        | mk nodes'' error? =>
            simp only [rest, Prod.mk.injEq] at stopped
            obtain ⟨rfl, rfl⟩ := stopped
            obtain ⟨stop, rfl, errorEq⟩ := ih rest
            exact ⟨stop.later unfrozen, rfl, errorEq⟩

theorem freeze_eq_ok (done : forest.freeze = .ok changed) :
    forest.frozen = false ∧ (∀ node ∈ forest.nodes, node.frozen = false) ∧
      changed = { nodes := forest.nodes.map Node.sealed, frozen := true } := by
  unfold Forest.freeze at done
  split at done
  · contradiction
  next unfrozen =>
    split at done
    · contradiction
    next nodes result =>
      cases done
      obtain ⟨open_, rfl⟩ := freezeNodes_eq_none result
      exact ⟨Bool.eq_false_iff.mpr unfrozen, open_, rfl⟩

theorem WellFormed.freeze (wellFormed : forest.WellFormed)
    (frozen : forest.freeze = .ok changed) :
    changed.WellFormed ∧ changed.frozen = true ∧
      ∀ node ∈ changed.nodes, node.frozen = true := by
  obtain ⟨_, _, rfl⟩ := freeze_eq_ok frozen
  have becomes := becomes_map Node.sealed (fun _ => rfl) forest
  refine ⟨?_, rfl, ?_⟩
  · have placed := wellFormed.of_samePlace becomes fun _ _ _ => ⟨rfl, rfl, rfl, rfl⟩
    exact ⟨placed.ids_nodup, placed.children_nodup, placed.mem_children_iff,
      placed.level_of_root, placed.level_of_parent⟩
  · intro node member
    obtain ⟨_, _, rfl⟩ := List.mem_map.mp member
    rfl

/-- Well-formed, with nodes that are frozen exactly if the forest is. -/
structure Intact (forest : Forest δ γ) : Prop where
  wellFormed : forest.WellFormed
  node_frozen_eq : ∀ {id node}, forest.node? id = some node → node.frozen = forest.frozen

/-- Intact, or spoiled by a node that was frozen on its own. -/
def Sound (forest : Forest δ γ) : Prop :=
  forest.Intact ∨ (forest.ids.Nodup ∧ forest.frozen = false ∧ forest.HasFrozen)

theorem Sound.ids_nodup (sound : forest.Sound) : forest.ids.Nodup := by
  rcases sound with intact | ⟨apart, _, _⟩
  · exact intact.wellFormed.ids_nodup
  · exact apart

theorem sound_empty : ({} : Forest δ γ).Sound := by
  left
  refine ⟨⟨List.nodup_nil, ?_, ?_, ?_, ?_⟩, ?_⟩ <;>
    · intros
      contradiction

namespace Sound

theorem of_keepsFrozen (apart : forest.ids.Nodup) (unfrozen : forest.frozen = false)
    (spoiled : forest.HasFrozen) (keeps : KeepsFrozen forest changed) : changed.Sound :=
  Or.inr ⟨keeps.ids_eq ▸ apart, keeps.frozen_eq.trans unfrozen, keeps.hasFrozen spoiled⟩

theorem insert (sound : forest.Sound) (id : StateId) : (forest.insert id).left.Sound := by
  cases inserted : forest.insert id with
  | error refusal =>
      unfold Forest.insert at inserted
      split at inserted
      · cases inserted
        exact sound
      · split at inserted <;> contradiction
  | ok changed =>
      obtain ⟨unfrozen, ⟨_, rfl⟩ | ⟨unknown, rfl⟩⟩ := insert_eq_ok inserted
      · exact sound
      · rcases sound with intact | ⟨apart, _, other, node, found, frozen⟩
        · refine Or.inl ⟨intact.wellFormed.withLeaf unknown, fun {other node} found => ?_⟩
          change node.frozen = forest.frozen
          rw [Change.left_ok, node?_withLeaf] at found
          rcases Option.or_eq_some_iff.mp found with original | ⟨_, new⟩
          · exact intact.node_frozen_eq original
          · split at new
            · rw [← Option.some.inj new, unfrozen]
            · contradiction
        · refine Or.inr ⟨ids_nodup_withLeaf apart unknown, unfrozen, other, node, ?_, frozen⟩
          rw [Change.left_ok, node?_withLeaf, found, Option.some_or]

theorem attach (sound : forest.Sound) (parent child : StateId) :
    (forest.attach parent child).left.Sound := by
  have keeps := KeepsFrozen.attach forest parent child
  rcases sound with intact | ⟨apart, unfrozen, spoiled⟩
  · cases unfrozen : forest.frozen with
    | true =>
        have refused :
            forest.attach parent child = .error ⟨.configuration .forestFrozen, forest⟩ := by
          rw [Forest.attach, if_pos unfrozen]
        rw [refused, Change.left_error]
        exact Or.inl intact
    | false =>
        cases attached : forest.attach parent child with
        | error refusal =>
            rw [attached] at keeps
            rcases left_attach_of_error attached with same | spoiled
            · rw [Change.left_error, same]
              exact Or.inl intact
            · exact Or.inr ⟨keeps.ids_eq ▸ intact.wellFormed.ids_nodup,
                keeps.frozen_eq.trans unfrozen, spoiled⟩
        | ok changed =>
            obtain ⟨_, _, _, placed⟩ := intact.wellFormed.exists_attached attached
            have becomes := placed.becomes
            refine Or.inl ⟨intact.wellFormed.attach attached, fun {id node} found => ?_⟩
            rw [Change.left_ok] at found ⊢
            rw [becomes.node?_eq] at found
            obtain ⟨old, original, rfl⟩ := Option.map_eq_some_iff.mp found
            rw [becomes.frozen_eq, ← intact.node_frozen_eq original]
            rfl
  · exact of_keepsFrozen apart unfrozen spoiled keeps

theorem change (sound : forest.Sound) (id : StateId) (edit : NodeEdit δ γ) :
    (forest.update id fun node => node.edit edit).left.Sound := by
  have opens : ∀ node node' : Node δ γ, node.edit edit = .ok node' →
      node.frozen = false ∧ node'.id = node.id := by
    intro node node' result
    obtain ⟨unfrozen, same⟩ := Node.samePlace_of_edit result
    exact ⟨unfrozen, same.id_eq⟩
  have keeps := KeepsFrozen.update opens forest id
  rcases sound with intact | ⟨apart, unfrozen, spoiled⟩
  · cases updated : forest.update id fun node => node.edit edit with
    | error refusal =>
        rw [Change.left_error, (left_update_of_error updated).1]
        exact Or.inl intact
    | ok changed =>
        rw [updated] at keeps
        have wellFormed := intact.wellFormed.update
          (fun node node' result => (Node.samePlace_of_edit result).2) updated
        rcases becomes_update (fun node node' result => (opens node node' result).2) updated with
          ⟨_, rfl⟩ | ⟨node, node', found, result, becomes⟩
        · exact Or.inl intact
        · have unfrozen : forest.frozen = false :=
            (intact.node_frozen_eq found).symm.trans (opens node node' result).1
          cases frozen : node'.frozen with
          | true =>
              refine Or.inr ⟨keeps.ids_eq ▸ intact.wellFormed.ids_nodup,
                keeps.frozen_eq.trans unfrozen, id, node', ?_, frozen⟩
              rw [Change.left_ok, becomes.node?_eq, found, Option.map_some, if_pos rfl]
          | false =>
              refine Or.inl ⟨wellFormed, fun {other old} original => ?_⟩
              rw [Change.left_ok] at original ⊢
              rw [becomes.node?_eq] at original
              obtain ⟨before, foundBefore, rfl⟩ := Option.map_eq_some_iff.mp original
              rw [becomes.frozen_eq]
              split
              · rw [frozen, unfrozen]
              · exact intact.node_frozen_eq foundBefore
  · exact of_keepsFrozen apart unfrozen spoiled keeps

theorem freeze (sound : forest.Sound) : forest.freeze.left.Sound := by
  cases result : forest.freeze with
  | error refusal =>
      have apart := sound.ids_nodup
      unfold Forest.freeze at result
      split at result
      · cases result
        exact sound
      next unfrozen =>
        split at result
        · next nodes error stopped =>
          cases result
          obtain ⟨stop, rfl, _⟩ := freezeNodes_eq_some stopped
          let left : Forest δ γ := { forest with nodes := stop.left Node.sealed }
          have idsEq : left.ids = forest.ids := by
            simp [left, ids, FirstClosed.left, stop.items_eq, Node.sealed]
          have apart' : left.ids.Nodup := idsEq ▸ apart
          have member : stop.item ∈ left.nodes := List.mem_append_right _ List.mem_cons_self
          exact Or.inr ⟨apart', Bool.eq_false_iff.mpr unfrozen, stop.item.id, stop.item,
            node?_of_mem apart' member, stop.item_closed⟩
        · contradiction
  | ok changed =>
      rcases sound with intact | ⟨apart, unfrozen, id, node, found, frozen⟩
      · obtain ⟨wellFormed, frozenEq, allFrozen⟩ := intact.wellFormed.freeze result
        refine Or.inl ⟨wellFormed, fun found => ?_⟩
        rw [Change.left_ok, frozenEq]
        exact allFrozen _ (mem_of_node? found)
      · have open_ := (freeze_eq_ok result).2.1 node (mem_of_node? found)
        rw [frozen] at open_
        contradiction

theorem edit (sound : forest.Sound) (edit : ForestEdit δ γ) : (forest.edit edit).left.Sound := by
  cases edit with
  | insert id => exact sound.insert id
  | attach parent child => exact sound.attach parent child
  | change id edit => exact sound.change id edit
  | freeze => exact sound.freeze

end Sound

end Forest

end Statechart
