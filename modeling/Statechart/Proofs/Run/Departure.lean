import Statechart.Proofs.Run.Firing
import Statechart.Proofs.Run.Recall

namespace Statechart

variable {δ γ : Type}

/-- The exit of a child of a composite, with the state that was the current one. -/
structure Departure where
  child : StateId
  leaf : StateId
  deriving DecidableEq

structure Journal where
  current : StateId
  departure : Option Departure := none

namespace Journal

def call (forest : Forest δ γ) (composite : StateId) (journal : Journal) :
    Call StateId StateId → Journal
  | .exit state =>
    if (forest.node? state).bind Node.parent = some composite then
      { journal with departure := some ⟨state, journal.current⟩ }
    else
      journal
  | _ => journal

def note (forest : Forest δ γ) (composite : StateId) (journal : Journal) : Note γ → Journal
  | .called call => journal.call forest composite call
  | .notified (.started leaf _) => { journal with current := leaf }
  | .notified (.step (.completed leaf) _ _ _) => { journal with current := leaf }
  | _ => journal

def follow (forest : Forest δ γ) (composite : StateId) (journal : Journal)
    (notes : List (Note γ)) : Journal :=
  notes.foldl (note forest composite) journal

variable {forest : Forest δ γ} {composite : StateId} {journal : Journal}
  {notes later : List (Note γ)}

theorem follow_append :
    journal.follow forest composite (notes ++ later) =
      (journal.follow forest composite notes).follow forest composite later :=
  List.foldl_append

theorem follow_of_quiet (quiet : Note.notifications notes = []) :
    journal.follow forest composite notes =
      (Note.calls notes).foldl (call forest composite) journal := by
  induction notes generalizing journal with
  | nil => rfl
  | cons first notes ih =>
      cases first with
      | called call => exact ih quiet
      | ran handler => exact ih quiet
      | queued sender occurrence => exact ih quiet
      | logged record => exact ih quiet
      | notified notification => contradiction

theorem calls_of_ne {calls : List (PlannedCall δ γ)}
    (elsewhere : ∀ node, .exit node ∈ calls →
      (forest.node? node.id).bind Node.parent ≠ some composite) :
    (calls.map Call.named).foldl (call forest composite) journal = journal := by
  induction calls with
  | nil => rfl
  | cons first calls ih =>
      have rest := ih fun node member => elsewhere node (List.mem_cons_of_mem first member)
      rw [List.map_cons, List.foldl_cons]
      cases first with
      | exit node =>
          have here := elsewhere node List.mem_cons_self
          rw [Call.named, call, if_neg here, rest]
      | perform transition => exact rest
      | enter node => exact rest

theorem calls_exits {exits outside : List (Node δ γ)} {node : Node δ γ}
    (up : forest.Ascends (exits ++ outside)) (member : node ∈ exits)
    (parent : node.parent = some composite) :
    ((exits.map .exit).map Call.named).foldl (call forest composite) journal =
      { journal with departure := some ⟨node.id, journal.current⟩ } := by
  obtain ⟨before, after, rfl⟩ := List.append_of_mem member
  have found {other : Node δ γ} (listed : other ∈ before ++ node :: after) :
      forest.node? other.id = some other :=
    up.found_of_mem (List.mem_append_left outside listed)
  have elsewhere {others : List (Node δ γ)} (others_sub : others ⊆ before ++ after)
      (other : Node δ γ) (exited : (.exit other : PlannedCall δ γ) ∈ others.map .exit) :
      (forest.node? other.id).bind Node.parent ≠ some composite := by
    obtain ⟨_, otherMember, same⟩ := List.mem_map.mp exited
    cases same
    have listed := others_sub otherMember
    have differ : other.parent ≠ node.parent := by
      rw [List.append_assoc, List.cons_append] at up
      refine up.parent_ne ?_
      rw [← List.append_assoc]
      exact List.mem_append_left outside listed
    rw [found (List.perm_middle.mem_iff.mpr (List.mem_cons_of_mem node listed)), Option.bind_some]
    rwa [parent] at differ
  have here : (forest.node? node.id).bind Node.parent = some composite := by
    rw [found member, Option.bind_some, parent]
  rw [List.map_append, List.map_append, List.foldl_append,
    calls_of_ne (elsewhere (List.subset_append_left before after)), List.map_cons, List.map_cons,
    List.foldl_cons, calls_of_ne (elsewhere (List.subset_append_right before after)), Call.named,
    call, if_pos here]

end Journal

namespace Chart

variable {chart : Chart δ γ} {composite : Node δ γ} {departure : Option Departure}
  {memory : Memory} {active exits outside : List (Node δ γ)} {current : StateId}

/-- The states from the composite down to the leaf of a departure from it, innermost first. -/
structure Way (chart : Chart δ γ) (composite : Node δ γ) (last : Departure)
    (path : List (Node δ γ)) : Prop where
  lineage_eq : chart.forest.lineage last.leaf = path ++ chart.forest.lineage composite.id
  child_eq : path.getLast?.map Node.id = some last.child
  atRest : chart.forest.AtRest last.leaf

/--
The memory agrees with the last departure from a composite.  The child is remembered; and with deep
history the whole way is, unless the composite has been entered again, that is unless one of its
children is active.
-/
structure Recalls (chart : Chart δ γ) (composite : Node δ γ) (departure : Option Departure)
    (memory : Memory) (active : List (Node δ γ)) : Prop where
  nothing : departure = none → memory.child? composite.id = none
  way : ∀ last, departure = some last → ∃ path, chart.Way composite last path ∧
    (composite.history ≠ .none → ∀ node, path.getLast? = some node → node.isFinal = false →
      memory.child? composite.id = some node.id) ∧
    (composite.history = .deep → (∀ node ∈ active, node.parent ≠ some composite.id) →
      (∀ node ∈ path, node.isFinal = false) → Retraces memory path)

theorem Recalls.enter (recalls : chart.Recalls composite departure memory active)
    (entered : List (Node δ γ)) :
    chart.Recalls composite departure memory (entered ++ active) where
  nothing := recalls.nothing
  way last departed := by
    obtain ⟨path, way, child, retraces⟩ := recalls.way last departed
    refine ⟨path, way, child, fun deep inactive => ?_⟩
    exact retraces deep fun node member => inactive node (List.mem_append_right entered member)

theorem exists_parent_within (wellFormed : chart.forest.WellFormed)
    (found : chart.forest.node? composite.id = some composite) {path : List (Node δ γ)}
    {leaf : StateId}
    (lineageEq : chart.forest.lineage leaf = path ++ chart.forest.lineage composite.id)
    {node : Node δ γ} (member : node ∈ path) :
    ∃ parent, node.parent = some parent ∧ composite.id ∈ chart.forest.ancestors parent := by
  obtain ⟨before, after, rfl⟩ := List.append_of_mem member
  have up := wellFormed.ascends_lineage leaf
  rw [lineageEq, List.append_assoc, List.cons_append] at up
  have ownEq := up.of_append.lineage_eq
  have nodeFound := up.of_append.found_of_mem List.mem_cons_self
  have self := wellFormed.mem_ancestors_self (Forest.contains_of_node? found)
  rw [wellFormed.lineage_eq_cons nodeFound] at ownEq
  cases parent : node.parent with
  | none =>
      rw [parent, Option.elim_none, wellFormed.lineage_eq_cons found] at ownEq
      simp at ownEq
  | some above =>
      rw [parent, Option.elim_some] at ownEq
      refine ⟨above, rfl, ?_⟩
      rw [Forest.ancestors, (List.cons.inj ownEq).2, List.map_append]
      exact List.mem_append_right _ self

/-- Leaving a composite records the way that leads out of it. -/
theorem recalls_of_leave (wellFormed : chart.forest.WellFormed)
    (found : chart.forest.node? composite.id = some composite)
    (atRest : chart.forest.AtRest current)
    (lineageEq : chart.forest.lineage current = exits ++ outside) {node : Node δ γ}
    (member : node ∈ exits) (parent : node.parent = some composite.id) :
    chart.Recalls composite (some ⟨node.id, current⟩)
      ((exits.map .exit).foldl chart.rememberCall memory) outside := by
  have up := wellFormed.ascends_lineage current
  rw [lineageEq] at up
  obtain ⟨before, after, exitsEq⟩ := List.append_of_mem member
  have wayEq : chart.forest.lineage current =
      (before ++ [node]) ++ chart.forest.lineage composite.id := by
    have up' := up
    rw [exitsEq, List.append_assoc, List.cons_append] at up'
    have ownEq := up'.of_append.lineage_eq
    have nodeFound := up'.of_append.found_of_mem List.mem_cons_self
    rw [wellFormed.lineage_eq_cons nodeFound, parent, Option.elim_some] at ownEq
    rw [lineageEq, exitsEq, (List.cons.inj ownEq).2]
    simp
  refine ⟨fun none => by contradiction, fun last departed => ?_⟩
  cases departed
  refine ⟨before ++ [node], ⟨wayEq, by simp, atRest⟩, ?_, ?_⟩
  · intro keeps last lastEq notFinal
    rw [List.getLast?_concat] at lastEq
    cases lastEq
    exact child?_foldl_exits up member notFinal parent
      (tracksHistory_of_keeps wellFormed found keeps)
  · intro deep _ notFinal other otherMember
    obtain ⟨above, otherParent, within⟩ := exists_parent_within wellFormed found wayEq otherMember
    have exited : other ∈ exits := by
      rw [exitsEq]
      rcases List.mem_append.mp otherMember with below | last
      · exact List.mem_append_left _ below
      · rw [List.mem_singleton.mp last]
        exact List.mem_append_right _ List.mem_cons_self
    refine ⟨above, otherParent, ?_⟩
    exact child?_foldl_exits up exited (notFinal other otherMember) otherParent
      (tracksHistory_of_deep wellFormed found deep within)

theorem parent_ne_of_inactive (wellFormed : chart.forest.WellFormed) {around parent : StateId}
    (inactive : ∀ node ∈ chart.forest.lineage current, node.parent ≠ some around)
    (within : around ∈ chart.forest.ancestors parent) {node : Node δ γ}
    (active : node ∈ chart.forest.lineage current) : node.parent ≠ some parent := by
  intro nested
  have nodeFound := (wellFormed.ascends_lineage current).found_of_mem active
  have ancestorsEq := wellFormed.ancestors_eq_cons nodeFound
  rw [nested, Option.elim_some] at ancestorsEq
  have around' : around ∈ chart.forest.ancestors node.id := by
    rw [ancestorsEq]
    exact List.mem_cons_of_mem node.id within
  have differ : around ≠ node.id := by
    rintro rfl
    have apart := wellFormed.ancestors_nodup node.id
    rw [ancestorsEq, List.nodup_cons] at apart
    exact apart.1 within
  obtain ⟨inner, child, onWay, childParent⟩ := wellFormed.exists_child_on_way around' differ
  obtain ⟨below, split⟩ := wellFormed.lineage_eq_append active
  refine inactive child ?_ childParent
  rw [split, onWay]
  exact List.mem_append_right below (List.mem_append_right inner List.mem_cons_self)

/-- What happens elsewhere leaves the last departure alone. -/
theorem recalls_of_stay (wellFormed : chart.forest.WellFormed)
    (found : chart.forest.node? composite.id = some composite)
    (lineageEq : chart.forest.lineage current = exits ++ outside)
    (elsewhere : ∀ node ∈ exits, node.parent ≠ some composite.id)
    (recalls : chart.Recalls composite departure memory (exits ++ outside)) :
    chart.Recalls composite departure
      ((exits.map .exit).foldl chart.rememberCall memory) outside := by
  have same : ((exits.map .exit).foldl chart.rememberCall memory).child? composite.id =
      memory.child? composite.id := by
    refine child?_foldl_of_ne fun node exited => ?_
    obtain ⟨_, member, same⟩ := List.mem_map.mp exited
    cases same
    exact elsewhere node member
  refine ⟨fun none => same.trans (recalls.nothing none), fun last departed => ?_⟩
  obtain ⟨path, way, child, retraces⟩ := recalls.way last departed
  refine ⟨path, way, by rw [same]; exact child, fun deep inactive notFinal node member => ?_⟩
  have inactive' : ∀ node ∈ chart.forest.lineage current, node.parent ≠ some composite.id := by
    intro node member
    rw [lineageEq] at member
    rcases List.mem_append.mp member with exited | stays
    · exact elsewhere node exited
    · exact inactive node stays
  rw [← lineageEq] at retraces
  obtain ⟨parent, parentEq, remembered⟩ := retraces deep inactive' notFinal node member
  obtain ⟨parent', parentEq', within⟩ :=
    exists_parent_within wellFormed found way.lineage_eq member
  cases parentEq.symm.trans parentEq'
  refine ⟨parent, parentEq, ?_⟩
  rw [← remembered]
  refine child?_foldl_of_ne fun other exited => ?_
  obtain ⟨_, otherMember, same⟩ := List.mem_map.mp exited
  cases same
  refine parent_ne_of_inactive wellFormed inactive' within ?_
  rw [lineageEq]
  exact List.mem_append_left outside otherMember

/-- Exits on the way up from the current state are taken down and remembered alike. -/
theorem recalls_of_exits (wellFormed : chart.forest.WellFormed)
    (found : chart.forest.node? composite.id = some composite) {journal : Journal}
    (atRest : chart.forest.AtRest journal.current)
    (lineageEq : chart.forest.lineage journal.current = exits ++ outside)
    (recalls : chart.Recalls composite journal.departure memory
      (chart.forest.lineage journal.current)) :
    chart.Recalls composite
      (((exits.map .exit).map Call.named).foldl (Journal.call chart.forest composite.id)
        journal).departure
      ((exits.map .exit).foldl chart.rememberCall memory) outside := by
  have up := wellFormed.ascends_lineage journal.current
  rw [lineageEq] at up recalls
  by_cases leaves : ∃ node ∈ exits, node.parent = some composite.id
  · obtain ⟨node, member, parent⟩ := leaves
    rw [Journal.calls_exits up member parent]
    exact recalls_of_leave wellFormed found atRest lineageEq member parent
  · have elsewhere (node : Node δ γ) (member : node ∈ exits) : node.parent ≠ some composite.id :=
      fun parent => leaves ⟨node, member, parent⟩
    rw [Journal.calls_of_ne]
    · exact recalls_of_stay wellFormed found lineageEq elsewhere recalls
    · intro node exited
      obtain ⟨_, member, same⟩ := List.mem_map.mp exited
      cases same
      rw [up.found_of_mem (List.mem_append_left outside member), Option.bind_some]
      exact elsewhere node member

end Chart

end Statechart
