import Statechart.Proofs.Hierarchy.Buildable
import Statechart.Proofs.Run.LastExit

/-!
Where a landing asks what is remembered.

Whether the exit of a child is remembered is read off its composite and the states around it.  A
landing looks at none of these: it hands a mode down, from the state it landed on, and asks the
memory wherever it comes with a mode other than `none`.  Still a composite may be asked for exactly
if its children are remembered.
-/

namespace Statechart

variable {δ γ : Type}

/-- Every entry has a child of its composite, which is not final. -/
def Memory.Fits (memory : Memory) (forest : Forest δ γ) : Prop :=
  ∀ composite child, memory.child? composite = some child → forest.parts composite child = true

namespace Chart

/-- Going down from a node in a mode, the memory is asked for the last active child of a state. -/
inductive Consults (chart : Chart δ γ) (memory : Memory) :
    History → Node δ γ → StateId → Prop where
  | here {mode : History} {node : Node δ γ} (goesOn : (node.isFinal || node.isLeaf) = false)
      (keeps : mode ≠ .none) : Consults chart memory mode node node.id
  | deeper {mode next : History} {node below : Node δ γ} {child id : StateId}
      (goesOn : (node.isFinal || node.isLeaf) = false)
      (nextEq : chart.nextChild? memory mode node = some (child, next))
      (found : chart.forest.node? child = some below)
      (later : Consults chart memory next below id) : Consults chart memory mode node id

/-- A landing on the state asks the memory for the last active child of the other one. -/
def LandingConsults (chart : Chart δ γ) (memory : Memory) (landing id : StateId) : Prop :=
  ∃ node, chart.forest.node? landing = some node ∧ chart.Consults memory node.history node id

/-- A landing on the state passes through the other one, if that is not the same. -/
def LandingReaches (chart : Chart δ γ) (memory : Memory) (landing id : StateId) : Prop :=
  id = landing ∨
    ∃ node, chart.forest.node? id = some node ∧ .enter node ∈ (chart.land memory landing).calls

variable {chart : Chart δ γ} {memory memory' : Memory} {mode next : History}
  {node below : Node δ γ} {id child landing : StateId} {steps : Nat}

theorem nextChild?_mem (found : chart.forest.node? node.id = some node)
    (composite : node.isLeaf = false)
    (nextEq : chart.nextChild? memory mode node = some (child, next)) : child ∈ node.children := by
  obtain ⟨child', next', nextEq', member⟩ := exists_nextChild? memory mode found composite
  cases nextEq.symm.trans nextEq'
  exact member

theorem deep_of_nextChild? (nextEq : chart.nextChild? memory mode node = some (child, next))
    (keeps : next ≠ .none) : mode = .deep ∧ next = .deep := by
  unfold nextChild? at nextEq
  split at nextEq
  · simp only [Option.some.injEq, Prod.mk.injEq] at nextEq
    obtain ⟨_, rfl⟩ := nextEq
    split at keeps
    · next deep => exact ⟨deep, if_pos deep⟩
    · contradiction
  · obtain ⟨_, _, same⟩ := Option.map_eq_some_iff.mp nextEq
    cases same
    contradiction

theorem nextChild?_congr
    (agree : mode ≠ .none → memory.child? node.id = memory'.child? node.id) :
    chart.nextChild? memory mode node = chart.nextChild? memory' mode node := by
  have same : chart.remembered? memory mode node = chart.remembered? memory' mode node := by
    cases mode with
    | none => rfl
    | shallow => simp only [remembered?, agree (by simp)]
    | deep => simp only [remembered?, agree (by simp)]
  rw [nextChild?, nextChild?, same]

theorem below_of_nextChild? (wellFormed : chart.forest.WellFormed)
    (found : chart.forest.node? node.id = some node)
    (goesOn : (node.isFinal || node.isLeaf) = false)
    (nextEq : chart.nextChild? memory mode node = some (child, next))
    (belowFound : chart.forest.node? child = some below) :
    chart.forest.node? below.id = some below ∧ below.parent = some node.id ∧
      below.level = node.level + 1 := by
  have composite : node.isLeaf = false := (Bool.or_eq_false_iff.mp goesOn).2
  obtain ⟨below', belowFound', nested, level⟩ :=
    wellFormed.exists_child found (nextChild?_mem found composite nextEq)
  cases belowFound.symm.trans belowFound'
  exact ⟨by rw [Forest.id_of_node? belowFound, belowFound], nested, level⟩

theorem Consults.placed (wellFormed : chart.forest.WellFormed)
    (found : chart.forest.node? node.id = some node)
    (consults : chart.Consults memory mode node id) :
    (id = node.id ∧ mode ≠ .none) ∨
      (mode = .deep ∧ ∃ own, chart.forest.node? id = some own ∧ node.level < own.level ∧
        node.id ∈ chart.forest.ancestors id) := by
  induction consults with
  | here _ keeps => exact Or.inl ⟨rfl, keeps⟩
  | @deeper mode next node below child id goesOn nextEq belowFound later ih =>
      obtain ⟨ownFound, nested, level⟩ :=
        below_of_nextChild? wellFormed found goesOn nextEq belowFound
      have around : node.id ∈ chart.forest.ancestors below.id := by
        rw [wellFormed.ancestors_eq_cons ownFound, nested, Option.elim_some]
        exact List.mem_cons_of_mem _
          (wellFormed.mem_ancestors_self (Forest.contains_of_node? found))
      rcases ih ownFound with ⟨rfl, keeps⟩ | ⟨deep, own, idFound, lower, inside⟩
      · exact Or.inr ⟨(deep_of_nextChild? nextEq keeps).1, below, ownFound, by omega, around⟩
      · have keeps : next ≠ .none := by simp [deep]
        exact Or.inr ⟨(deep_of_nextChild? nextEq keeps).1, own, idFound, by omega,
          wellFormed.mem_ancestors_trans inside around⟩

theorem Consults.tracked (wellFormed : chart.forest.WellFormed)
    (found : chart.forest.node? node.id = some node)
    (consults : chart.Consults memory node.history node id) :
    chart.forest.tracksHistory id = true := by
  rcases consults.placed wellFormed found with ⟨rfl, keeps⟩ | ⟨deep, _, _, _, around⟩
  · exact tracksHistory_of_keeps wellFormed found keeps
  · exact tracksHistory_of_deep wellFormed found deep around

theorem descend_congr
    (agree : ∀ composite, chart.Consults memory mode node composite →
      memory.child? composite = memory'.child? composite) :
    chart.descend memory steps mode node = chart.descend memory' steps mode node := by
  induction steps generalizing mode node with
  | zero => rfl
  | succ steps ih =>
      cases goesOn : node.isFinal || node.isLeaf with
      | true => rw [descend_of_rests goesOn, descend_of_rests goesOn]
      | false =>
          have nextEq : chart.nextChild? memory mode node = chart.nextChild? memory' mode node :=
            nextChild?_congr fun keeps => agree node.id (.here goesOn keeps)
          rw [descend, descend, ← nextEq]
          split
          · rfl
          split
          · rfl
          · next child next chosen =>
            split
            · rfl
            · next below found =>
              rw [ih fun composite later => agree composite (.deeper goesOn chosen found later)]

/-- What a landing does not ask for makes no difference to it. -/
theorem land_congr (agree : ∀ composite, chart.LandingConsults memory landing composite →
      memory.child? composite = memory'.child? composite) :
    chart.land memory landing = chart.land memory' landing := by
  cases found : chart.forest.node? landing with
  | none => rw [land, land, found]
  | some node =>
      rw [land_eq_descend found, land_eq_descend found]
      exact descend_congr fun composite consults => agree composite ⟨node, found, consults⟩

theorem land_record_of_unasked (child : StateId)
    (unasked : ¬ chart.LandingConsults memory landing id) :
    chart.land (memory.record id child) landing = chart.land memory landing := by
  refine (land_congr fun composite asked => ?_).symm
  have differ : id ≠ composite := by
    rintro rfl
    exact unasked asked
  rw [Memory.child?_record, if_neg differ]

/--
A plan for the way down from a state to one that is asked for: it goes on from there in a mode that
follows what is remembered.
-/
inductive Asks (chart : Chart δ γ) (memory : Memory) (start id : StateId) : Plan δ γ → Prop where
  | intro {own : Node δ γ} {entered : List (Node δ γ)} {mode : History} {steps : Nat}
      (found : chart.forest.node? id = some own)
      (goesOn : (own.isFinal || own.isLeaf) = false) (keeps : mode ≠ .none)
      (reached : id = start ∨ own ∈ entered) :
      Asks chart memory start id
        ((chart.descend memory (steps + 1) mode own).after (entered.map .enter))

/-- The way down to a state that is asked for is the same in every memory that agrees elsewhere. -/
theorem Consults.asks (wellFormed : chart.forest.WellFormed)
    (consults : chart.Consults memory mode node id)
    (agree : ∀ composite, composite ≠ id → memory'.child? composite = memory.child? composite)
    (found : chart.forest.node? node.id = some node)
    (enough : chart.forest.size < node.level + steps) :
    chart.Asks memory' node.id id (chart.descend memory' steps mode node) := by
  induction consults generalizing steps with
  | @here mode node goesOn keeps =>
      cases steps with
      | zero =>
          have := wellFormed.level_le_size found
          omega
      | succ steps =>
          change chart.Asks memory' node.id node.id
            ((chart.descend memory' (steps + 1) mode node).after (List.map .enter []))
          exact .intro found goesOn keeps (Or.inl rfl)
  | @deeper mode next node below child id goesOn nextEq belowFound later ih =>
      cases steps with
      | zero =>
          have := wellFormed.level_le_size found
          omega
      | succ steps =>
          obtain ⟨belowOwn, nested, level⟩ :=
            below_of_nextChild? wellFormed found goesOn nextEq belowFound
          have apart : node.id ≠ id := by
            rintro rfl
            rcases later.placed wellFormed belowOwn with ⟨same, _⟩ | ⟨_, own, ownFound, lower, _⟩
            · rw [same, belowOwn] at found
              cases found
              omega
            · cases found.symm.trans ownFound
              omega
          have nextEq' : chart.nextChild? memory' mode node = some (child, next) :=
            (nextChild?_congr fun _ => agree node.id apart).trans nextEq
          have further : chart.Asks memory' below.id id (chart.descend memory' steps next below) :=
            ih agree belowOwn (by omega)
          rw [descend_of_next goesOn nextEq' belowFound]
          generalize chart.descend memory' steps next below = plan at further
          obtain @⟨own, entered, mode', steps', ownFound, goesOn', keeps, reached⟩ := further
          have listed : own ∈ below :: entered := by
            rcases reached with rfl | member
            · cases belowOwn.symm.trans ownFound
              exact List.mem_cons_self
            · exact List.mem_cons_of_mem _ member
          change chart.Asks memory' node.id id
            ((chart.descend memory' (steps' + 1) mode' own).after ((below :: entered).map .enter))
          exact .intro ownFound goesOn' keeps (Or.inr listed)

theorem asks_of_consults (wellFormed : chart.forest.WellFormed)
    (consults : chart.LandingConsults memory landing id)
    (agree : ∀ composite, composite ≠ id → memory'.child? composite = memory.child? composite) :
    chart.Asks memory' landing id (chart.land memory' landing) := by
  obtain ⟨node, found, consults⟩ := consults
  obtain rfl := Forest.id_of_node? found
  have enough : chart.forest.size < node.level + chart.forest.size := by
    have := wellFormed.level_pos found
    omega
  rw [land_eq_descend found]
  exact consults.asks wellFormed agree found enough

theorem reaches_of_consults (wellFormed : chart.forest.WellFormed)
    (consults : chart.LandingConsults memory landing id) :
    chart.LandingReaches memory landing id := by
  have asks := asks_of_consults wellFormed consults fun _ _ => rfl
  unfold LandingReaches
  generalize chart.land memory landing = plan at asks ⊢
  obtain ⟨found, _, _, reached⟩ := asks
  refine reached.imp_right fun member => ⟨_, found, ?_⟩
  exact List.mem_append_left _ (List.mem_map_of_mem member)

/-- Where the memory is asked for a state, it decides which child of it is entered. -/
theorem enters_of_consults (wellFormed : chart.forest.WellFormed)
    (consults : chart.LandingConsults memory landing id) {child : Node δ γ}
    (childFound : chart.forest.node? child.id = some child) (parent : child.parent = some id) :
    .enter child ∈ (chart.land (memory.record id child.id) landing).calls := by
  have agree (composite : StateId) (differ : composite ≠ id) :
      (memory.record id child.id).child? composite = memory.child? composite := by
    rw [Memory.child?_record, if_neg differ.symm]
  have asks := asks_of_consults wellFormed consults agree
  have recorded : (memory.record id child.id).child? id = some child.id := by
    rw [Memory.child?_record, if_pos rfl]
  generalize chart.land (memory.record id child.id) landing = plan at asks ⊢
  obtain ⟨found, goesOn, keeps, _⟩ := asks
  obtain rfl := Forest.id_of_node? found
  have nextEq := nextChild?_of_some wellFormed _ keeps childFound parent found recorded
  rw [descend_of_next goesOn nextEq childFound, Plan.calls_after, Plan.calls_after]
  exact List.mem_append_right _ (List.mem_append_left _ List.mem_cons_self)

/-- What is remembered once the states from one up to another around it were left. -/
def leftUpTo (chart : Chart δ γ) (exits : List (Node δ γ)) : Memory :=
  (exits.map .exit).foldl chart.rememberCall {}

theorem fits_leftUpTo {exits : List (Node δ γ)}
    (found : ∀ node ∈ exits, chart.forest.node? node.id = some node) :
    (chart.leftUpTo exits).Fits chart.forest := by
  have held : ∀ call ∈ (exits.map .exit : List (PlannedCall δ γ)), chart.forest.Holds call := by
    intro call member
    obtain ⟨node, listed, rfl⟩ := List.mem_map.mp member
    exact found node listed
  intro composite child remembered
  rw [leftUpTo, foldl_rememberCall_of_held held, child?_of_exits] at remembered
  split at remembered
  · exact Forest.parts_of_lastPart? remembered
  · contradiction

theorem consults_of_retraces (wellFormed : chart.forest.WellFormed) {down : List (Node δ γ)}
    {composite : Node δ γ} (found : chart.forest.node? composite.id = some composite)
    (idFound : chart.forest.node? id = some node) (notLeaf : node.isLeaf = false)
    (lineageEq : chart.forest.lineage id = down.reverse ++ chart.forest.lineage composite.id)
    (notFinal : ∀ node ∈ composite :: down, node.isFinal = false)
    (retraces : Retraces memory down) : chart.Consults memory .deep composite id := by
  induction down generalizing composite with
  | nil =>
      rw [List.reverse_nil, List.nil_append, wellFormed.lineage_eq_cons idFound,
        wellFormed.lineage_eq_cons found] at lineageEq
      obtain ⟨rfl, _⟩ := List.cons.inj lineageEq
      obtain rfl := Forest.id_of_node? idFound
      refine .here ?_ (by simp)
      rw [notFinal node List.mem_cons_self, notLeaf]
      rfl
  | cons child down ih =>
      obtain ⟨childFound, parent, _, lineageEq⟩ := first_on_way_down wellFormed found lineageEq
      have goesOn : (composite.isFinal || composite.isLeaf) = false := by
        rw [notFinal composite List.mem_cons_self,
          not_leaf_of_child wellFormed childFound parent found]
        rfl
      obtain ⟨above, parent', remembered⟩ := retraces child List.mem_cons_self
      cases parent.symm.trans parent'
      have next :=
        nextChild?_of_some wellFormed .deep (by simp) childFound parent found remembered
      exact .deeper goesOn next childFound (ih childFound lineageEq
        (fun node member => notFinal node (List.mem_cons_of_mem composite member))
        fun node member => retraces node (List.mem_cons_of_mem child member))

theorem retraces_leftUpTo (wellFormed : chart.forest.WellFormed) {exits : List (Node δ γ)}
    {outer : Node δ γ} (found : chart.forest.node? outer.id = some outer)
    (deep : outer.history = .deep)
    (lineageEq : chart.forest.lineage id = exits ++ chart.forest.lineage outer.id)
    (notFinal : ∀ node ∈ exits, node.isFinal = false) :
    Retraces (chart.leftUpTo exits) exits.reverse := by
  intro node member
  rw [List.mem_reverse] at member
  have up := wellFormed.ascends_lineage id
  rw [lineageEq] at up
  obtain ⟨before, after, rfl⟩ := List.append_of_mem member
  have rest := up
  rw [List.append_assoc, List.cons_append] at rest
  -- The parent is the next state on the way, which is the outer one or lies below it.
  have exists_next : ∃ next above, after ++ chart.forest.lineage outer.id = next :: above := by
    rw [wellFormed.lineage_eq_cons found]
    exact List.exists_cons_of_ne_nil (List.append_ne_nil_of_right_ne_nil _ (List.cons_ne_nil _ _))
  obtain ⟨next, above, split⟩ := exists_next
  rw [split] at rest
  have parent : node.parent = some next.id := rest.of_append.parent_eq
  have around : outer.id ∈ chart.forest.ancestors next.id := by
    rw [Forest.ancestors, rest.of_append.tail.lineage_eq, ← split, List.map_append]
    exact List.mem_append_right _
      (wellFormed.mem_ancestors_self (Forest.contains_of_node? found))
  have tracked := tracksHistory_of_deep wellFormed found deep around
  exact ⟨next.id, parent, child?_foldl_exits up member (notFinal node member) parent tracked⟩

theorem exists_memory_of_deep (wellFormed : chart.forest.WellFormed) {outer : Node δ γ}
    (found : chart.forest.node? id = some node) (notLeaf : node.isLeaf = false)
    (notFinal : ∀ outer ∈ chart.forest.lineage id, outer.isFinal = false)
    (outerFound : chart.forest.node? outer.id = some outer) (deep : outer.history = .deep)
    (around : outer.id ∈ chart.forest.ancestors id) :
    ∃ memory : Memory, memory.Fits chart.forest ∧ chart.LandingConsults memory outer.id id := by
  obtain ⟨outer', listed, same⟩ := List.mem_map.mp around
  obtain ⟨exits, lineageEq⟩ := wellFormed.lineage_eq_append listed
  rw [same] at lineageEq
  have onWay {node : Node δ γ} (member : node ∈ exits) : node ∈ chart.forest.lineage id :=
    lineageEq ▸ List.mem_append_left _ member
  have outerOnWay : outer ∈ chart.forest.lineage id := by
    rw [lineageEq, wellFormed.lineage_eq_cons outerFound]
    exact List.mem_append_right _ List.mem_cons_self
  have fits : (chart.leftUpTo exits).Fits chart.forest :=
    fits_leftUpTo fun node member => (wellFormed.ascends_lineage id).found_of_mem (onWay member)
  have retraces := retraces_leftUpTo wellFormed outerFound deep lineageEq
    fun node member => notFinal node (onWay member)
  refine ⟨chart.leftUpTo exits, fits, outer, outerFound, ?_⟩
  rw [deep]
  refine consults_of_retraces wellFormed outerFound found notLeaf ?_ ?_ retraces
  · rw [List.reverse_reverse, lineageEq]
  · intro node member
    rcases List.mem_cons.mp member with rfl | below
    · exact notFinal node outerOnWay
    · exact notFinal node (onWay (List.mem_reverse.mp below))

theorem exists_consulted (wellFormed : chart.forest.WellFormed)
    (found : chart.forest.node? id = some node) (notLeaf : node.isLeaf = false)
    (notFinal : ∀ outer ∈ chart.forest.lineage id, outer.isFinal = false)
    (tracked : chart.forest.tracksHistory id = true) :
    ∃ landing ∈ chart.forest.ancestors id, ∃ memory : Memory, memory.Fits chart.forest ∧
      chart.LandingConsults memory landing id := by
  rcases (tracksHistory_iff wellFormed).mp tracked with
    ⟨own, ownFound, keeps⟩ | ⟨_, outer, around, _, outerFound, deep⟩
  · cases found.symm.trans ownFound
    have member := wellFormed.mem_ancestors_self (Forest.contains_of_node? found)
    obtain rfl := Forest.id_of_node? found
    have listed : node ∈ chart.forest.lineage node.id := by
      rw [wellFormed.lineage_eq_cons found]
      exact List.mem_cons_self
    have goesOn : (node.isFinal || node.isLeaf) = false := by
      rw [notFinal node listed, notLeaf]
      rfl
    have fits : Memory.Fits {} chart.forest := by
      intro composite child remembered
      contradiction
    exact ⟨node.id, member, {}, fits, node, found, .here goesOn keeps⟩
  · obtain rfl := Forest.id_of_node? outerFound
    exact ⟨outer.id, around,
      exists_memory_of_deep wellFormed found notLeaf notFinal outerFound deep around⟩

theorem tracksHistory_iff_recorded {child : Node δ γ} (parent : child.parent = some id)
    (notFinal : child.isFinal = false) :
    chart.forest.tracksHistory id = true ↔ ∀ memory : Memory,
      (chart.rememberCall memory (.exit child)).child? id = some child.id := by
  constructor
  · exact fun tracked memory => child?_rememberCall_exit notFinal parent tracked
  · intro recorded
    by_contra untracked
    have nothing := recorded {}
    rw [rememberCall, if_neg (by simp [notFinal]), remember, parent] at nothing
    simp only [if_neg untracked] at nothing
    contradiction

/--
A composite that is not final, nor below a final state, may be asked for by a landing, on itself or
on a state around it, exactly if the exit of its children is remembered.  Where a landing asks for
it, the answer decides which child is entered, and elsewhere it makes no difference.
-/
theorem tracksHistory_iff_consulted (wellFormed : chart.forest.WellFormed)
    (found : chart.forest.node? id = some node) (notLeaf : node.isLeaf = false)
    (notFinal : ∀ outer ∈ chart.forest.lineage id, outer.isFinal = false) :
    (chart.forest.tracksHistory id = true ↔
      ∃ landing ∈ chart.forest.ancestors id, ∃ memory : Memory, memory.Fits chart.forest ∧
        chart.LandingReaches memory landing id ∧ chart.LandingConsults memory landing id) ∧
    (∀ child, chart.forest.node? child.id = some child → child.parent = some id →
      child.isFinal = false → (chart.forest.tracksHistory id = true ↔ ∀ memory : Memory,
        (chart.rememberCall memory (.exit child)).child? id = some child.id)) ∧
    (∀ memory landing, chart.LandingConsults memory landing id →
      ∀ child, chart.forest.node? child.id = some child → child.parent = some id →
        .enter child ∈ (chart.land (memory.record id child.id) landing).calls) ∧
    ∀ memory landing child, ¬ chart.LandingConsults memory landing id →
      chart.land (memory.record id child) landing = chart.land memory landing := by
  refine ⟨⟨fun tracked => ?_, ?_⟩, fun child _ => tracksHistory_iff_recorded,
    fun memory landing consults child => enters_of_consults wellFormed consults,
    fun memory landing child => land_record_of_unasked child⟩
  · obtain ⟨landing, around, memory, fits, consults⟩ :=
      exists_consulted wellFormed found notLeaf notFinal tracked
    exact ⟨landing, around, memory, fits, reaches_of_consults wellFormed consults, consults⟩
  · rintro ⟨landing, _, memory, _, _, outer, outerFound, consults⟩
    obtain rfl := Forest.id_of_node? outerFound
    exact consults.tracked wellFormed outerFound

/-- `B` lies below deep history, and `T` below shallow history. -/
def modes : Chart Unit Unit where
  forest := Forest.after {} [.insert ⟨"A"⟩, .insert ⟨"B"⟩, .insert ⟨"C"⟩, .attach ⟨"A"⟩ ⟨"B"⟩,
    .attach ⟨"B"⟩ ⟨"C"⟩, .change ⟨"A"⟩ (.setHistory .deep), .insert ⟨"S"⟩, .insert ⟨"T"⟩,
    .insert ⟨"U"⟩, .attach ⟨"S"⟩ ⟨"T"⟩, .attach ⟨"T"⟩ ⟨"U"⟩,
    .change ⟨"S"⟩ (.setHistory .shallow), .freeze]
  table := {}
  initial := none

theorem tracksHistory_iff_consulted_modes :
    (∃ landing ∈ modes.forest.ancestors ⟨"B"⟩, ∃ memory : Memory, memory.Fits modes.forest ∧
      modes.LandingReaches memory landing ⟨"B"⟩ ∧ modes.LandingConsults memory landing ⟨"B"⟩) ∧
    ¬ ∃ landing ∈ modes.forest.ancestors ⟨"T"⟩, ∃ memory : Memory, memory.Fits modes.forest ∧
      modes.LandingReaches memory landing ⟨"T"⟩ ∧ modes.LandingConsults memory landing ⟨"T"⟩ := by
  have wellFormed : modes.forest.WellFormed :=
    (Forest.Buildable.intact (Forest.Reachable.after .empty _).buildable rfl).wellFormed
  have noneFinal : modes.forest.nodes.all (fun node => !node.isFinal) = true := by cbv
  have notFinal (id : StateId) : ∀ outer ∈ modes.forest.lineage id, outer.isFinal = false := by
    intro outer member
    have found := (wellFormed.ascends_lineage id).found_of_mem member
    simpa using List.all_eq_true.mp noneFinal outer (Forest.mem_of_node? found)
  obtain ⟨asked, _⟩ := tracksHistory_iff_consulted wellFormed
    (show modes.forest.node? ⟨"B"⟩ = some _ from rfl) rfl (notFinal _)
  obtain ⟨unasked, _⟩ := tracksHistory_iff_consulted wellFormed
    (show modes.forest.node? ⟨"T"⟩ = some _ from rfl) rfl (notFinal _)
  have tracked : modes.forest.tracksHistory ⟨"B"⟩ = true := by cbv
  have untracked : modes.forest.tracksHistory ⟨"T"⟩ = false := by cbv
  exact ⟨asked.mp tracked, fun exists_ => by simp [unasked.mpr exists_] at untracked⟩

end Chart

end Statechart
