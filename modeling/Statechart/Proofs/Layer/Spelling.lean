import Statechart.Layer.Reader
import Statechart.Proofs.Json.Integer
import Statechart.Proofs.Json.Records

namespace Statechart

open Json

variable {δ γ : Type}

inductive ActionRef.Spelled : ActionRef δ γ → Value → Prop where
  | written (text : String) : Spelled (.written text) (.ofString text)
  | named {name : String} {weight : Weight} {fields : List (String × Value)}
      (record : Fields ["name", "weight"] fields)
      (called : fields.lookup "name" = some (.ofString name))
      (weighted : fields.lookup "weight" = some (.ofInt weight.toInt) ∨
        fields.lookup "weight" = none ∧ weight = .normal) :
      Spelled (.named name weight) (.ofMembers fields)

/-- Actions in a list; a single one also without the list. -/
inductive ActionRef.ListSpelled : List (ActionRef δ γ) → Value → Prop where
  | single {ref : ActionRef δ γ} {value : Value} (spelled : ref.Spelled value) :
      ListSpelled [ref] value
  | list {refs : List (ActionRef δ γ)} {values : List Value}
      (spelled : List.Forall₂ ActionRef.Spelled refs values) : ListSpelled refs (.array values)

structure Traits.Spelled (traits : Traits δ γ) (fields : List (String × Value)) : Prop where
  entry : Omissible ActionRef.ListSpelled traits.entry (fields.lookup "onEntry")
  exit : Omissible ActionRef.ListSpelled traits.exit (fields.lookup "onExit")
  isFinal : Nullable .bool traits.isFinal (fields.lookup "final")
  isInitial : Nullable .bool traits.isInitial (fields.lookup "initial")
  history : Nullable (fun history => .ofString history.name) traits.history
    (fields.lookup "history")
  composition : Nullable (fun composition => .ofString composition.name) traits.composition
    (fields.lookup "composition")

mutual

inductive StateDecl.Spelled : StateDecl δ γ → Value → Prop where
  | mk {id : StateId} {traits : Traits δ γ} {children : List (StateDecl δ γ)}
      {fields : List (String × Value)} (record : Fields StateDecl.fieldNames fields)
      (said : traits.Spelled fields)
      (nested : StateDecl.FieldSpelled children (fields.lookup "children")) :
      StateDecl.Spelled (.mk id traits children) (.ofMembers fields)

/-- States as members of an object; the field is left out only if there are none. -/
inductive StateDecl.FieldSpelled : List (StateDecl δ γ) → Option Value → Prop where
  | omitted : StateDecl.FieldSpelled [] none
  | given {states : List (StateDecl δ γ)} {members : List (String × Value)}
      (spelled : StateDecl.MembersSpelled states members) :
      StateDecl.FieldSpelled states (some (.ofMembers members))

inductive StateDecl.MembersSpelled : List (StateDecl δ γ) → List (String × Value) → Prop where
  | nil : StateDecl.MembersSpelled [] []
  | cons {state : StateDecl δ γ} {states : List (StateDecl δ γ)} {value : Value}
      {members : List (String × Value)} (first : StateDecl.Spelled state value)
      (rest : StateDecl.MembersSpelled states members) :
      StateDecl.MembersSpelled (state :: states) ((state.id.text, value) :: members)

end

inductive TransitionDecl.Spelled (declared : TransitionDecl δ γ) : Value → Prop where
  | mk {fields : List (String × Value)} {guard : Option String}
      (record : Fields TransitionDecl.fieldNames fields)
      (source : fields.lookup "from" = some (.ofString declared.source.text))
      (target : Nullable (fun id => .ofString id.text) declared.target (fields.lookup "to"))
      (event : fields.lookup "on" = some (.ofString declared.event.text))
      (guarded : declared.guard = guard.map .named)
      (named : Nullable .ofString guard (fields.lookup "when"))
      (priority : Nullable (fun n => .ofInt n.toInt) declared.priority (fields.lookup "priority"))
      (actions : Omissible ActionRef.ListSpelled declared.actions (fields.lookup "perform"))
      (kind : Nullable (fun kind => .ofString kind.name) declared.kind (fields.lookup "type")) :
      Spelled declared (.ofMembers fields)

inductive TransitionDecl.FieldSpelled : List (TransitionDecl δ γ) → Option Value → Prop where
  | omitted : FieldSpelled [] none
  | given {transitions : List (TransitionDecl δ γ)} {values : List Value}
      (spelled : List.Forall₂ TransitionDecl.Spelled transitions values) :
      FieldSpelled transitions (some (.array values))

inductive Layer.Spelled (layer : Layer δ γ) : Value → Prop where
  | mk {fields : List (String × Value)} (record : Fields Layer.fieldNames fields)
      (initial : Nullable (fun id => .ofString id.text) layer.initial (fields.lookup "initial"))
      (states : StateDecl.FieldSpelled layer.states (fields.lookup "states"))
      (transitions : TransitionDecl.FieldSpelled layer.transitions
        (fields.lookup "transitions")) : Spelled layer (.ofMembers fields)

def ActionRef.IsNamed : ActionRef δ γ → Prop
  | .direct _ _ => False
  | _ => True

inductive StateDecl.Named : StateDecl δ γ → Prop where
  | mk {id : StateId} {traits : Traits δ γ} {children : List (StateDecl δ γ)}
      (entry : ∀ refs ∈ traits.entry, ∀ ref ∈ refs, ref.IsNamed)
      (exit : ∀ refs ∈ traits.exit, ∀ ref ∈ refs, ref.IsNamed)
      (nested : ∀ child ∈ children, Named child) : Named (.mk id traits children)

structure TransitionDecl.Named (declared : TransitionDecl δ γ) : Prop where
  guard : ∀ guard ∈ declared.guard, ∃ name, guard = .named name
  actions : ∀ refs ∈ declared.actions, ∀ ref ∈ refs, ref.IsNamed

/-- All actions and guards are given by name. -/
structure Layer.Named (layer : Layer δ γ) : Prop where
  states : ∀ state ∈ layer.states, state.Named
  transitions : ∀ declared ∈ layer.transitions, declared.Named

theorem proper_of_rows {fields : List (String × Value)} {rows : List (String × Option Value)}
    (listed : ∀ field ∈ fields, (field.1, some field.2) ∈ rows)
    (proper : ∀ row ∈ rows, ∀ value ∈ row.2, value.Proper) : (Value.ofMembers fields).Proper :=
  .object fun field member => proper _ (listed field member) field.2 rfl

theorem proper_of_some {value : Value} (proper : value.Proper) :
    ∀ other ∈ some value, other.Proper := by
  rintro _ ⟨⟩
  exact proper

theorem proper_of_map {α : Type} {spell : α → Value} {content : Option α}
    (each : ∀ content, (spell content).Proper) :
    ∀ value ∈ content.map spell, value.Proper := by
  intro value given
  obtain ⟨content, -, rfl⟩ := Option.map_eq_some_iff.mp given
  exact each content

theorem ActionRef.exists_spelled {ref : ActionRef δ γ} (named : ref.IsNamed) :
    ∃ value, ref.Spelled value ∧ value.Proper := by
  cases ref with
  | direct => exact named.elim
  | written text => exact ⟨_, .written text, .text text⟩
  | named name weight =>
      obtain ⟨fields, record, found, listed⟩ := exists_record ["name", "weight"]
        [("name", some (.ofString name)), ("weight", some (.ofInt weight.toInt))]
        rfl (by decide)
      have proper := proper_of_rows listed (by simp)
      simp only [List.forall_mem_cons] at found
      exact ⟨_, .named record found.1 (Or.inl found.2.1), proper⟩

theorem ActionRef.exists_listSpelled {refs : List (ActionRef δ γ)}
    (named : ∀ ref ∈ refs, ref.IsNamed) : ∃ value, ListSpelled refs value ∧ value.Proper := by
  obtain ⟨values, spelled, proper⟩ := exists_forall₂ fun ref member =>
    exists_spelled (named ref member)
  exact ⟨.array values, .list spelled, .array proper⟩

theorem ActionRef.exists_omissible {content : Option (List (ActionRef δ γ))}
    (named : ∀ refs ∈ content, ∀ ref ∈ refs, ref.IsNamed) :
    ∃ given, Omissible ListSpelled content given ∧ ∀ value ∈ given, value.Proper := by
  cases content with
  | none => exact ⟨none, .omitted, nofun⟩
  | some refs =>
      obtain ⟨value, spelled, proper⟩ := exists_listSpelled (named refs rfl)
      exact ⟨some value, .given spelled, by simpa using proper⟩

theorem StateDecl.exists_membersSpelled {states : List (StateDecl δ γ)}
    (each : ∀ state ∈ states, ∃ value, state.Spelled value ∧ value.Proper) :
    ∃ members, MembersSpelled states members ∧ (Value.ofMembers members).Proper := by
  suffices spelled : ∃ members, MembersSpelled states members ∧
      ∀ member ∈ members, member.2.Proper by
    obtain ⟨members, spelled, proper⟩ := spelled
    exact ⟨members, spelled, .object proper⟩
  induction states with
  | nil => exact ⟨[], .nil, nofun⟩
  | cons state states ih =>
      obtain ⟨value, first, own⟩ := each state (List.mem_cons_self ..)
      obtain ⟨members, rest, others⟩ := ih fun other member =>
        each other (List.mem_cons_of_mem state member)
      exact ⟨_, .cons first rest, List.forall_mem_cons.mpr ⟨own, others⟩⟩

theorem StateDecl.exists_spelled {state : StateDecl δ γ} (named : state.Named) :
    ∃ value, state.Spelled value ∧ value.Proper := by
  induction named with
  | @mk id traits children entry exit _ ih =>
      obtain ⟨onEntry, entrySpelled, entryProper⟩ := ActionRef.exists_omissible entry
      obtain ⟨onExit, exitSpelled, exitProper⟩ := ActionRef.exists_omissible exit
      obtain ⟨members, spelled, childrenProper⟩ := exists_membersSpelled ih
      obtain ⟨fields, record, found, listed⟩ := exists_record fieldNames
        [("onEntry", onEntry), ("onExit", onExit), ("final", traits.isFinal.map .bool),
          ("initial", traits.isInitial.map .bool),
          ("history", traits.history.map fun history => .ofString history.name),
          ("composition", traits.composition.map fun composition => .ofString composition.name),
          ("children", some (.ofMembers members))] rfl (by decide)
      have proper := proper_of_rows listed <| by
        simp only [List.forall_mem_cons]
        exact ⟨entryProper, exitProper, proper_of_map .bool, proper_of_map .bool,
          proper_of_map fun _ => proper_ofString _, proper_of_map fun _ => proper_ofString _,
          proper_of_some childrenProper, nofun⟩
      simp only [List.forall_mem_cons] at found
      obtain ⟨entryFound, exitFound, finalFound, initialFound, historyFound, compositionFound,
        childrenFound, -⟩ := found
      refine ⟨_, .mk record ⟨?_, ?_, ?_, ?_, ?_, ?_⟩ ?_, proper⟩
      · rwa [entryFound]
      · rwa [exitFound]
      · rw [finalFound]; exact .of_map _
      · rw [initialFound]; exact .of_map _
      · rw [historyFound]; exact .of_map _
      · rw [compositionFound]; exact .of_map _
      · rw [childrenFound]; exact .given spelled

theorem TransitionDecl.exists_spelled {declared : TransitionDecl δ γ} (named : declared.Named) :
    ∃ value, declared.Spelled value ∧ value.Proper := by
  obtain ⟨guard, guarded⟩ : ∃ guard : Option String, declared.guard = guard.map .named := by
    cases given : declared.guard with
    | none => exact ⟨none, rfl⟩
    | some guard =>
        obtain ⟨name, rfl⟩ := named.guard guard given
        exact ⟨some name, rfl⟩
  obtain ⟨perform, actionsSpelled, actionsProper⟩ := ActionRef.exists_omissible named.actions
  obtain ⟨fields, record, found, listed⟩ := exists_record fieldNames
    [("from", some (.ofString declared.source.text)),
      ("to", declared.target.map fun id => .ofString id.text),
      ("on", some (.ofString declared.event.text)), ("when", guard.map .ofString),
      ("priority", declared.priority.map fun n => .ofInt n.toInt), ("perform", perform),
      ("type", declared.kind.map fun kind => .ofString kind.name)] rfl (by decide)
  have proper := proper_of_rows listed (by simpa using actionsProper)
  simp only [List.forall_mem_cons] at found
  obtain ⟨sourceFound, targetFound, eventFound, guardFound, priorityFound, actionsFound, kindFound,
    -⟩ := found
  refine ⟨_, .mk record sourceFound ?_ eventFound guarded ?_ ?_ ?_ ?_, proper⟩
  · rw [targetFound]; exact .of_map _
  · rw [guardFound]; exact .of_map _
  · rw [priorityFound]; exact .of_map _
  · rwa [actionsFound]
  · rw [kindFound]; exact .of_map _

/-- Every layer that refers to actions and guards by name can be spelled, and written out. -/
theorem Layer.exists_spelled {layer : Layer δ γ} (named : layer.Named) :
    ∃ value, layer.Spelled value ∧ value.Proper := by
  obtain ⟨members, statesSpelled, statesProper⟩ := StateDecl.exists_membersSpelled
    fun state member => StateDecl.exists_spelled (named.states state member)
  obtain ⟨values, transitionsSpelled, transitionsProper⟩ := exists_forall₂
    fun declared member => TransitionDecl.exists_spelled (named.transitions declared member)
  obtain ⟨fields, record, found, listed⟩ := exists_record fieldNames
    [("initial", layer.initial.map fun id => .ofString id.text),
      ("states", some (.ofMembers members)), ("transitions", some (.array values))]
    rfl (by decide)
  have proper := proper_of_rows listed <| by
    simp only [List.forall_mem_cons]
    exact ⟨proper_of_map fun _ => proper_ofString _, proper_of_some statesProper,
      proper_of_some (.array transitionsProper), nofun⟩
  simp only [List.forall_mem_cons] at found
  obtain ⟨initialFound, statesFound, transitionsFound, -⟩ := found
  refine ⟨_, .mk record ?_ ?_ ?_, proper⟩
  · rw [initialFound]; exact .of_map _
  · rw [statesFound]; exact .given statesSpelled
  · rw [transitionsFound]; exact .given transitionsSpelled

end Statechart
