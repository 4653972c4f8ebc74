import Statechart.Proofs.Json.Reading
import Statechart.Proofs.Layer.Spelling

namespace Statechart

open Json

variable {δ γ : Type} {value : Value} {fields : List (String × Value)} {name : String}

theorem History.ofJson?_name (history : History) :
    History.ofJson? (.ofString history.name) = some history := by
  cases history <;> rfl

theorem Composition.ofJson?_name (composition : Composition) :
    Composition.ofJson? (.ofString composition.name) = some composition := by
  cases composition <;> rfl

theorem TransitionKind.ofJson?_name (kind : TransitionKind) :
    TransitionKind.ofJson? (.ofString kind.name) = some kind := by
  cases kind <;> rfl

namespace ActionRef

theorem isSound_of_fields {name : String} {weight : Weight}
    (record : Fields ["name", "weight"] fields)
    (called : fields.lookup "name" = some (.ofString name))
    (weighted : fields.lookup "weight" = some (.ofInt weight.toInt) ∨
      fields.lookup "weight" = none) : (Value.ofMembers fields).isSound = true := by
  refine isSound_ofMembers fun (key, value) member => ?_
  have found := lookup_of_mem record.once member
  have known := record.known _ member
  simp only [List.mem_cons, List.not_mem_nil, or_false] at known
  rcases known with rfl | rfl
  · obtain rfl := Option.some.inj (found.symm.trans called)
    rfl
  · rcases weighted with given | omitted
    · obtain rfl := Option.some.inj (found.symm.trans given)
      exact isFinite_ofInt weight
    · rw [found] at omitted
      contradiction

theorem ofJson?_of_spelled {ref : ActionRef δ γ} (spelled : ref.Spelled value) :
    ofJson? value = some ref := by
  cases spelled with
  | written text => rfl
  | @named name weight fields record called weighted =>
      have sound := isSound_of_fields record called (weighted.imp_right And.left)
      have weightRead : withDefault? Value.word? Weight.normal "weight" fields = some weight := by
        rcases weighted with given | ⟨omitted, rfl⟩
        · rw [withDefault?, given]
          exact word?_ofInt weight
        · rw [withDefault?, omitted]
      have object : ofJson? (δ := δ) (γ := γ) (.ofMembers fields) =
          if (Value.ofMembers fields).isSound then do
            let fields ← fields? .skipped ["name", "weight"] (.ofMembers fields)
            let name ← required? Value.string? "name" fields
            let weight ← withDefault? Value.word? Weight.normal "weight" fields
            return named name weight
          else none := rfl
      rw [object, if_pos sound, fields?_ofMembers .skipped record]
      simp [required?_eq Value.string? called rfl, weightRead]

theorem listOfJson?_of_spelled {refs : List (ActionRef δ γ)} (spelled : ListSpelled refs value) :
    listOfJson? value = some refs := by
  cases spelled with
  | single spelled =>
      have read := ofJson?_of_spelled spelled
      cases spelled <;> simp_all [listOfJson?, Value.ofMembers, Value.ofString]
  | list spelled =>
      exact mapM_of_forall₂ (spelled.flip.imp fun _ _ => ofJson?_of_spelled)

end ActionRef

theorem StateDecl.traitsOfFields?_of_spelled {traits : Traits δ γ}
    (spelled : traits.Spelled fields) : StateDecl.traitsOfFields? fields = some traits := by
  rw [traitsOfFields?, omissible?_eq spelled.entry fun _ _ => ActionRef.listOfJson?_of_spelled,
    omissible?_eq spelled.exit fun _ _ => ActionRef.listOfJson?_of_spelled,
    optional?_eq Value.bool? (fun _ => rfl) rfl spelled.isFinal,
    optional?_eq Value.bool? (fun _ => rfl) rfl spelled.isInitial,
    optional?_eq History.ofJson? History.ofJson?_name rfl spelled.history,
    optional?_eq Composition.ofJson? Composition.ofJson?_name rfl spelled.composition]
  rfl

namespace StateDecl

def ofMember? (levels : Nat) : Option String × Value → Option (StateDecl δ γ)
  | (key, value) => do
    let name ← key
    let fields ← fields? .refused fieldNames value
    let traits ← traitsOfFields? fields
    let children ← withDefault? (listOfJson? levels) [] "children" fields
    return mk ⟨name⟩ traits children

theorem listOfJson?_object (levels : Nat) (members : List (Option String × Value)) :
    listOfJson? (δ := δ) (γ := γ) (levels + 1) (.object members) =
      members.mapM (ofMember? levels) :=
  rfl

theorem withDefault?_of_fieldSpelled (levels : Nat) {children : List (StateDecl δ γ)}
    (spelled : FieldSpelled children (fields.lookup name))
    (reads : ∀ members, fields.lookup name = some (.ofMembers members) →
      MembersSpelled children members → listOfJson? levels (.ofMembers members) = some children) :
    withDefault? (listOfJson? levels) [] name fields = some children := by
  unfold withDefault?
  cases found : fields.lookup name with
  | none => rw [found] at spelled; cases spelled; rfl
  | some value =>
      rw [found] at spelled
      cases spelled with
      | given spelled => exact reads _ found spelled

theorem ofMember?_of_spelled {levels : Nat} {state : StateDecl δ γ} (spelled : state.Spelled value)
    (shallow : value.depth ≤ levels)
    (reads : ∀ (children : List (StateDecl δ γ)) members, MembersSpelled children members →
      (Value.ofMembers members).depth ≤ levels →
      listOfJson? levels (.ofMembers members) = some children) :
    ofMember? levels (some state.id.text, value) = some state := by
  cases spelled with
  | @mk id traits children fields record said nested =>
      have childrenRead := withDefault?_of_fieldSpelled levels nested fun members found spelled =>
        reads children members spelled
          (Nat.le_trans (Nat.le_of_lt (depth_lt_of_lookup found)) shallow)
      rw [ofMember?, fields?_ofMembers .refused record]
      simp [traitsOfFields?_of_spelled said, childrenRead, StateDecl.id]

theorem listOfJson?_of_spelled {levels : Nat} {states : List (StateDecl δ γ)}
    {members : List (String × Value)} (spelled : MembersSpelled states members)
    (shallow : (Value.ofMembers members).depth ≤ levels) :
    listOfJson? levels (.ofMembers members) = some states := by
  induction levels generalizing states members with
  | zero => exact absurd shallow (Nat.not_succ_le_zero _)
  | succ levels ih =>
      rw [Value.ofMembers, listOfJson?_object]
      refine mapM_of_forall₂ ?_
      replace shallow : ∀ member ∈ members, member.2.depth ≤ levels := by
        intro member listed
        have inside : member.2.depth < (Value.ofMembers members).depth :=
          depth_lt_of_mem (List.mem_map.mpr ⟨member, listed, rfl⟩)
        exact Nat.le_of_lt_succ (Nat.lt_of_lt_of_le inside shallow)
      -- Among the members of one object, the states follow one another.
      induction members generalizing states with
      | nil => cases spelled; exact .nil
      | cons member members next =>
          cases spelled with
          | cons first rest =>
              have own := shallow _ (List.mem_cons_self ..)
              have others := fun other listed => shallow other (List.mem_cons_of_mem _ listed)
              exact .cons (ofMember?_of_spelled first own fun _ _ => ih) (next rest others)

end StateDecl

namespace TransitionDecl

theorem ofJson?_of_spelled {declared : TransitionDecl δ γ} (spelled : declared.Spelled value) :
    ofJson? value = some declared := by
  cases spelled with
  | @mk fields guard record source target event guarded named priority actions kind =>
      obtain ⟨_, _, _, _, _, _, _⟩ := declared
      obtain rfl := guarded
      have sourceRead := required?_eq StateId.ofJson? source rfl
      have eventRead := required?_eq EventId.ofJson? event rfl
      have targetRead := optional?_eq StateId.ofJson? (fun _ => rfl) rfl target
      have guardRead := optional?_eq Value.string? (fun _ => rfl) rfl named
      have priorityRead := optional?_eq Value.word? word?_ofInt rfl priority
      have kindRead := optional?_eq TransitionKind.ofJson? TransitionKind.ofJson?_name rfl kind
      have actionsRead := omissible?_eq actions fun _ _ => ActionRef.listOfJson?_of_spelled
      simp [ofJson?, fields?_ofMembers .refused record, sourceRead, eventRead, targetRead,
        guardRead, priorityRead, kindRead, actionsRead]

theorem withDefault?_of_fieldSpelled {transitions : List (TransitionDecl δ γ)}
    (spelled : FieldSpelled transitions (fields.lookup name)) :
    withDefault? listOfJson? [] name fields = some transitions := by
  unfold withDefault?
  cases found : fields.lookup name with
  | none => rw [found] at spelled; cases spelled; rfl
  | some value =>
      rw [found] at spelled
      cases spelled with
      | given spelled => exact mapM_of_forall₂ (spelled.flip.imp fun _ _ => ofJson?_of_spelled)

end TransitionDecl

namespace Layer

theorem ofJson?_of_spelled {layer : Layer δ γ} (spelled : layer.Spelled value)
    (shallow : value.depth ≤ nestingLimit) : ofJson? value = some layer := by
  cases spelled with
  | @mk fields record initial states transitions =>
      have initialRead := optional?_eq StateId.ofJson? (fun _ => rfl) rfl initial
      have statesRead := StateDecl.withDefault?_of_fieldSpelled nestingLimit states
        fun members found spelled => StateDecl.listOfJson?_of_spelled spelled
          (Nat.le_trans (Nat.le_of_lt (depth_lt_of_lookup found)) shallow)
      have transitionsRead := TransitionDecl.withDefault?_of_fieldSpelled transitions
      rw [ofJson?, if_neg (Nat.not_lt.mpr shallow)]
      simp [fields?_ofMembers .refused record, initialRead, statesRead, transitionsRead]

end Layer

/-- A state with a field out of place, in itself or in a state nested in it. -/
inductive StateDecl.Flawed : Value → Prop where
  | misfit {members : List (Option String × Value)} (misfit : Misfit fieldNames members) :
      Flawed (.object members)
  | child {value state : Value} {children : List (Option String × Value)} {key : Option String}
      (given : Gives fieldNames value "children" (.object children))
      (listed : (key, state) ∈ children) (flawed : Flawed state) : Flawed value

/-- A transition with a field out of place, or without source or event. -/
inductive TransitionDecl.Flawed : Value → Prop where
  | misfit {members : List (Option String × Value)} (misfit : Misfit fieldNames members) :
      Flawed (.object members)
  | lacking {value : Value} {name : String} (needed : name ∈ ["from", "on"])
      (absent : ∀ content, ¬Gives fieldNames value name content) : Flawed value

/-- A layer with a field out of place, in itself or in one of its states or transitions. -/
inductive Layer.Flawed : Value → Prop where
  | misfit {members : List (Option String × Value)} (misfit : Misfit fieldNames members) :
      Flawed (.object members)
  | state {value state : Value} {states : List (Option String × Value)} {key : Option String}
      (given : Gives fieldNames value "states" (.object states)) (listed : (key, state) ∈ states)
      (flawed : StateDecl.Flawed state) : Flawed value
  | transition {value item : Value} {items : List Value}
      (given : Gives fieldNames value "transitions" (.array items)) (listed : item ∈ items)
      (flawed : TransitionDecl.Flawed item) : Flawed value

theorem StateDecl.ofMember?_of_flawed {levels : Nat} {key : Option String} {state : Value}
    (flawed : Flawed state) : ofMember? (δ := δ) (γ := γ) levels (key, state) = none := by
  induction flawed generalizing levels key with
  | misfit misfit =>
      cases key <;> simp [ofMember?, fields?_eq_none_of_misfit misfit]
  | @child value inner children _ given listed _ ih =>
      have refused : listOfJson? (δ := δ) (γ := γ) levels (.object children) = none := by
        cases levels with
        | zero => rfl
        | succ levels => rw [listOfJson?_object, mapM_eq_none_of_mem listed ih]
      cases read : fields? .refused fieldNames value with
      | none => cases key <;> simp [ofMember?, read]
      | some fields =>
          have found := lookup_of_gives (by decide) read (by decide) given
          cases key <;> simp [ofMember?, read, withDefault?, found, refused]

theorem StateDecl.listOfJson?_of_flawed {levels : Nat} {states : List (Option String × Value)}
    {key : Option String} {state : Value} (listed : (key, state) ∈ states)
    (flawed : Flawed state) : listOfJson? (δ := δ) (γ := γ) levels (.object states) = none := by
  cases levels with
  | zero => rfl
  | succ levels =>
      rw [listOfJson?_object, mapM_eq_none_of_mem listed (ofMember?_of_flawed flawed)]

theorem TransitionDecl.ofJson?_of_flawed (flawed : Flawed value) :
    ofJson? (δ := δ) (γ := γ) value = none := by
  cases flawed with
  | misfit misfit => simp [ofJson?, fields?_eq_none_of_misfit misfit]
  | lacking needed absent =>
      cases read : fields? .refused fieldNames value with
      | none => simp [ofJson?, read]
      | some fields =>
          have missing := lookup_eq_none_of_not_gives read absent
          simp only [List.mem_cons, List.not_mem_nil, or_false] at needed
          rcases needed with rfl | rfl <;> simp [ofJson?, read, required?, missing]

theorem TransitionDecl.listOfJson?_of_flawed {items : List Value} (listed : value ∈ items)
    (flawed : Flawed value) : listOfJson? (δ := δ) (γ := γ) (.array items) = none :=
  mapM_eq_none_of_mem listed (ofJson?_of_flawed flawed)

theorem Layer.ofJson?_of_flawed (flawed : Flawed value) :
    ofJson? (δ := δ) (γ := γ) value = none := by
  unfold ofJson?
  split
  · rfl
  cases read : fields? .refused fieldNames value with
  | none => rfl
  | some fields =>
      cases flawed with
      | misfit misfit => rw [fields?_eq_none_of_misfit misfit] at read; contradiction
      | state given listed flawed =>
          have found := lookup_of_gives (by decide) read (by decide) given
          simp [withDefault?, found, StateDecl.listOfJson?_of_flawed listed flawed]
      | transition given listed flawed =>
          have found := lookup_of_gives (by decide) read (by decide) given
          simp [withDefault?, found, TransitionDecl.listOfJson?_of_flawed listed flawed]

namespace Layer

/--
A text that spells a layer, nested no deeper than allowed, is read as that layer; a text with a
field out of place, or with a transition without source or event, is refused.  Every layer that
refers to actions and guards by name is spelled by some text.
-/
theorem parse_reads_spellings (δ γ : Type) :
    (∀ (layer : Layer δ γ) (value : Value) (text : String), layer.Spelled value →
      Holds text value → value.depth ≤ nestingLimit → parse text = .ok layer) ∧
    (∀ (value : Value) (text : String), Flawed value → Holds text value →
      (parse text : Except BuildError (Layer δ γ)) = .error (.configuration .unreadableLayer)) ∧
    ∀ layer : Layer δ γ, layer.Named → ∃ value text, layer.Spelled value ∧ Holds text value := by
  refine ⟨?_, ?_, ?_⟩
  · intro layer value text spelled holds shallow
    rw [parse, read?_of_holds holds, Option.bind_some, ofJson?_of_spelled spelled shallow]
  · intro value text flawed holds
    rw [parse, read?_of_holds holds, Option.bind_some, ofJson?_of_flawed flawed]
  · intro layer named
    obtain ⟨value, spelled, proper⟩ := exists_spelled named
    exact ⟨value, value.render, spelled, holds_render proper⟩

theorem parse_reads_spellings_nested :
    let layer : Layer Unit Unit :=
      { states := [.mk ⟨"A"⟩ { entry := some [.written "log:3"], history := some .deep }
          [.mk ⟨"B"⟩ {} [], .mk ⟨"B"⟩ { isInitial := some true } []]]
        transitions := [{ source := ⟨"A"⟩, event := ⟨"go"⟩, priority := some Int32.minValue,
                          actions := some [.named "log" .normal] }] }
    let value : Value := .ofMembers
      [("transitions", .array [.ofMembers
          [("on", .ofString "go"), ("perform", .ofMembers [("name", .ofString "log")]),
            ("when", .null), ("from", .ofString "A"),
            ("priority", .ofInt Int32.minValue.toInt)]]),
        ("states", .ofMembers [("A", .ofMembers
          [("history", .ofString "deep"), ("onEntry", .ofString "log:3"),
            ("children", .ofMembers
              [("B", .ofMembers []), ("B", .ofMembers [("initial", .bool true)])])])])]
    let lacking : Value := .ofMembers
      [("transitions", .array [.ofMembers [("from", .ofString "A")]])]
    (layer.Spelled value ∧ Holds value.render value ∧ value.depth ≤ nestingLimit ∧
      parse value.render = .ok layer) ∧
    (Flawed lacking ∧ Holds lacking.render lacking ∧
      (parse lacking.render : Except BuildError (Layer Unit Unit)) =
        .error (.configuration .unreadableLayer)) := by
  intro layer value lacking
  have first : StateDecl.Spelled (δ := Unit) (γ := Unit) (.mk ⟨"B"⟩ {} []) (.ofMembers []) :=
    .mk ⟨nofun, .nil⟩ ⟨.omitted, .omitted, .omitted, .omitted, .omitted, .omitted⟩ .omitted
  have second : StateDecl.Spelled (δ := Unit) (γ := Unit)
      (.mk ⟨"B"⟩ { isInitial := some true } []) (.ofMembers [("initial", .bool true)]) :=
    .mk ⟨by simp [StateDecl.fieldNames], by simp⟩
      ⟨.omitted, .omitted, .omitted, .given true, .omitted, .omitted⟩ .omitted
  have state : StateDecl.Spelled (δ := Unit) (γ := Unit)
      (.mk ⟨"A"⟩ { entry := some [.written "log:3"], history := some .deep }
        [.mk ⟨"B"⟩ {} [], .mk ⟨"B"⟩ { isInitial := some true } []])
      (.ofMembers [("history", .ofString "deep"), ("onEntry", .ofString "log:3"),
        ("children", .ofMembers
          [("B", .ofMembers []), ("B", .ofMembers [("initial", .bool true)])])]) :=
    .mk ⟨by simp [StateDecl.fieldNames], by simp⟩
      ⟨.given (.single (.written "log:3")), .omitted, .omitted, .omitted, .given History.deep,
        .omitted⟩
      (.given (.cons first (.cons second .nil)))
  have unguarded : (none : Option (GuardRef Unit)) = (none : Option String).map .named := rfl
  have transition : TransitionDecl.Spelled (δ := Unit) (γ := Unit)
      { source := ⟨"A"⟩, event := ⟨"go"⟩, priority := some Int32.minValue,
        actions := some [.named "log" .normal] } (.ofMembers
          [("on", .ofString "go"), ("perform", .ofMembers [("name", .ofString "log")]),
            ("when", .null), ("from", .ofString "A"),
            ("priority", .ofInt Int32.minValue.toInt)]) :=
    .mk ⟨by simp [TransitionDecl.fieldNames], by simp⟩ rfl .omitted rfl unguarded .null
      (.given Int32.minValue) (.given (.single (.named ⟨by simp, by simp⟩ rfl (Or.inr ⟨rfl, rfl⟩))))
      .omitted
  have spelled : layer.Spelled value :=
    .mk ⟨by simp [fieldNames], by simp⟩ .omitted (.given (.cons state .nil))
      (.given (.cons transition .nil))
  have eventless (content : Value) : ¬Gives TransitionDecl.fieldNames
      (.ofMembers [("from", .ofString "A")]) "on" content := by
    rintro ⟨listed⟩
    simp at listed
  have flawed : Flawed lacking :=
    .transition (.member (List.mem_singleton_self _)) (List.mem_singleton_self _)
      (.lacking (by simp) eventless)
  have holds : Holds value.render value := holds_render (by simp [value])
  have holdsLacking : Holds lacking.render lacking := holds_render (by simp [lacking])
  have shallow : value.depth ≤ nestingLimit := by decide
  exact ⟨⟨spelled, holds, shallow,
      (parse_reads_spellings Unit Unit).1 layer value _ spelled holds shallow⟩,
    flawed, holdsLacking,
    (parse_reads_spellings Unit Unit).2.1 lacking _ flawed holdsLacking⟩

end Layer

end Statechart
