import Mathlib.Data.List.Infix
import Mathlib.Logic.Relation
import Statechart.Chart.Assembly

/-!
How far the name of a hook tells transitions apart.

A full name is made of a source, a target and an event, with the words `To` and `On` between them.
The parts may hold these words as well, so a name can be taken apart in several ways: the separating
word may be any of its occurrences.  Besides, the word `Any` in the place of an end means all
states, and a state may be called so.  Where neither is the case a name belongs to one transition
alone.
-/

namespace Statechart

variable {δ γ : Type}

namespace Text

variable {α : Type}

theorem cons_cons_eq_append {c d c' d' : α} {left right rest : List α} (apart : d ≠ c')
    (same : c :: d :: rest = left ++ c' :: d' :: right) :
    (left = [] ∧ c = c' ∧ d = d' ∧ rest = right) ∨
      ∃ between, left = c :: d :: between ∧ rest = between ++ c' :: d' :: right := by
  cases left with
  | nil =>
      simp only [List.nil_append, List.cons.injEq] at same
      exact Or.inl ⟨rfl, same⟩
  | cons first left =>
      rw [List.cons_append, List.cons.injEq] at same
      obtain ⟨rfl, same⟩ := same
      cases left with
      | nil => exact absurd (List.cons.inj same).1 apart
      | cons second left =>
          rw [List.cons_append, List.cons.injEq] at same
          obtain ⟨rfl, same⟩ := same
          exact Or.inr ⟨left, rfl, same⟩

theorem splits {word word' left left' right right' : String} {c d c' d' : Char}
    (letters : word.toList = [c, d]) (letters' : word'.toList = [c', d']) (apart : d ≠ c')
    (apart' : d' ≠ c) (same : left ++ (word ++ right) = left' ++ (word' ++ right')) :
    (left = left' ∧ word = word' ∧ right = right') ∨
      (∃ between, left' = left ++ (word ++ between) ∧ right = between ++ (word' ++ right')) ∨
      ∃ between, left = left' ++ (word' ++ between) ∧ right' = between ++ (word ++ right) := by
  simp only [← String.toList_inj, String.toList_append, letters, letters', List.cons_append,
    List.nil_append] at same ⊢
  rcases List.append_eq_append_iff.mp same with ⟨middle, leftEq, rest⟩ | ⟨middle, leftEq, rest⟩
  · rcases cons_cons_eq_append apart rest with ⟨rfl, rfl, rfl, restEq⟩ | ⟨between, rfl, restEq⟩
    · rw [List.append_nil] at leftEq
      exact Or.inl ⟨leftEq.symm, rfl, restEq⟩
    · exact Or.inr (Or.inl ⟨String.ofList between, by simpa using leftEq, by simpa using restEq⟩)
  · rcases cons_cons_eq_append apart' rest with ⟨rfl, rfl, rfl, restEq⟩ | ⟨between, rfl, restEq⟩
    · rw [List.append_nil] at leftEq
      exact Or.inl ⟨leftEq, rfl, restEq.symm⟩
    · exact Or.inr (Or.inr ⟨String.ofList between, by simpa using leftEq, by simpa using restEq⟩)

def Holds (word text : String) : Prop :=
  word.toList <:+: text.toList

instance (word text : String) : Decidable (Holds word text) :=
  inferInstanceAs (Decidable (word.toList <:+: text.toList))

theorem holds_iff {word text : String} :
    Holds word text ↔ ∃ before after, text = before ++ (word ++ after) := by
  constructor
  · rintro ⟨before, after, split⟩
    refine ⟨String.ofList before, String.ofList after, ?_⟩
    apply String.toList_inj.mp
    simp [← split]
  · rintro ⟨before, after, rfl⟩
    exact ⟨before.toList, after.toList, by simp⟩

end Text

namespace Hook

/-- What the full name of a hook tells of a transition. -/
structure Subject where
  source : StateId
  target : StateId
  event : EventId
  deriving DecidableEq

/-- Stands for every state where the name of a hook has it as an end. -/
def any : StateId :=
  ⟨"Any"⟩

namespace Subject

def name (subject : Subject) : String :=
  transit subject.source subject.target subject.event

/-- The names under which the hooks of a transition are looked up. -/
def probed (subject : Subject) : List String :=
  forTransition subject.source subject.target subject.event

def generalized (subject : Subject) : List Subject :=
  [subject, { subject with target := any }, { subject with source := any },
    { subject with source := any, target := any }]

variable {subject other : Subject}

theorem name_eq (subject : Subject) : subject.name =
    "transitFrom" ++ subject.source.text ++ "To" ++ subject.target.text ++ "On" ++
      subject.event.text :=
  rfl

theorem name_ne_transitAny (subject : Subject) : subject.name ≠ transitAny := by
  intro same
  have capital : 'O' ∈ subject.name.toList := by
    simp only [name_eq, String.toList_append, List.mem_append]
    exact Or.inl (Or.inr (by decide))
  exact absurd (same ▸ capital) (by decide)

theorem probed_eq (subject : Subject) :
    subject.probed = subject.generalized.map name ++ [transitAny] := by
  have toAny (source : StateId) (event : EventId) :
      transitToAny source event = transit source any event := by
    have words : "ToAnyOn" = "To" ++ any.text ++ "On" := by decide
    have regrouped (start : String) : start ++ "ToAnyOn" = start ++ "To" ++ any.text ++ "On" :=
      (congrArg (start ++ ·) words).trans (by simp only [String.append_assoc])
    exact congrArg (· ++ event.text) (regrouped ("transitFrom" ++ source.text))
  have fromAny (target : StateId) (event : EventId) :
      transitFromAny target event = transit any target event := by
    have words : "transitFromAnyTo" = "transitFrom" ++ any.text ++ "To" := by decide
    exact congrArg (· ++ target.text ++ "On" ++ event.text) words
  have anyOn (event : EventId) : transitAnyOn event = transit any any event := by
    have words : "transitFromAnyToAnyOn" =
        "transitFrom" ++ any.text ++ "To" ++ any.text ++ "On" := by decide
    exact congrArg (· ++ event.text) words
  rw [probed, forTransition, toAny, fromAny, anyOn]
  rfl

theorem name_mem_probed_iff :
    subject.name ∈ other.probed ↔ ∃ general ∈ other.generalized, subject.name = general.name := by
  rw [probed_eq, List.mem_append, List.mem_map, List.mem_singleton]
  simp only [subject.name_ne_transitAny, or_false, eq_comm]

theorem name_eq_iff : subject.name = other.name ↔
    subject.source.text ++ ("To" ++ (subject.target.text ++ ("On" ++ subject.event.text))) =
      other.source.text ++ ("To" ++ (other.target.text ++ ("On" ++ other.event.text))) := by
  simp only [name_eq, String.append_assoc, ← String.toList_inj, String.toList_append]
  rw [List.append_cancel_left_eq]

/-- The second subject takes an earlier occurrence of a word for the separating one. -/
inductive Shift : Subject → Subject → Prop where
  | sourceEnd (source between target : String) (event : EventId) :
      Shift ⟨⟨source ++ ("To" ++ between)⟩, ⟨target⟩, event⟩
        ⟨⟨source⟩, ⟨between ++ ("To" ++ target)⟩, event⟩
  | targetEnd (source : StateId) (target between event : String) :
      Shift ⟨source, ⟨target ++ ("On" ++ between)⟩, ⟨event⟩⟩
        ⟨source, ⟨target⟩, ⟨between ++ ("On" ++ event)⟩⟩

/-- The words can be moved so that one subject becomes the other one. -/
abbrev Blurs : Subject → Subject → Prop :=
  Relation.EqvGen Shift

theorem name_eq_of_shift (shift : Shift subject other) : subject.name = other.name := by
  rw [name_eq_iff]
  cases shift <;> simp only [String.append_assoc]

theorem name_eq_of_blurs (blurs : Blurs subject other) : subject.name = other.name := by
  induction blurs with
  | rel _ _ shift => exact name_eq_of_shift shift
  | refl _ => rfl
  | symm _ _ _ ih => exact ih.symm
  | trans _ _ _ _ _ first second => exact first.trans second

theorem blurs_of_same_source {source : StateId} {target target' event event' : String}
    (rest : target ++ ("On" ++ event) = target' ++ ("On" ++ event')) :
    Blurs ⟨source, ⟨target⟩, ⟨event⟩⟩ ⟨source, ⟨target'⟩, ⟨event'⟩⟩ := by
  rcases Text.splits rfl rfl (by decide) (by decide) rest with
    ⟨rfl, _, rfl⟩ | ⟨between, rfl, rfl⟩ | ⟨between, rfl, rfl⟩
  · exact .refl _
  · exact .symm _ _ (.rel _ _ (.targetEnd source target between event'))
  · exact .rel _ _ (.targetEnd source target' between event)

theorem blurs_of_longer_source {source between target target' event event' : String}
    (rest : target ++ ("On" ++ event) = between ++ ("To" ++ (target' ++ ("On" ++ event')))) :
    Blurs ⟨⟨source⟩, ⟨target⟩, ⟨event⟩⟩
      ⟨⟨source ++ ("To" ++ between)⟩, ⟨target'⟩, ⟨event'⟩⟩ := by
  rcases Text.splits rfl rfl (by decide) (by decide) rest with
    ⟨_, clash, _⟩ | ⟨further, rfl, rfl⟩ | ⟨further, rfl, later⟩
  · exact absurd clash (by decide)
  · have inEvent := Shift.targetEnd ⟨source⟩ target (further ++ ("To" ++ target')) event'
    have inSource := Shift.sourceEnd source (target ++ ("On" ++ further)) target' ⟨event'⟩
    simp only [String.append_assoc] at inEvent inSource ⊢
    exact .trans _ _ _ (.symm _ _ (.rel _ _ inEvent)) (.symm _ _ (.rel _ _ inSource))
  · have inSource := Shift.sourceEnd source between further ⟨event⟩
    exact .trans _ _ _ (.symm _ _ (.rel _ _ inSource)) (blurs_of_same_source later.symm)

theorem blurs_of_name_eq (same : subject.name = other.name) : Blurs subject other := by
  obtain ⟨⟨source⟩, ⟨target⟩, ⟨event⟩⟩ := subject
  obtain ⟨⟨source'⟩, ⟨target'⟩, ⟨event'⟩⟩ := other
  rw [name_eq_iff] at same
  rcases Text.splits rfl rfl (by decide) (by decide) same with
    ⟨rfl, _, rest⟩ | ⟨between, rfl, rest⟩ | ⟨between, rfl, rest⟩
  · exact blurs_of_same_source rest
  · exact blurs_of_longer_source rest
  · exact .symm _ _ (blurs_of_longer_source rest)

theorem blurs_iff : Blurs subject other ↔ subject.name = other.name :=
  ⟨name_eq_of_blurs, blurs_of_name_eq⟩

/-- No end stands for all states, and no separating word could be another occurrence of it. -/
structure Distinctive (subject : Subject) : Prop where
  source_ne : subject.source ≠ any
  target_ne : subject.target ≠ any
  source_free : ¬Text.Holds "To" subject.source.text
  target_free : ¬Text.Holds "To" subject.target.text ∧ ¬Text.Holds "On" subject.target.text
  event_free : ¬Text.Holds "On" subject.event.text

theorem Shift.ne (shift : Shift subject other) : subject ≠ other := by
  intro same
  cases shift with
  | sourceEnd source between target event =>
      have texts := congrArg (fun subject => subject.source.text.toList.length) same
      simp at texts
  | targetEnd source target between event =>
      have texts := congrArg (fun subject => subject.target.text.toList.length) same
      simp at texts

namespace Distinctive

theorem not_shift (distinctive : subject.Distinctive) : ¬Shift subject other := by
  intro shift
  cases shift with
  | sourceEnd source between target event =>
      exact distinctive.source_free (Text.holds_iff.mpr ⟨source, between, rfl⟩)
  | targetEnd source target between event =>
      exact distinctive.target_free.2 (Text.holds_iff.mpr ⟨target, between, rfl⟩)

theorem not_shift_back (distinctive : subject.Distinctive) : ¬Shift other subject := by
  intro shift
  cases shift with
  | sourceEnd source between target event =>
      exact distinctive.target_free.1 (Text.holds_iff.mpr ⟨between, target, rfl⟩)
  | targetEnd source target between event =>
      exact distinctive.event_free (Text.holds_iff.mpr ⟨between, event, rfl⟩)

theorem eq_of_blurs {first second : Subject} (blurs : Blurs first second)
    (distinctive : first.Distinctive ∨ second.Distinctive) : first = second := by
  induction blurs with
  | rel _ _ shift =>
      rcases distinctive with left | right
      · exact absurd shift left.not_shift
      · exact absurd shift right.not_shift_back
  | refl _ => rfl
  | symm _ _ _ ih => exact (ih distinctive.symm).symm
  | trans _ _ _ _ _ ih ih' =>
      rcases distinctive with left | right
      · obtain rfl := ih (Or.inl left)
        exact ih' (Or.inl left)
      · obtain rfl := ih' (Or.inr right)
        exact ih (Or.inr right)

theorem eq_of_probed (distinctive : subject.Distinctive) (probed : subject.name ∈ other.probed) :
    other = subject := by
  obtain ⟨general, member, same⟩ := name_mem_probed_iff.mp probed
  obtain rfl := eq_of_blurs (blurs_of_name_eq same) (Or.inl distinctive)
  simp only [generalized, List.mem_cons, List.not_mem_nil, or_false] at member
  rcases member with rfl | rfl | rfl | rfl
  · rfl
  · exact absurd rfl distinctive.target_ne
  · exact absurd rfl distinctive.source_ne
  · exact absurd rfl distinctive.source_ne

end Distinctive

theorem probed_of_shift (shift : Shift subject other ∨ Shift other subject) :
    subject.name ∈ other.probed ∧ other ≠ subject := by
  have own : other ∈ other.generalized := List.mem_cons_self
  rcases shift with shift | shift
  · exact ⟨name_mem_probed_iff.mpr ⟨other, own, name_eq_of_shift shift⟩, shift.ne.symm⟩
  · exact ⟨name_mem_probed_iff.mpr ⟨other, own, (name_eq_of_shift shift).symm⟩, shift.ne⟩

theorem distinctive_of_alone
    (alone : ∀ other : Subject, subject.name ∈ other.probed → other = subject) :
    subject.Distinctive := by
  have unmoved {other : Subject} (shift : Shift subject other ∨ Shift other subject) : False :=
    (probed_of_shift shift).2 (alone other (probed_of_shift shift).1)
  have unnamed (other general : Subject) (member : general ∈ other.generalized)
      (same : subject = general) : other = subject :=
    alone other (name_mem_probed_iff.mpr ⟨general, member, congrArg name same⟩)
  obtain ⟨⟨source⟩, ⟨target⟩, ⟨event⟩⟩ := subject
  refine ⟨?_, ?_, ?_, ⟨?_, ?_⟩, ?_⟩
  · intro same
    have other := unnamed ⟨⟨""⟩, ⟨target⟩, ⟨event⟩⟩ ⟨any, ⟨target⟩, ⟨event⟩⟩ (by simp [generalized])
      (congrArg (Subject.mk · ⟨target⟩ ⟨event⟩) same)
    have empty : ⟨""⟩ = any := (congrArg Subject.source other).trans same
    exact absurd empty (by decide)
  · intro same
    have other := unnamed ⟨⟨source⟩, ⟨""⟩, ⟨event⟩⟩ ⟨⟨source⟩, any, ⟨event⟩⟩ (by simp [generalized])
      (congrArg (Subject.mk ⟨source⟩ · ⟨event⟩) same)
    have empty : ⟨""⟩ = any := (congrArg Subject.target other).trans same
    exact absurd empty (by decide)
  · intro holds
    obtain ⟨before, after, rfl⟩ := Text.holds_iff.mp holds
    exact unmoved (Or.inl (.sourceEnd before after target ⟨event⟩))
  · intro holds
    obtain ⟨before, after, rfl⟩ := Text.holds_iff.mp holds
    exact unmoved (Or.inr (.sourceEnd source before after ⟨event⟩))
  · intro holds
    obtain ⟨before, after, rfl⟩ := Text.holds_iff.mp holds
    exact unmoved (Or.inl (.targetEnd ⟨source⟩ before after event))
  · intro holds
    obtain ⟨before, after, rfl⟩ := Text.holds_iff.mp holds
    exact unmoved (Or.inr (.targetEnd ⟨source⟩ target before after))

end Subject

end Hook

namespace TransitionDecl

variable {registry : Registry δ γ} {action : Action δ γ} {declaration : TransitionDecl δ γ}

def subject (declaration : TransitionDecl δ γ) : Hook.Subject :=
  ⟨declaration.source, declaration.destination, declaration.event⟩

theorem hookSlots_eq (registry : Registry δ γ) (declaration : TransitionDecl δ γ) :
    declaration.hookSlots registry = declaration.subject.probed.filterMap registry.hookSlot? :=
  rfl

theorem hookSlots_of_probed {name : String} (probed : name ∈ declaration.subject.probed) :
    ⟨.action action, Weight.extension⟩ ∈
      declaration.hookSlots (registry.addAction name action) := by
  rw [hookSlots_eq, List.mem_filterMap]
  refine ⟨name, probed, ?_⟩
  rw [Registry.hookSlot?, Registry.action?_addAction, if_pos rfl, Option.map_some]

theorem hookSlots_of_not_probed {name : String} (absent : name ∉ declaration.subject.probed) :
    declaration.hookSlots (registry.addAction name action) = declaration.hookSlots registry := by
  rw [hookSlots_eq, hookSlots_eq]
  apply List.filterMap_congr
  intro other probed
  have differ : name ≠ other := by
    rintro rfl
    exact absent probed
  rw [Registry.hookSlot?, Registry.hookSlot?, Registry.action?_addAction, if_neg differ]

end TransitionDecl

namespace Hook

/--
The full name of a transition is looked up for another one exactly if moving the words between its
parts makes it a name of that one, or of that one with `Any` as an end.  It is looked up for no
other transition exactly if no end is `Any` and the words do not come up in the parts where they
could be taken for the separating ones; and then what is registered under it is a hook of its own
transition only.
-/
theorem transit_alone_iff (subject : Subject) :
    (∀ other : Subject,
      subject.name ∈ other.probed ↔ ∃ general ∈ other.generalized, subject.Blurs general) ∧
    ((∀ other : Subject, subject.name ∈ other.probed → other = subject) ↔ subject.Distinctive) ∧
    ∀ (registry : Registry δ γ) (action : Action δ γ) (declaration : TransitionDecl δ γ),
      (declaration.subject = subject → ⟨.action action, Weight.extension⟩ ∈
        declaration.hookSlots (registry.addAction subject.name action)) ∧
      (subject.Distinctive → declaration.subject ≠ subject →
        declaration.hookSlots (registry.addAction subject.name action) =
          declaration.hookSlots registry) := by
  refine ⟨fun other => ?_, ⟨Subject.distinctive_of_alone, fun distinctive other probed =>
    distinctive.eq_of_probed probed⟩, fun registry action declaration => ⟨?_, ?_⟩⟩
  · simp only [Subject.blurs_iff]
    exact Subject.name_mem_probed_iff
  · rintro rfl
    exact TransitionDecl.hookSlots_of_probed List.mem_cons_self
  · intro distinctive differ
    apply TransitionDecl.hookSlots_of_not_probed
    intro probed
    exact differ (distinctive.eq_of_probed probed)

def plain : Subject :=
  ⟨⟨"A"⟩, ⟨"B"⟩, ⟨"go"⟩⟩

def bell : Action Unit Unit :=
  ⟨0, fun _ data => ⟨data, [], none⟩⟩

theorem transit_alone_iff_plain :
    plain.Distinctive ∧ (∀ other : Subject, plain.name ∈ other.probed → other = plain) ∧
      ⟨.action bell, Weight.extension⟩ ∈ TransitionDecl.hookSlots
        (Registry.addAction {} plain.name bell)
        { source := ⟨"A"⟩, target := some ⟨"B"⟩, event := ⟨"go"⟩ } ∧
      TransitionDecl.hookSlots (Registry.addAction {} plain.name bell)
        { source := ⟨"AToB"⟩, target := some ⟨"C"⟩, event := ⟨"go"⟩ } = [] := by
  obtain ⟨_, alone, hooks⟩ := transit_alone_iff plain
  have distinctive : plain.Distinctive :=
    ⟨by decide, by decide, by decide, ⟨by decide, by decide⟩, by decide⟩
  refine ⟨distinctive, alone.mpr distinctive, (hooks {} bell _).1 rfl, ?_⟩
  exact (hooks {} bell _).2 distinctive (by decide)

theorem transit_not_alone :
    (transit ⟨"A"⟩ ⟨"BToC"⟩ ⟨"go"⟩ ∈ forTransition ⟨"AToB"⟩ ⟨"C"⟩ ⟨"go"⟩ ∧
      (⟨"A"⟩ : StateId) ≠ ⟨"AToB"⟩) ∧
    (transit ⟨"A"⟩ ⟨"B"⟩ ⟨"stopOngo"⟩ ∈ forTransition ⟨"A"⟩ ⟨"BOnstop"⟩ ⟨"go"⟩ ∧
      (⟨"B"⟩ : StateId) ≠ ⟨"BOnstop"⟩) ∧
    (transit ⟨"Any"⟩ ⟨"B"⟩ ⟨"go"⟩ ∈ forTransition ⟨"A"⟩ ⟨"B"⟩ ⟨"go"⟩ ∧
      (⟨"Any"⟩ : StateId) ≠ ⟨"A"⟩) := by
  decide

end Hook

end Statechart
