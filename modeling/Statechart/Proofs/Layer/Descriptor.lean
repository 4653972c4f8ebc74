import Statechart.Layer.Descriptor
import Statechart.Proofs.Text.Decimal
import Statechart.Proofs.Text.Trimmed

namespace Statechart.ActionRef

open Text

/-- The name and the weight that a descriptor gives. -/
inductive Denotes (descriptor : String) : String → Weight → Prop where
  | plain {name : String} (simple : ':' ∉ descriptor.toList)
      (visible : ∃ c ∈ descriptor.toList, isBlank c = false)
      (trimmed : Trimmed descriptor.toList name.toList) : Denotes descriptor name .normal
  | weighted {name : String} {weight : Weight} {before after number : List Char}
      (split : descriptor.toList = before ++ ':' :: after) (first : ':' ∉ before)
      (visible : ∃ c ∈ before, isBlank c = false) (trimmed : Trimmed before name.toList)
      (trimmedWeight : Trimmed after number) (spelled : Whole number weight.toInt) :
      Denotes descriptor name weight

/-- What is wrong with a text that is no descriptor. -/
inductive Lacks (descriptor : String) : DescriptorFault → Prop where
  | weight {before after : List Char} (split : descriptor.toList = before ++ ':' :: after)
      (first : ':' ∉ before)
      (unspelled : ∀ number, Trimmed after number → ∀ weight : Weight, ¬Whole number weight.toInt) :
      Lacks descriptor (.badWeight descriptor (String.ofList after))
  | name (simple : ':' ∉ descriptor.toList)
      (blank : ∀ c ∈ descriptor.toList, isBlank c = true) :
      Lacks descriptor (.emptyName descriptor)
  | nameOfWeighted {weight : Weight} {before after number : List Char}
      (split : descriptor.toList = before ++ ':' :: after) (first : ':' ∉ before)
      (blank : ∀ c ∈ before, isBlank c = true) (trimmedWeight : Trimmed after number)
      (spelled : Whole number weight.toInt) : Lacks descriptor (.emptyName descriptor)

def nameWith (descriptor : String) (weight : Weight) (text : List Char) :
    Except DescriptorFault (String × Weight) :=
  if trim text = [] then .error (.emptyName descriptor)
  else .ok (String.ofList (trim text), weight)

variable {descriptor name : String} {weight given : Weight} {before after text : List Char}
  {fault : DescriptorFault}

theorem nameWith_eq_ok_iff :
    nameWith descriptor given text = .ok (name, weight) ↔
      given = weight ∧ (∃ c ∈ text, isBlank c = false) ∧ Trimmed text name.toList := by
  have visible : (∃ c ∈ text, isBlank c = false) ↔ trim text ≠ [] := by
    simp [trim_eq_nil_iff]
  have named : String.ofList (trim text) = name ↔ Trimmed text name.toList := by
    rw [trimmed_iff, ← String.toList_inj, String.toList_ofList]
  unfold nameWith
  split
  · next empty => exact ⟨nofun, fun denotes => absurd empty (visible.mp denotes.2.1)⟩
  · next some => rw [Except.ok.injEq, Prod.mk.injEq, named, visible]; tauto

theorem nameWith_eq_error_iff :
    nameWith descriptor given text = .error fault ↔
      fault = .emptyName descriptor ∧ ∀ c ∈ text, isBlank c = true := by
  unfold nameWith
  split
  · next empty =>
    rw [Except.error.injEq, eq_comm, iff_self_and]
    exact fun _ => trim_eq_nil_iff.mp empty
  · next some => exact ⟨nofun, fun lacks => absurd (trim_eq_nil_iff.mpr lacks.2) some⟩

theorem parse_of_simple (simple : ':' ∉ descriptor.toList) :
    parse descriptor = nameWith descriptor .normal descriptor.toList := by
  have inside : ∀ c ∈ descriptor.toList, (c != ':') = true := fun c member =>
    bne_iff_ne.mpr fun same => simple (same ▸ member)
  unfold parse nameWith
  simp only [List.takeWhile_eq_self_iff.mpr inside, List.dropWhile_eq_nil_iff.mpr inside]
  cases trim descriptor.toList <;> rfl

theorem parse_of_split (split : descriptor.toList = before ++ ':' :: after)
    (first : ':' ∉ before) :
    parse descriptor =
      match (integer? (trim after)).bind word? with
      | some weight => nameWith descriptor weight before
      | none => .error (.badWeight descriptor (String.ofList after)) := by
  have inside : ∀ c ∈ before, (c != ':') = true := fun c member =>
    bne_iff_ne.mpr fun same => first (same ▸ member)
  have stops : ∀ c ∈ (':' :: after).head?, (c != ':') = false := by simp
  unfold parse nameWith
  simp only [split, takeWhile_append_of_stops inside stops, dropWhile_append_of_stops inside stops]
  cases (integer? (trim after)).bind word? with
  | none => rfl
  | some weight => cases trim before <;> rfl

theorem simple_or_split (descriptor : String) :
    ':' ∉ descriptor.toList ∨
      ∃ before after, descriptor.toList = before ++ ':' :: after ∧ ':' ∉ before := by
  by_cases simple : ':' ∈ descriptor.toList
  · exact Or.inr (List.eq_append_cons_of_mem simple)
  · exact Or.inl simple

theorem weight_eq_some_iff :
    (integer? (trim text)).bind word? = some weight ↔
      ∃ number, Trimmed text number ∧ Whole number weight.toInt := by
  rw [word_of_integer?_eq_some_iff]
  constructor
  · intro spelled
    exact ⟨_, trimmed_trim text, spelled⟩
  · rintro ⟨number, trimmed, spelled⟩
    rwa [trimmed.trim_eq]

theorem parse_eq_ok_iff :
    parse descriptor = .ok (name, weight) ↔ Denotes descriptor name weight := by
  constructor
  · intro parsed
    rcases simple_or_split descriptor with simple | ⟨before, after, split, first⟩
    · rw [parse_of_simple simple, nameWith_eq_ok_iff] at parsed
      obtain ⟨rfl, visible, trimmed⟩ := parsed
      exact .plain simple visible trimmed
    · rw [parse_of_split split first] at parsed
      cases read : (integer? (trim after)).bind word? with
      | none => simp [read] at parsed
      | some given =>
          simp only [read, nameWith_eq_ok_iff] at parsed
          obtain ⟨rfl, visible, trimmed⟩ := parsed
          obtain ⟨number, trimmedWeight, spelled⟩ := weight_eq_some_iff.mp read
          exact .weighted split first visible trimmed trimmedWeight spelled
  · intro denotes
    cases denotes with
    | plain simple visible trimmed =>
        rw [parse_of_simple simple, nameWith_eq_ok_iff]
        exact ⟨rfl, visible, trimmed⟩
    | weighted split first visible trimmed trimmedWeight spelled =>
        rw [parse_of_split split first, weight_eq_some_iff.mpr ⟨_, trimmedWeight, spelled⟩]
        exact nameWith_eq_ok_iff.mpr ⟨rfl, visible, trimmed⟩

theorem parse_eq_error_iff : parse descriptor = .error fault ↔ Lacks descriptor fault := by
  constructor
  · intro parsed
    rcases simple_or_split descriptor with simple | ⟨before, after, split, first⟩
    · rw [parse_of_simple simple, nameWith_eq_error_iff] at parsed
      obtain ⟨rfl, blank⟩ := parsed
      exact .name simple blank
    · rw [parse_of_split split first] at parsed
      cases read : (integer? (trim after)).bind word? with
      | none =>
          simp only [read, Except.error.injEq] at parsed
          subst parsed
          refine .weight split first fun number trimmed weight spelled => ?_
          rw [weight_eq_some_iff.mpr ⟨number, trimmed, spelled⟩] at read
          contradiction
      | some given =>
          simp only [read, nameWith_eq_error_iff] at parsed
          obtain ⟨rfl, blank⟩ := parsed
          obtain ⟨number, trimmedWeight, spelled⟩ := weight_eq_some_iff.mp read
          exact .nameOfWeighted split first blank trimmedWeight spelled
  · intro lacks
    cases lacks with
    | @weight before after split first unspelled =>
        have unread : (integer? (trim after)).bind word? = none := by
          refine Option.eq_none_iff_forall_ne_some.mpr fun weight read => ?_
          obtain ⟨number, trimmed, spelled⟩ := weight_eq_some_iff.mp read
          exact unspelled number trimmed weight spelled
        rw [parse_of_split split first, unread]
    | name simple blank =>
        rw [parse_of_simple simple, nameWith_eq_error_iff]
        exact ⟨rfl, blank⟩
    | nameOfWeighted split first blank trimmedWeight spelled =>
        rw [parse_of_split split first, weight_eq_some_iff.mpr ⟨_, trimmedWeight, spelled⟩]
        exact nameWith_eq_error_iff.mpr ⟨rfl, blank⟩

/--
Reading a descriptor gives the name and the weight that it denotes, if it is a name or a name and a
weight, and says what it lacks otherwise.  Every visible name without a colon can be given with
every weight, with blanks around both.
-/
theorem parse_accepts_notation :
    (∀ descriptor name weight,
      parse descriptor = .ok (name, weight) ↔ Denotes descriptor name weight) ∧
    (∀ descriptor fault, parse descriptor = .error fault ↔ Lacks descriptor fault) ∧
    ∀ (name : String) (weight : Weight) (before after beforeWeight afterWeight : List Char),
      ':' ∉ name.toList → (∃ c ∈ name.toList, isBlank c = false) →
      (∀ c ∈ before ++ after ++ beforeWeight ++ afterWeight, isBlank c = true) →
      parse (String.ofList (before ++ name.toList ++ after ++
          ':' :: (beforeWeight ++ (showInt weight.toInt).toList ++ afterWeight))) =
        .ok (String.ofList (trim name.toList), weight) := by
  refine ⟨fun _ _ _ => parse_eq_ok_iff, fun _ _ => parse_eq_error_iff, ?_⟩
  intro name weight before after beforeWeight afterWeight simple ⟨c, member, visible⟩ blank
  simp only [List.mem_append, or_imp, forall_and] at blank
  obtain ⟨⟨⟨blankBefore, blankAfter⟩, blankBeforeWeight⟩, blankAfterWeight⟩ := blank
  have notBlank {text : List Char} (blank : ∀ c ∈ text, isBlank c = true) : ':' ∉ text :=
    fun member => Bool.false_ne_true (blank ':' member)
  have spelled := whole_showInt weight.toInt
  have first : ':' ∉ before ++ name.toList ++ after := by
    simp [notBlank blankBefore, simple, notBlank blankAfter]
  refine parse_eq_ok_iff.mpr (.weighted (String.toList_ofList ..) first ⟨c, ?_, visible⟩ ?_
    (spelled.trimmed.pad blankBeforeWeight blankAfterWeight) spelled)
  · simp [member]
  · rw [String.toList_ofList]
    exact (trimmed_trim name.toList).pad blankBefore blankAfter

theorem parse_accepts_notation_least :
    ':' ∉ "to do".toList ∧ (∃ c ∈ "to do".toList, isBlank c = false) ∧
      (∀ c ∈ ['\t'] ++ ['\n', ' '] ++ ['\u2003'] ++ ['\r'], isBlank c = true) ∧
      parse (String.ofList (['\t'] ++ "to do".toList ++ ['\n', ' '] ++
          ':' :: (['\u2003'] ++ (showInt (Int32.minValue).toInt).toList ++ ['\r']))) =
        .ok (String.ofList (trim "to do".toList), Int32.minValue) := by
  have simple : ':' ∉ "to do".toList := by decide
  have visible : ∃ c ∈ "to do".toList, isBlank c = false := ⟨'t', by decide, by decide⟩
  have blank : ∀ c ∈ ['\t'] ++ ['\n', ' '] ++ ['\u2003'] ++ ['\r'], isBlank c = true := by
    simp [isBlank]
  exact ⟨simple, visible, blank,
    parse_accepts_notation.2.2 "to do" Int32.minValue _ _ _ _ simple visible blank⟩

end Statechart.ActionRef
