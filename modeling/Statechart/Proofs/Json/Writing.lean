import Statechart.Json.Writer
import Statechart.Proofs.Json.Reading

namespace Statechart.Json

structure Numeral.Proper (numeral : Numeral) : Prop where
  row : DigitRow numeral.whole
  leading : numeral.whole = [0] ∨ numeral.whole.head? ≠ some 0
  decimal : ∀ digit ∈ numeral.fraction, digit < 10

/-- A value that can be written. -/
inductive Value.Proper : Value → Prop where
  | null : Proper .null
  | bool (flag : Bool) : Proper (.bool flag)
  | number {numeral : Numeral} (proper : numeral.Proper) : Proper (.number numeral)
  | text (content : String) : Proper (.text (some content))
  | array {items : List Value} (proper : ∀ item ∈ items, Proper item) : Proper (.array items)
  | object {members : List (String × Value)} (proper : ∀ member ∈ members, Proper member.2) :
      Proper (.ofMembers members)

attribute [simp] Value.Proper.null Value.Proper.bool

@[simp] theorem proper_ofString (content : String) : (Value.ofString content).Proper :=
  .text content

@[simp] theorem proper_array_iff {items : List Value} :
    (Value.array items).Proper ↔ ∀ item ∈ items, item.Proper := by
  refine ⟨fun proper => ?_, .array⟩
  cases proper with
  | array proper => exact proper

@[simp] theorem proper_ofMembers_iff {members : List (String × Value)} :
    (Value.ofMembers members).Proper ↔ ∀ member ∈ members, member.2.Proper := by
  refine ⟨fun proper => ?_, .object⟩
  generalize same : Value.ofMembers members = value at proper
  cases proper with
  | @object others proper =>
      have named : Function.Injective fun member : String × Value => (some member.1, member.2) :=
        fun member other equal => by simpa [Prod.ext_iff] using equal
      rwa [named.list_map (Value.object.inj same)]
  | _ => cases same

def pieceOf (c : Char) : Piece :=
  if c.toNat < 0x20 ∧ c ∉ ['\x08', '\x0c', '\n', '\r', '\t'] then .unit c.toNat else .char c

theorem names_pieceOf (content : List Char) : Names (content.map pieceOf) content := by
  induction content with
  | nil => exact .nil
  | cons c content ih =>
      rw [List.map_cons, pieceOf]
      split
      · exact .unit ih
      · exact .char ih

theorem written_writeChar (c : Char) : (pieceOf c).Written (writeChar c) := by
  unfold writeChar
  split
  case h_8 _ _ _ notBackspace notFeed notLine notReturn notTab =>
    split
    · next control =>
      have other : c ∉ ['\x08', '\x0c', '\n', '\r', '\t'] := by simp_all
      rw [pieceOf, if_pos ⟨control, other⟩]
      have high : c.toNat / 16 < 16 := by omega
      have low : c.toNat % 16 < 16 := by omega
      have split : ((0 * 16 + 0) * 16 + c.toNat / 16) * 16 + c.toNat % 16 = c.toNat := by omega
      have zero : HexDigit '0' 0 := .lower (n := 0) (by decide)
      have written := Piece.Written.number zero zero (.lower high) (.lower low)
      rwa [split] at written
    · next graphic =>
      rw [pieceOf, if_neg fun control => graphic control.1]
      exact .plain (Nat.not_lt.mp graphic) (by assumption) (by assumption)
  all_goals exact .short (by simp [shortEscapes])

theorem stringWritten_writeString (content : String) :
    StringWritten (some content) (writeString content) := by
  refine .named ?_ (names_pieceOf content.toList)
  induction content.toList with
  | nil => exact .nil
  | cons c rest ih => exact .cons (written_writeChar c) ih

theorem written_writeNumeral {numeral : Numeral} (proper : numeral.Proper) :
    numeral.Written (writeNumeral numeral) := by
  refine ⟨proper.row, proper.leading, _, _, rfl, ?_, ?_⟩
  · cases given : numeral.fraction with
    | nil => exact .absent
    | cons digit rest =>
        exact .digits ⟨List.cons_ne_nil digit rest, given ▸ proper.decimal⟩
  · cases numeral.exponent with
    | none => exact .absent
    | some power => exact .power (Or.inl rfl) (Text.whole_showInt power)

theorem Value.Written.padded {value : Value} {text : List Char} (written : value.Written text) :
    value.Padded text := by
  have padded := Value.Padded.mk .nil written .nil
  rwa [List.nil_append, List.append_nil] at padded

theorem itemsWritten_writeItems {items : List Value} (someItem : items ≠ [])
    (written : ∀ item ∈ items, item.Written item.write) :
    ItemsWritten items (writeItems items) := by
  induction items with
  | nil => exact absurd rfl someItem
  | cons item items ih =>
      have first := (written item (List.mem_cons_self ..)).padded
      have others := fun other member => written other (List.mem_cons_of_mem item member)
      cases items with
      | nil => exact .last first
      | cons next rest => exact .cons first (ih (List.cons_ne_nil next rest) others)

theorem memberWritten_write (name : String) {value : Value} (written : value.Written value.write) :
    MemberWritten (some name, value) (writeString name ++ ':' :: value.write) := by
  have member := MemberWritten.mk .nil (stringWritten_writeString name) .nil written.padded
  rwa [List.nil_append, List.append_nil] at member

theorem membersWritten_writeMembers {members : List (String × Value)} (someMember : members ≠ [])
    (written : ∀ member ∈ members, member.2.Written member.2.write) :
    MembersWritten (members.map fun member => (some member.1, member.2))
      (writeMembers (members.map fun member => (some member.1, member.2))) := by
  induction members with
  | nil => exact absurd rfl someMember
  | cons member members ih =>
      have first := memberWritten_write member.1 (written member (List.mem_cons_self ..))
      have others := fun other listed => written other (List.mem_cons_of_mem member listed)
      cases members with
      | nil => exact .last first
      | cons next rest => exact .cons first (ih (List.cons_ne_nil next rest) others)

theorem written_write {value : Value} (proper : value.Proper) : value.Written value.write := by
  induction proper with
  | null => exact .null
  | bool flag => cases flag <;> constructor
  | number proper => exact .number (written_writeNumeral proper)
  | text content => exact .text (stringWritten_writeString content)
  | @array items _ ih =>
      rw [Value.write]
      cases items with
      | nil => exact .emptyArray .nil
      | cons item rest => exact .array (itemsWritten_writeItems (List.cons_ne_nil item rest) ih)
  | @object members _ ih =>
      rw [Value.ofMembers, Value.write]
      cases members with
      | nil => exact .emptyObject .nil
      | cons member rest =>
          exact .object (membersWritten_writeMembers (List.cons_ne_nil member rest) ih)

/-- The text of a value holds the value. -/
theorem holds_render {value : Value} (proper : value.Proper) : Holds value.render value := by
  rw [Holds, Value.render, String.toList_ofList]
  exact (written_write proper).padded

end Statechart.Json
