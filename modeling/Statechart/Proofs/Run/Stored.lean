import Statechart.Proofs.Json.Records
import Statechart.Proofs.Json.Writing
import Statechart.Run.Memory
import Statechart.Run.Options

namespace Statechart

open Json

namespace Options

def fields (options : Options) : List (String × Value) :=
  [("autoStart", .bool options.autoStart), ("autoTerminate", .bool options.autoTerminate),
    ("debugTrace", .bool options.debugTrace), ("startEvent", .ofString options.startEvent.text),
    ("terminateEvent", .ofString options.terminateEvent.text),
    ("finishEvent", .ofString options.finishEvent.text)]

/-- The standard options, except that the named ones are as given. -/
def overlaid (options : Options) (names : List String) : Options where
  autoStart := if "autoStart" ∈ names then options.autoStart else true
  autoTerminate := if "autoTerminate" ∈ names then options.autoTerminate else true
  debugTrace := if "debugTrace" ∈ names then options.debugTrace else false
  startEvent := if "startEvent" ∈ names then options.startEvent else ⟨"$Start"⟩
  terminateEvent := if "terminateEvent" ∈ names then options.terminateEvent else ⟨"$Terminate"⟩
  finishEvent := if "finishEvent" ∈ names then options.finishEvent else ⟨"$Finish"⟩

theorem toJson_eq (options : Options) : options.toJson = .ofMembers options.fields :=
  rfl

theorem overlaid_fieldNames (options : Options) : options.overlaid fieldNames = options := by
  simp [overlaid, fieldNames]

theorem names_fields (options : Options) : options.fields.map Prod.fst = fieldNames :=
  rfl

theorem once_fields (options : Options) : (options.fields.map Prod.fst).Nodup := by
  rw [names_fields]
  decide

theorem proper_toJson (options : Options) : options.toJson.Proper := by
  simp [toJson_eq, fields]

theorem ofJson?_of_subset {options : Options} {chosen : List (String × Value)}
    (once : (chosen.map Prod.fst).Nodup) (own : chosen ⊆ options.fields) :
    ofJson? (.ofMembers chosen) = some (options.overlaid (chosen.map Prod.fst)) := by
  have record : Fields fieldNames chosen :=
    ⟨fun field member => options.names_fields ▸ List.mem_map_of_mem (own member), once⟩
  have flag {name : String} (flag standard : Bool) (listed : (name, .bool flag) ∈ options.fields) :
      withDefault? Value.bool? standard name chosen =
        some (if name ∈ chosen.map Prod.fst then flag else standard) :=
    withDefault?_of_subset standard own options.once_fields listed rfl
  have event {name : String} (event standard : EventId)
      (listed : (name, .ofString event.text) ∈ options.fields) :
      withDefault? EventId.ofJson? standard name chosen =
        some (if name ∈ chosen.map Prod.fst then event else standard) :=
    withDefault?_of_subset standard own options.once_fields listed rfl
  simp only [ofJson?, fields?_ofMembers .skipped record, Option.bind_eq_bind, Option.bind_some]
  rw [flag options.autoStart _ (by simp [fields]), flag options.autoTerminate _ (by simp [fields]),
    flag options.debugTrace _ (by simp [fields]), event options.startEvent _ (by simp [fields]),
    event options.terminateEvent _ (by simp [fields]),
    event options.finishEvent _ (by simp [fields])]
  rfl

theorem parse_of_holds {options : Options} {chosen : List (String × Value)} {text : String}
    (once : (chosen.map Prod.fst).Nodup) (own : chosen ⊆ options.fields)
    (holds : Holds text (.ofMembers chosen)) :
    parse text = .ok (options.overlaid (chosen.map Prod.fst)) := by
  simp only [parse, read?_of_holds holds, Option.bind_some, ofJson?_of_subset once own]

theorem parse_render (options : Options) : parse options.toJson.render = .ok options := by
  rw [toJson_eq, parse_of_holds options.once_fields (List.Subset.refl _)
    (holds_render options.proper_toJson), names_fields, overlaid_fieldNames]

end Options

namespace Keyed

variable {κ α : Type} [DecidableEq κ] {map entries other : Keyed κ α} {key : κ} {value : α}

theorem get?_eq_some_iff (apart : (keys map).Nodup) :
    get? map key = some value ↔ (key, value) ∈ map := by
  induction map with
  | nil => simp
  | cons entry rest ih =>
      obtain ⟨first, content⟩ := entry
      obtain ⟨fresh, apart⟩ := List.nodup_cons.mp apart
      rw [get?, List.mem_cons, Prod.mk.injEq]
      split
      · next same =>
        have absent : (key, value) ∉ rest := fun member =>
          fresh (List.mem_map.mpr ⟨(key, value), member, same.symm⟩)
        simp [same, absent, eq_comm]
      · next differ =>
        rw [ih apart]
        simp [Ne.symm differ]

theorem get?_perm (same : map.Perm other) (apart : (keys map).Nodup) (key : κ) :
    get? map key = get? other key := by
  have apart' : (keys other).Nodup := (same.map Prod.fst).nodup apart
  ext value
  rw [get?_eq_some_iff apart, get?_eq_some_iff apart', same.mem_iff]

theorem put_of_fresh (fresh : key ∉ keys map) (value : α) :
    put map key value = map ++ [(key, value)] := by
  induction map with
  | nil => rfl
  | cons entry rest ih =>
      simp only [keys, List.map_cons, List.mem_cons, not_or] at fresh
      rw [put, if_neg (Ne.symm fresh.1), ih fresh.2]
      rfl

theorem putAll_of_apart (map : Keyed κ α) (apart : (keys (map ++ entries)).Nodup) :
    putAll map entries = map ++ entries := by
  induction entries generalizing map with
  | nil => simp [putAll]
  | cons entry rest ih =>
      have fresh : entry.1 ∉ keys map := by
        rw [keys, List.map_append, List.nodup_append] at apart
        exact fun member => apart.2.2 entry.1 member entry.1 (List.mem_cons_self ..) rfl
      rw [List.append_cons] at apart ⊢
      rw [← put_of_fresh fresh] at apart ⊢
      exact ih _ apart

end Keyed

namespace Memory

def recorded (records : List (StateId × StateId)) : Memory :=
  records.foldl (fun memory record => memory.record record.1 record.2) {}

theorem apart_foldl_record {memory : Memory} (apart : memory.lastActive.keys.Nodup)
    (records : List (StateId × StateId)) :
    (records.foldl (fun memory record => memory.record record.1 record.2)
      memory).lastActive.keys.Nodup := by
  induction records generalizing memory with
  | nil => exact apart
  | cons record records ih => exact ih (Keyed.nodup_keys_put apart)

theorem apart_recorded (records : List (StateId × StateId)) :
    (recorded records).lastActive.keys.Nodup :=
  have empty : ({} : Memory).lastActive.keys.Nodup := List.nodup_nil
  apart_foldl_record empty records

theorem proper_toJson (memory : Memory) : memory.toJson.Proper := by
  refine .object fun member listed => ?_
  obtain rfl := List.mem_singleton.mp listed
  refine .object fun member listed => ?_
  obtain ⟨entry, -, rfl⟩ := List.mem_map.mp listed
  exact proper_ofString entry.2.text

theorem entriesOfJson?_ofMembers (entries : Keyed StateId StateId) :
    entriesOfJson? (.ofMembers (entries.map fun entry => (entry.1.text, entry.2.toJson))) =
      some (Keyed.putAll [] entries) := by
  rw [Value.ofMembers, List.map_map, entriesOfJson?, mapM_map_of_each entries]
  · rfl
  · exact fun _ => rfl

theorem ofJson?_toJson {memory : Memory} (apart : memory.lastActive.keys.Nodup) :
    ofJson? memory.toJson = some memory := by
  have record : Fields ["last_active"] [("last_active", .ofMembers
      (memory.lastActive.map fun entry => (entry.1.text, entry.2.toJson)))] :=
    ⟨by simp, by simp⟩
  rw [ofJson?, toJson, fields?_ofMembers .skipped record]
  simp [required?, entriesOfJson?_ofMembers, Keyed.putAll_of_apart [] apart]

theorem parse?_render {memory : Memory} (apart : memory.lastActive.keys.Nodup) :
    parse? memory.toJson.render = some memory := by
  rw [parse?, read?_of_holds (holds_render memory.proper_toJson), Option.bind_some,
    ofJson?_toJson apart]

end Memory

/--
Options are read back as they were stored, and of a text that holds some of their fields in any
order just these are read, the others being standard.  Memory remembers the same child of every
composite when it is read back, however it was filled and in whichever order it was stored.
-/
theorem stored_comes_back :
    (∀ options : Options, Options.parse options.toJson.render = .ok options) ∧
    (∀ (options : Options) (chosen : List (String × Value)) (text : String),
      (chosen.map Prod.fst).Nodup → chosen ⊆ options.fields → Holds text (.ofMembers chosen) →
      Options.parse text = .ok (options.overlaid (chosen.map Prod.fst))) ∧
    ∀ (records : List (StateId × StateId)) (stored : Memory),
      stored.lastActive.Perm (Memory.recorded records).lastActive →
      ∃ back, Memory.parse? stored.toJson.render = some back ∧
        ∀ composite, back.child? composite = (Memory.recorded records).child? composite := by
  refine ⟨Options.parse_render, fun _ _ _ => Options.parse_of_holds, ?_⟩
  intro records stored shuffled
  have apart := (shuffled.map Prod.fst).symm.nodup (Memory.apart_recorded records)
  exact ⟨stored, Memory.parse?_render apart, Keyed.get?_perm shuffled apart⟩

theorem stored_comes_back_partly :
    let options : Options := { autoStart := false, debugTrace := true, finishEvent := ⟨"😀"⟩ }
    let chosen := [("finishEvent", .ofString "😀"), ("autoStart", .bool false)]
    let text := "\n\x7b\"finishEvent\" :\t\"\\uD83D\\ude00\" , \"autoStart\":false\x7d"
    (chosen.map Prod.fst).Nodup ∧ chosen ⊆ options.fields ∧ Holds text (.ofMembers chosen) ∧
      Options.parse text = .ok { autoStart := false, finishEvent := ⟨"😀"⟩ } := by
  intro options chosen text
  have face : StringWritten (some "😀") "\"\\uD83D\\ude00\"".toList := by
    have high : (Piece.unit 0xD83D).Written "\\uD83D".toList :=
      .number (p := 13) (.upper (by decide)) (.lower (n := 8) (by decide))
        (.lower (n := 3) (by decide)) (.upper (n := 13) (by decide))
    have low : (Piece.unit 0xDE00).Written "\\ude00".toList :=
      .number (.lower (n := 13) (by decide)) (.lower (n := 14) (by decide))
        (.lower (n := 0) (by decide)) (.lower (n := 0) (by decide))
    have value : '😀'.toNat = 0x10000 + 0x3D * 0x400 + 0x200 := by decide
    exact .named (.cons high (.cons low .nil)) (.pair (by decide) (by decide) value .nil)
  have space : Blanks [' '] := by simp [Blanks]
  have tab : Blanks ['\t'] := by simp [Blanks]
  have line : Blanks ['\n'] := by simp [Blanks]
  have first : MemberWritten (some "finishEvent", .ofString "😀")
      "\"finishEvent\" :\t\"\\uD83D\\ude00\" ".toList :=
    .mk .nil (stringWritten_writeString "finishEvent") space (.mk tab (.text face) space)
  have second : MemberWritten (some "autoStart", .bool false) " \"autoStart\":false".toList :=
    .mk space (stringWritten_writeString "autoStart") .nil Value.Written.no.padded
  have holds : Value.Padded (.ofMembers chosen)
      "\n\x7b\"finishEvent\" :\t\"\\uD83D\\ude00\" , \"autoStart\":false\x7d".toList :=
    .mk line (.object (.cons first (.last second))) .nil
  have once : (chosen.map Prod.fst).Nodup := by decide
  have own : chosen ⊆ options.fields := by simp [chosen, options, Options.fields]
  exact ⟨once, own, holds, stored_comes_back.2.1 options chosen text once own holds⟩

end Statechart
