import Statechart.Json.Ident
import Statechart.Json.Reader
import Statechart.Json.Writer
import Statechart.Run.Timestamp

namespace Statechart

open Json

variable {τ : Type}

structure Passage (τ : Type) where
  source : StateId
  target : StateId
  event : EventId
  time : τ
  deriving DecidableEq

structure Itinerary (τ : Type) where
  passages : List (Passage τ) := []
  deriving DecidableEq

namespace Itinerary

def record (itinerary : Itinerary τ) (passage : Passage τ) : Itinerary τ :=
  ⟨itinerary.passages ++ [passage]⟩

def size (itinerary : Itinerary τ) : Nat :=
  itinerary.passages.length

/-- The leaves visited: where the first passage began, and where each one ended. -/
def path (itinerary : Itinerary τ) : List StateId :=
  (itinerary.passages.head?.map Passage.source).toList ++ itinerary.passages.map Passage.target

@[simp] theorem size_record (itinerary : Itinerary τ) (passage : Passage τ) :
    (itinerary.record passage).size = itinerary.size + 1 := by
  simp [size, record]

theorem length_path {itinerary : Itinerary τ} (some_passage : itinerary.passages ≠ []) :
    itinerary.path.length = itinerary.size + 1 := by
  obtain ⟨passages⟩ := itinerary
  cases passages with
  | nil => exact absurd rfl some_passage
  | cons first rest => simp [path, size]

/-- Milliseconds from the first to the last passage, unless the last one comes before. -/
def duration? (itinerary : Itinerary Timestamp) : Option Nat := do
  let first ← itinerary.passages.head?
  let last ← itinerary.passages.getLast?
  let span := last.time.millis - first.time.millis
  if span < 0 then none else some span.toNat

def passageToJson (passage : Passage Timestamp) : Value :=
  .ofMembers
    [("from", passage.source.toJson),
      ("to", passage.target.toJson),
      ("event", passage.event.toJson),
      ("timestamp", .ofString passage.time.render)]

def toJson (itinerary : Itinerary Timestamp) : Value :=
  .ofMembers [("records", .array (itinerary.passages.map passageToJson))]

def passageOfJson? (value : Value) : Option (Passage Timestamp) := do
  let fields ← fields? .skipped ["from", "to", "event", "timestamp"] value
  let source ← required? StateId.ofJson? "from" fields
  let target ← required? StateId.ofJson? "to" fields
  let event ← required? EventId.ofJson? "event" fields
  let time ← required? (fun value => value.string?.bind Timestamp.parse?) "timestamp" fields
  return { source, target, event, time }

def ofJson? (value : Value) : Option (Itinerary Timestamp) := do
  let fields ← fields? .skipped ["records"] value
  let passages ← required? (fun
    | .array items => items.mapM passageOfJson?
    | _ => none) "records" fields
  return ⟨passages⟩

def parse? (text : String) : Option (Itinerary Timestamp) :=
  (Value.read? text).bind ofJson?

end Itinerary

end Statechart
