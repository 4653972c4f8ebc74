import Statechart.Json.Ident
import Statechart.Json.Reader
import Statechart.Json.Writer
import Statechart.Keyed

namespace Statechart

open Json

/-- The last active child of composite states. -/
structure Memory where
  lastActive : Keyed StateId StateId := []
  deriving DecidableEq

namespace Memory

def record (memory : Memory) (composite child : StateId) : Memory :=
  ⟨memory.lastActive.put composite child⟩

def child? (memory : Memory) (composite : StateId) : Option StateId :=
  memory.lastActive.get? composite

@[simp] theorem child?_record (memory : Memory) (composite child wanted : StateId) :
    (memory.record composite child).child? wanted =
      if composite = wanted then some child else memory.child? wanted :=
  Keyed.get?_put memory.lastActive composite wanted child

def size (memory : Memory) : Nat :=
  memory.lastActive.length

def toJson (memory : Memory) : Value :=
  .ofMembers [("last_active",
    .ofMembers (memory.lastActive.map fun entry => (entry.1.text, entry.2.toJson)))]

/-- Reads an object that maps composites to children; a repeated key counts as last given. -/
def entriesOfJson? : Value → Option (Keyed StateId StateId)
  | .object members => do
    let entries ← members.mapM fun (key, value) => do
      let composite ← key
      let child ← StateId.ofJson? value
      return (StateId.mk composite, child)
    return Keyed.putAll [] entries
  | _ => none

def ofJson? (value : Value) : Option Memory := do
  let fields ← fields? .skipped ["last_active"] value
  let entries ← required? entriesOfJson? "last_active" fields
  return ⟨entries⟩

def parse? (text : String) : Option Memory :=
  (Value.read? text).bind ofJson?

end Memory

end Statechart
