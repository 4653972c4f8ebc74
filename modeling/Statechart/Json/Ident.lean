import Statechart.Ident
import Statechart.Json.Fields

namespace Statechart

open Json

def StateId.toJson (id : StateId) : Value :=
  .ofString id.text

def StateId.ofJson? (value : Value) : Option StateId :=
  value.string?.map StateId.mk

def EventId.toJson (id : EventId) : Value :=
  .ofString id.text

def EventId.ofJson? (value : Value) : Option EventId :=
  value.string?.map EventId.mk

end Statechart
