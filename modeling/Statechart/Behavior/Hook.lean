import Statechart.Ident

namespace Statechart.Hook

def entryAny : String := "entryAny"

def exitAny : String := "exitAny"

def transitAny : String := "transitFromAnyToAny"

def transit (source target : StateId) (event : EventId) : String :=
  "transitFrom" ++ source.text ++ "To" ++ target.text ++ "On" ++ event.text

def transitToAny (source : StateId) (event : EventId) : String :=
  "transitFrom" ++ source.text ++ "ToAnyOn" ++ event.text

def transitFromAny (target : StateId) (event : EventId) : String :=
  "transitFromAnyTo" ++ target.text ++ "On" ++ event.text

def transitAnyOn (event : EventId) : String :=
  "transitFromAnyToAnyOn" ++ event.text

/-- Every hook name that applies to a transition, the most specific first. -/
def forTransition (source target : StateId) (event : EventId) : List String :=
  [transit source target event, transitToAny source event, transitFromAny target event,
    transitAnyOn event, transitAny]

end Statechart.Hook
