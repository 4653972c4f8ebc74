import Statechart.Ident
import Statechart.Text.Decimal

namespace Statechart

inductive Owner where
  | state (id : StateId)
  | transition (source : StateId) (event : EventId)
  deriving DecidableEq

def Owner.text : Owner → String
  | .state id => "state '" ++ id.text ++ "'"
  | .transition source event =>
    "transition '" ++ source.text ++ "' on '" ++ event.text ++ "'"

inductive Referrer where
  | childOf (parent : StateId)
  | parentOf (child : StateId)
  | chartInitial
  | machineInitial
  | declaration (owner : Owner)
  | stated (text : String)
  deriving DecidableEq

def Referrer.text : Referrer → String
  | .childOf parent => "child of '" ++ parent.text ++ "'"
  | .parentOf child => "parent of '" ++ child.text ++ "'"
  | .chartInitial => "initial state"
  | .machineInitial => "machine initial state"
  | .declaration owner => owner.text
  | .stated text => text

inductive DescriptorFault where
  | badWeight (descriptor raw : String)
  | emptyName (descriptor : String)
  deriving DecidableEq

def DescriptorFault.text : DescriptorFault → String
  | .badWeight descriptor raw =>
    "malformed action descriptor '" ++ descriptor ++ "': weight '" ++ raw ++
      "' is not an integer"
  | .emptyName descriptor => "malformed action descriptor '" ++ descriptor ++ "': empty name"

inductive Cause where
  | stateFrozen (id : StateId)
  | ownParent (id : StateId)
  | otherParent (id existing parent : StateId)
  | forestFrozen
  | cycle (parent child : StateId)
  | tableFrozen
  | transitionFrozen (source target : StateId) (event : EventId)
  | internalTarget (source target : StateId)
  | partsOpen
  | declaredTwice (id : StateId)
  | descriptor (fault : DescriptorFault)
  | descriptorOf (owner : Owner) (fault : DescriptorFault)
  | emptyReference (owner : Owner)
  | internalDeclared (owner : Owner) (target : StateId)
  | guardUnknown (owner : Owner) (name : String)
  | guardUnbound (name : String)
  | noLayers
  | noInitialState
  | unreadableLayer
  | unreadableOptions
  | stated (text : String)
  deriving DecidableEq

def Cause.text : Cause → String
  | .stateFrozen id => "state '" ++ id.text ++ "' cannot be changed after it is finalized"
  | .ownParent id => "state '" ++ id.text ++ "' cannot be its own parent"
  | .otherParent id existing parent =>
    "state '" ++ id.text ++ "' already has parent '" ++ existing.text ++
      "', cannot move it under '" ++ parent.text ++ "'"
  | .forestFrozen => "state tree cannot be changed after it is finalized"
  | .cycle parent child =>
    "attaching '" ++ child.text ++ "' under '" ++ parent.text ++ "' would create a cycle"
  | .tableFrozen => "transition table cannot be changed after it is finalized"
  | .transitionFrozen source target event =>
    "transition '" ++ source.text ++ "' -> '" ++ target.text ++ "' on '" ++ event.text ++
      "' cannot be changed after it is finalized"
  | .internalTarget source target =>
    "internal transition on '" ++ source.text ++ "' must target its source, not '" ++
      target.text ++ "'"
  | .partsOpen => "state model requires a finalized tree and transition table"
  | .declaredTwice id => "state '" ++ id.text ++ "' is declared more than once"
  | .descriptor fault => fault.text
  | .descriptorOf owner fault => owner.text ++ ": Configuration error: " ++ fault.text
  | .emptyReference owner => owner.text ++ ": action reference with empty name"
  | .internalDeclared owner target =>
    "internal " ++ owner.text ++ " must target its source, not '" ++ target.text ++ "'"
  | .guardUnknown owner name => owner.text ++ " uses unknown guard '" ++ name ++ "'"
  | .guardUnbound name => "unknown guard '" ++ name ++ "'"
  | .noLayers => "machine type has no definition"
  | .noInitialState => "machine type declares no initial state"
  | .unreadableLayer => "cannot parse machine definition"
  | .unreadableOptions => "cannot parse machine options"
  | .stated text => text

inductive BuildError where
  | unknownState (state : StateId) (referrer : Referrer)
  | configuration (cause : Cause)
  | several (problems : List BuildError)

namespace BuildError

mutual

def message : BuildError → String
  | .unknownState state referrer =>
    "Invalid state '" ++ state.text ++ "' referenced by " ++ referrer.text
  | .configuration cause => "Configuration error: " ++ cause.text
  | .several problems =>
    "Definition has " ++ Text.showInt problems.length ++ " problems: " ++
      "; ".intercalate (messages problems)

def messages : List BuildError → List String
  | [] => []
  | error :: rest => error.message :: messages rest

end

mutual

def problems : BuildError → List BuildError
  | .several errors => allProblems errors
  | .unknownState state referrer => [.unknownState state referrer]
  | .configuration cause => [.configuration cause]

def allProblems : List BuildError → List BuildError
  | [] => []
  | error :: rest => error.problems ++ allProblems rest

end

mutual

/-- Whether two errors say the same of the same things. -/
def same : BuildError → BuildError → Bool
  | .unknownState state referrer, .unknownState state' referrer' =>
    state = state' && referrer.text = referrer'.text
  | .configuration cause, .configuration cause' => cause.text = cause'.text
  | .several problems, .several problems' => sameAll problems problems'
  | _, _ => false

def sameAll : List BuildError → List BuildError → Bool
  | [], [] => true
  | error :: rest, error' :: rest' => error.same error' && sameAll rest rest'
  | _, _ => false

end

end BuildError

end Statechart
