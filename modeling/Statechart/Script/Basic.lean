import Statechart.Behavior.Registry
import Statechart.Text.Decimal

namespace Statechart.Script

inductive Condition where
  | constant (truth : Bool)
  | exceeds (bound : Int64)
  | fallsBelow (bound : Int64)
  | equal (value : Int64)
  /-- The least non-negative remainder by a positive modulus. -/
  | residue (modulus remainder : Int64)
  | not (condition : Condition)
  | all (conditions : List Condition)
  | any (conditions : List Condition)

mutual

def Condition.holds (n : Int64) : Condition → Bool
  | .constant truth => truth
  | .exceeds bound => decide (bound < n)
  | .fallsBelow bound => decide (n < bound)
  | .equal value => n == value
  | .residue modulus remainder => n.toInt % modulus.toInt == remainder.toInt
  | .not condition => !condition.holds n
  | .all conditions => allHold n conditions
  | .any conditions => anyHolds n conditions

def allHold (n : Int64) : List Condition → Bool
  | [] => true
  | condition :: rest => condition.holds n && allHold n rest

def anyHolds (n : Int64) : List Condition → Bool
  | [] => false
  | condition :: rest => condition.holds n || anyHolds n rest

end

inductive Fired where
  | unchanged
  | given (context : Int64)
  | increased (amount : Int64)

inductive Instruction where
  | label
  | push (text : String)
  | pushCounter
  | add (amount : Int64)
  | scope
  | fire (event : EventId) (context : Fired)
  | fail (reason : String)
  | ifContext (condition : Condition) (program : List Instruction)
  | ifCounter (condition : Condition) (program : List Instruction)

structure Account where
  trace : List String := []
  counter : Int64 := 0

def describe (scope : Scope Int64) : String :=
  let side (state : Option StateId) := (state.map StateId.text).getD "-"
  side scope.origin ++ ">" ++ side scope.target ++ "@" ++ scope.event.text ++ "#" ++
    Text.showInt scope.context.toInt

abbrev State := Reply Account Int64

def State.push (state : State) (text : String) : State :=
  { state with data := { state.data with trace := state.data.trace ++ [text] } }

def Fired.context (scope : Scope Int64) : Fired → Int64
  | .unchanged => scope.context
  | .given context => context
  | .increased amount => scope.context + amount

mutual

def Instruction.run (name : String) (scope : Scope Int64) (state : State) :
    Instruction → State
  | .label => state.push name
  | .push text => state.push text
  | .pushCounter => state.push (Text.showInt state.data.counter.toInt)
  | .add amount =>
    { state with data := { state.data with counter := state.data.counter + amount } }
  | .scope => state.push (describe scope)
  | .fire event context => { state with fired := state.fired ++ [⟨event, context.context scope⟩] }
  | .fail reason => { state with failure := some reason }
  | .ifContext condition program =>
    if condition.holds scope.context then runProgram name scope state program else state
  | .ifCounter condition program =>
    if condition.holds state.data.counter then runProgram name scope state program else state

def runProgram (name : String) (scope : Scope Int64) (state : State) :
    List Instruction → State
  | [] => state
  | instruction :: rest =>
    let state := instruction.run name scope state
    if state.failure.isSome then state else runProgram name scope state rest

end

def body (program : List Instruction) (label : String) : Body Account Int64 :=
  fun scope data => runProgram label scope ⟨data, [], none⟩ program

def guard (tag : Nat) (condition : Condition) : Guard Int64 :=
  .predicate tag fun context => condition.holds context

end Statechart.Script
