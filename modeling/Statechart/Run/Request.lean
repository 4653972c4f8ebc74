import Statechart.Run.Machine

namespace Statechart

variable {δ γ : Type}

inductive Request (γ : Type) where
  | start (context : γ)
  | fire (event : EventId) (context : γ)
  | terminate (context : γ)
  deriving DecidableEq

/-- Answers a request; the limit bounds the events that are processed in the course of it. -/
def Machine.answer (limit : Nat) (machine : Machine δ γ) :
    Request γ → Except Interruption (Response δ γ)
  | .start context => machine.start limit context
  | .fire event context => machine.fire limit event context
  | .terminate context => .ok (machine.terminate context)

end Statechart
