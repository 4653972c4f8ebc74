import Statechart.Behavior.Action
import Statechart.Behavior.Guard
import Statechart.Error
import Statechart.Text.Blank

namespace Statechart

variable {δ γ : Type}

inductive ActionRef (δ γ : Type) where
  | written (text : String)
  | named (name : String) (weight : Weight)
  | direct (action : Action δ γ) (weight : Weight)

inductive GuardRef (γ : Type) where
  | named (name : String)
  | direct (guard : Guard γ)

namespace ActionRef

/-- Splits a written descriptor into name and weight. -/
def parse (descriptor : String) : Except DescriptorFault (String × Weight) := do
  let characters := descriptor.toList
  let before := characters.takeWhile (· != ':')
  let weight ←
    match characters.dropWhile (· != ':') with
    | [] => pure Weight.normal
    | _ :: raw =>
      match (Text.integer? (Text.trim raw)).bind Text.word? with
      | some weight => pure weight
      | none => throw (.badWeight descriptor (String.ofList raw))
  match Text.trim before with
  | [] => throw (.emptyName descriptor)
  | name => return (String.ofList name, weight)

end ActionRef

/-- Whether two references denote the same guard. -/
def GuardRef.same : GuardRef γ → GuardRef γ → Bool
  | .named name, .named name' => name = name'
  | .direct guard, .direct guard' => guard.same guard'
  | _, _ => false

end Statechart
