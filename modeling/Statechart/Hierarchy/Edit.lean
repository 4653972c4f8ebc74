import Statechart.Hierarchy.Forest

namespace Statechart

variable {δ γ : Type}

inductive NodeEdit (δ γ : Type) where
  | setInitial (isInitial : Bool)
  | setFinal (isFinal : Bool)
  | setHistory (history : History)
  | setComposition (composition : Composition)
  | addEntry (slot : Slot δ γ)
  | addExit (slot : Slot δ γ)
  | freeze

def Node.edit (node : Node δ γ) : NodeEdit δ γ → Except BuildError (Node δ γ)
  | .setInitial isInitial => node.setInitial isInitial
  | .setFinal isFinal => node.setFinal isFinal
  | .setHistory history => node.setHistory history
  | .setComposition composition => node.setComposition composition
  | .addEntry slot => node.addEntry slot
  | .addExit slot => node.addExit slot
  | .freeze => node.freeze

inductive ForestEdit (δ γ : Type) where
  | insert (id : StateId)
  | attach (parent child : StateId)
  | change (id : StateId) (edit : NodeEdit δ γ)
  | freeze

/-- Makes a change to a forest; a state that is not there is left alone. -/
def Forest.edit (forest : Forest δ γ) : ForestEdit δ γ → Change (Forest δ γ)
  | .insert id => forest.insert id
  | .attach parent child => forest.attach parent child
  | .change id edit => forest.update id fun node => node.edit edit
  | .freeze => forest.freeze

end Statechart
