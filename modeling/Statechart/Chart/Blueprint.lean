import Statechart.Chart.Assembly

namespace Statechart

variable {δ γ : Type}

/-- A machine type under construction: its layers, the base layer first, and its behavior. -/
structure Blueprint (δ γ : Type) where
  layers : List (Layer δ γ) := []
  registry : Registry δ γ := {}

namespace Blueprint

def addLayer (blueprint : Blueprint δ γ) (layer : Layer δ γ) : Blueprint δ γ :=
  { blueprint with layers := blueprint.layers ++ [layer] }

def addBehavior (blueprint : Blueprint δ γ) (registry : Registry δ γ) : Blueprint δ γ :=
  { blueprint with registry := blueprint.registry.extend registry }

def build (blueprint : Blueprint δ γ) : Except BuildError (Chart δ γ) :=
  if blueprint.layers.isEmpty then
    .error (.configuration .noLayers)
  else
    Chart.ofLayers blueprint.layers.reverse blueprint.registry

end Blueprint

end Statechart
