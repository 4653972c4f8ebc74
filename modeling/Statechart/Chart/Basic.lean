import Statechart.Chart.Table
import Statechart.Hierarchy.Forest

namespace Statechart

variable {δ γ : Type}

structure Chart (δ γ : Type) where
  forest : Forest δ γ
  table : Table δ γ
  /-- Where machines start when nothing else is said. -/
  initial : Option StateId

def Chart.assemble (forest : Forest δ γ) (table : Table δ γ) (initial : Option StateId) :
    Except BuildError (Chart δ γ) :=
  if forest.frozen ∧ table.frozen then
    match initial with
    | none => .ok ⟨forest, table, none⟩
    | some id =>
      if forest.contains id then .ok ⟨forest, table, some id⟩
      else .error (.unknownState id .chartInitial)
  else
    .error (.configuration .partsOpen)

end Statechart
