import Statechart.Behavior.Action
import Statechart.Behavior.Guard
import Statechart.Keyed

namespace Statechart

variable {δ γ : Type}

structure Registry (δ γ : Type) where
  actions : Keyed String (Action δ γ) := []
  guards : Keyed String (Guard γ) := []
  fallback : Option (String → Body δ γ) := none

namespace Registry

def addAction (registry : Registry δ γ) (name : String) (action : Action δ γ) : Registry δ γ :=
  { registry with actions := registry.actions.put name action }

def addGuard (registry : Registry δ γ) (name : String) (guard : Guard γ) : Registry δ γ :=
  { registry with guards := registry.guards.put name guard }

def onMissing (registry : Registry δ γ) (fallback : String → Body δ γ) : Registry δ γ :=
  { registry with fallback := some fallback }

def action? (registry : Registry δ γ) (name : String) : Option (Action δ γ) :=
  registry.actions.get? name

def guard? (registry : Registry δ γ) (name : String) : Option (Guard γ) :=
  registry.guards.get? name

/-- The handler of a name: its action, or one stand-in for all uses of the name. -/
def resolve (registry : Registry δ γ) (name : String) : Handler δ γ :=
  match registry.action? name with
  | some action => .action action
  | none => .standIn name (registry.fallback.map fun fallback => fallback name)

/-- Layers another registry over this one; what it has takes precedence. -/
def extend (base derived : Registry δ γ) : Registry δ γ where
  actions := base.actions.putAll derived.actions
  guards := base.guards.putAll derived.guards
  fallback := derived.fallback.or base.fallback

@[simp] theorem action?_addAction (registry : Registry δ γ) (name wanted : String)
    (action : Action δ γ) :
    (registry.addAction name action).action? wanted =
      if name = wanted then some action else registry.action? wanted :=
  Keyed.get?_put registry.actions name wanted action

@[simp] theorem guard?_addGuard (registry : Registry δ γ) (name wanted : String)
    (guard : Guard γ) :
    (registry.addGuard name guard).guard? wanted =
      if name = wanted then some guard else registry.guard? wanted :=
  Keyed.get?_put registry.guards name wanted guard

def size (registry : Registry δ γ) : Nat :=
  registry.actions.length + registry.guards.length

end Registry

end Statechart
