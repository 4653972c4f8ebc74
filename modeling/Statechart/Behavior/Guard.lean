namespace Statechart

variable {γ : Type}

/--
A condition on the context an event is fired with.  Two predicates are the same guard if they have
the same tag.
-/
inductive Guard (γ : Type) where
  | always
  | predicate (tag : Nat) (test : γ → Bool)

namespace Guard

def check : Guard γ → γ → Bool
  | .always, _ => true
  | .predicate _ test, context => test context

def isAlways : Guard γ → Bool
  | .always => true
  | .predicate _ _ => false

def same : Guard γ → Guard γ → Bool
  | .always, .always => true
  | .predicate tag _, .predicate tag' _ => tag = tag'
  | _, _ => false

@[simp] theorem check_always (context : γ) : always.check context = true :=
  rfl

@[simp] theorem same_self (guard : Guard γ) : guard.same guard = true := by
  cases guard <;> simp [same]

theorem same_comm (guard other : Guard γ) : guard.same other = other.same guard := by
  cases guard <;> cases other <;> simp [same, eq_comm]

end Guard

end Statechart
