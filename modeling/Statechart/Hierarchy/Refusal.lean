import Statechart.Error

namespace Statechart

/-- A refused change: why, and what the changed thing had become by then. -/
structure Refusal (σ : Type) where
  error : BuildError
  left : σ

abbrev Change (σ : Type) := Except (Refusal σ) σ

namespace Change

variable {σ : Type}

/-- What the changed thing is afterwards, whether the change was completed or not. -/
def left : Change σ → σ
  | .ok changed => changed
  | .error refusal => refusal.left

def error? : Change σ → Option BuildError
  | .ok _ => none
  | .error refusal => some refusal.error

def andThen (change : Change σ) (next : σ → Change σ) : Change σ :=
  match change with
  | .ok changed => next changed
  | .error refusal => .error refusal

def each {α : Type} (step : σ → α → Change σ) : List α → σ → Change σ
  | [], state => .ok state
  | item :: rest, state => (step state item).andThen fun state => each step rest state

def toExcept : Change σ → Except BuildError σ
  | .ok changed => .ok changed
  | .error refusal => .error refusal.error

@[simp] theorem left_ok (changed : σ) : left (.ok changed) = changed :=
  rfl

@[simp] theorem left_error (refusal : Refusal σ) : left (.error refusal) = refusal.left :=
  rfl

@[simp] theorem ok_andThen (changed : σ) (next : σ → Change σ) :
    andThen (.ok changed) next = next changed :=
  rfl

@[simp] theorem error_andThen (refusal : Refusal σ) (next : σ → Change σ) :
    andThen (.error refusal) next = .error refusal :=
  rfl

theorem andThen_eq_ok_iff {change : Change σ} {next : σ → Change σ} {final : σ} :
    change.andThen next = .ok final ↔
      ∃ changed, change = .ok changed ∧ next changed = .ok final := by
  cases change with
  | ok changed => simp
  | error refusal => simp

end Change

end Statechart
