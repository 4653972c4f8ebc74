import Statechart.Proofs.Chart.Tabled

/-!
What a refused freeze leaves behind.

Forests and tables are frozen one part after the other, and a part that was frozen on its own stops
this halfway.  The parts before it have been sealed by then, and in a table its whole group has been
sorted.  Nothing of this is taken back, although the forest or the table itself stays open.
-/

namespace Statechart

variable {δ γ : Type}

namespace FirstClosed

variable {α : Type} {closed : α → Bool} {items : List α}

end FirstClosed

namespace Table

variable {table : Table δ γ}

def hasFrozen (group : TransitionGroup δ γ) : Bool :=
  group.transitions.any Transition.frozen

/-- Where freezing a table stops: in a group, at a transition. -/
structure Blocked (groups : List (TransitionGroup δ γ)) where
  among : FirstClosed hasFrozen groups
  within : FirstClosed Transition.frozen (byPriority among.item.transitions)

namespace Blocked

variable {groups : List (TransitionGroup δ γ)}

/-- The groups before the stop are sealed, and the one with it is sorted and sealed in part. -/
def left (blocked : Blocked groups) : List (TransitionGroup δ γ) :=
  blocked.among.before.map sealedGroup ++
    { blocked.among.item with transitions := blocked.within.left Transition.sealed } ::
      blocked.among.after

def error (blocked : Blocked groups) : BuildError :=
  .configuration (.transitionFrozen blocked.within.item.source blocked.within.item.target
    blocked.within.item.event)

end Blocked

end Table

end Statechart
