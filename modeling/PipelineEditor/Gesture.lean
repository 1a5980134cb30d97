/-! Clicks and key presses on their way through the view. -/
namespace PipelineEditor

/-- A key press, or a click when there is no key, with what its handlers asked for. -/
structure Gesture where
  key : Option Nat
  defaultPrevented : Bool
  propagationStopped : Bool
deriving DecidableEq, Repr

namespace Gesture

def enter : Nat := 13

def escape : Nat := 27

/-- A gesture that no handler has seen. -/
def fresh (key : Option Nat) : Gesture :=
  ⟨key, false, false⟩

/-- Asks that the view does not do what it would do by itself. -/
def preventDefault (g : Gesture) : Gesture :=
  { g with defaultPrevented := true }

/-- Asks that nobody else sees the gesture. -/
def stopPropagation (g : Gesture) : Gesture :=
  { g with propagationStopped := true }

/-- What a handler asks for that dealt with the gesture for good. -/
def consumed (g : Gesture) : Gesture :=
  g.preventDefault.stopPropagation

end Gesture
end PipelineEditor
