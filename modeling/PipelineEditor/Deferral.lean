/-! Actions put off until the current frame is over. Each is a task of three steps: it gives way
once, takes itself off the list of those that can be cancelled, and then fires. -/
namespace PipelineEditor

/-- The number a deferred action is known by. Handles are counted in 64 bits, and the counter is
assumed never to wrap around: here it has no end. -/
abbrev Handle := Nat

/-- A task that can still be cancelled; whether it has given way yet. -/
structure Task where
  handle : Handle
  yielded : Bool
deriving DecidableEq, Repr

/-- The deferred actions: the next handle, the tasks that can be cancelled in the order of their
start, and those that can no longer be cancelled but have not fired. -/
structure Deferral where
  next : Handle
  pending : List Task
  leaving : List Handle
deriving DecidableEq, Repr

namespace Deferral

/-- No actions yet; handles count from one. -/
def empty : Deferral := ⟨1, [], []⟩

/-- Puts off an action. -/
def start (d : Deferral) : Handle × Deferral :=
  (d.next, ⟨d.next + 1, d.pending ++ [⟨d.next, false⟩], d.leaving⟩)

/-- Cancels a task. A handle that is not pending is passed over. -/
def cancel (d : Deferral) (h : Handle) : Deferral :=
  { d with pending := d.pending.filter fun t => t.handle != h }

/-- Cancels all tasks. -/
def cancelAll (d : Deferral) : Deferral :=
  { d with pending := [] }

/-- A task gives way. -/
def giveWay (d : Deferral) (h : Handle) : Deferral :=
  { d with pending := d.pending.map fun t => if t.handle = h then { t with yielded := true } else t }

/-- A task that has given way can no longer be cancelled. -/
def leave (d : Deferral) (h : Handle) : Deferral :=
  if d.pending.contains ⟨h, true⟩ then { d.cancel h with leaving := d.leaving ++ [h] } else d

/-- A leaving task fires: whether there was one, and what is left. -/
def fire (d : Deferral) (h : Handle) : Bool × Deferral :=
  (d.leaving.contains h, { d with leaving := d.leaving.filter (· != h) })

/-- Lets every task finish: the handles in the order in which they fire. Tasks that gave way are
resumed from the last one back to the first. -/
def finish (d : Deferral) : List Handle × Deferral :=
  (d.leaving ++ (d.pending.map (·.handle)).reverse, { d with pending := [], leaving := [] })

end Deferral
end PipelineEditor
