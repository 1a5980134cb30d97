import PipelineEditor.Deferral
import PipelineEditor.Report

/-! Events for the panels and the status line, and the bounded queue they wait in. -/
namespace PipelineEditor

/-- A change of the pipeline, a deferred request for the focus, or news for the status line. -/
inductive Event
  | changed
  | focusDue (handle : Handle)
  | info (text : String)
  | failed (report : Report)
deriving DecidableEq, Repr

namespace Event

def name : Event → String
  | .changed => "config_changed"
  | .focusDue _ => "deferred"
  | .info _ => "info"
  | .failed _ => "error"

end Event

/-- A queue of events in the order of their arrival. -/
structure EventQueue where
  capacity : Nat
  events : List Event
  closed : Bool
deriving DecidableEq, Repr

namespace EventQueue

def empty (capacity : Nat) : EventQueue :=
  ⟨capacity, [], false⟩

/-- Adds an event at the end. A full or closed queue drops it. -/
def post (q : EventQueue) (e : Event) : EventQueue :=
  if q.closed || q.capacity ≤ q.events.length then q else { q with events := q.events ++ [e] }

/-- Drops all events, and those still to come. -/
def close (q : EventQueue) : EventQueue :=
  { q with events := [], closed := true }

/-- The number of events in an open queue. -/
def size? (q : EventQueue) : Option Nat :=
  if q.closed then none else some q.events.length

/-- The events with all changes but the first left out. -/
def coalesce : List Event → List Event
  | [] => []
  | .changed :: es => .changed :: es.filter (· != .changed)
  | e :: es => e :: coalesce es

/-- Takes all events out, repeated changes being one. -/
def drain (q : EventQueue) : List Event × EventQueue :=
  (coalesce q.events, { q with events := [] })

end EventQueue
end PipelineEditor
