import PipelineEditor.Event

/-! What a queue holds after events were posted to it. -/
namespace PipelineEditor.EventQueue

/-- The number of events that a queue still takes. -/
def room (q : EventQueue) : Nat :=
  if q.closed then 0 else q.capacity - q.events.length

/-- A queue takes the events that it has room for, and drops the rest. -/
theorem foldl_post (q : EventQueue) (es : List Event) :
    es.foldl post q = { q with events := q.events ++ es.take q.room } := by
  induction es generalizing q with
  | nil => simp
  | cons e es ih =>
    rw [List.foldl_cons, ih]
    by_cases full : q.closed = true ∨ q.capacity ≤ q.events.length
    · have dropped : q.post e = q := by
        unfold post
        rw [if_pos (by simpa using full)]
      have none : q.room = 0 := by
        unfold room
        rcases full with closed | full
        · rw [if_pos closed]
        · split
          · rfl
          · omega
      rw [dropped, none, List.take_zero, List.take_zero]
    · have taken : q.post e = { q with events := q.events ++ [e] } := by
        unfold post
        rw [if_neg (by simpa using full)]
      have left : q.room = (q.post e).room + 1 := by
        obtain ⟨isOpen, below⟩ := not_or.1 full
        rw [taken]
        unfold room
        rw [if_neg isOpen, if_neg isOpen, List.length_append, List.length_singleton]
        dsimp only
        omega
      rw [left, List.take_succ_cons, taken, List.append_assoc]
      rfl

theorem drain_of_empty {q : EventQueue} (h : q.events = []) : q.drain = ([], q) := by
  obtain ⟨capacity, events, closed⟩ := q
  obtain rfl : events = [] := h
  rfl

/-- Only changes are left out when events are coalesced. -/
theorem filter_coalesce (es : List Event) :
    (coalesce es).filter (· != .changed) = es.filter (· != .changed) := by
  induction es with
  | nil => rfl
  | cons e es ih =>
    by_cases he : e = .changed
    · subst he
      simp [coalesce]
    · rw [coalesce.eq_3 e es he, List.filter_cons, List.filter_cons, ih]

theorem mem_coalesce {e : Event} (he : e ≠ .changed) (es : List Event) :
    e ∈ coalesce es ↔ e ∈ es := by
  have other (ds : List Event) : e ∈ ds ↔ e ∈ ds.filter (· != .changed) := by
    simp [List.mem_filter, he]
  rw [other, filter_coalesce, ← other]

end PipelineEditor.EventQueue
