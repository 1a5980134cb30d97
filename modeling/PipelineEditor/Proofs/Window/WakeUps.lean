import PipelineEditor.Proofs.Event
import PipelineEditor.Proofs.Session.Panels
import PipelineEditor.Window.Frame

/-! Changes of the pipeline as wake-ups. Every round of events ends with bringing the panels in step,
so it makes no difference how many changes a queue holds and where they stand among other events. -/
namespace PipelineEditor

/-- What an event brings to the status line, and whether it is a failure. -/
def Event.news? : Event → Option (String × Bool)
  | .changed => none
  | .focusDue _ => none
  | .info text => some (text, false)
  | .failed report => some (report.statusLine, true)

namespace Panel

/-! A panel that is brought in step earlier than it would be comes out the same. -/

theorem synced_synced (p : Panel) (pipeline : Pipeline) :
    (p.synced pipeline).synced pipeline = p.synced pipeline := by
  unfold synced
  by_cases h : p.stale = true
  · simp only [h, if_true, rebuilt, Bool.false_eq_true, if_false]
  · rw [if_neg h, if_neg h]

theorem received_synced (p : Panel) (pipeline : Pipeline) (e : Event) :
    (p.synced pipeline).received pipeline e = (p.received pipeline e).synced pipeline := by
  cases e with
  | changed => rfl
  | focusDue h =>
    by_cases hs : p.stale = true <;> by_cases ha : p.awaited = some h <;>
      simp [received, synced, rebuilt, hs, ha]
  | info text => rfl
  | failed report => rfl

theorem caughtUp_synced (p : Panel) (pipeline : Pipeline) (events : List Event) :
    (p.synced pipeline).caughtUp pipeline events = p.caughtUp pipeline events := by
  induction events generalizing p with
  | nil => exact synced_synced p pipeline
  | cons e es ih =>
    calc
      (p.synced pipeline).caughtUp pipeline (e :: es)
        = ((p.synced pipeline).received pipeline e).caughtUp pipeline es := rfl
      _ = ((p.received pipeline e).synced pipeline).caughtUp pipeline es := by rw [received_synced]
      _ = (p.received pipeline e).caughtUp pipeline es := ih _

/-- Changes need not be handed to a panel that is brought in step afterwards. -/
theorem caughtUp_filter (p : Panel) (pipeline : Pipeline) (events : List Event) :
    p.caughtUp pipeline (events.filter (· != .changed)) = p.caughtUp pipeline events := by
  induction events generalizing p with
  | nil => rfl
  | cons e es ih =>
    by_cases he : e = .changed
    · subst he
      rw [List.filter_cons_of_neg (by simp), ih]
      exact (caughtUp_synced p pipeline es).symm
    · rw [List.filter_cons_of_pos (by simpa using he)]
      exact ih (p.received pipeline e)

theorem caughtUp_congr (p : Panel) (pipeline : Pipeline) {events events' : List Event}
    (h : events.filter (· != .changed) = events'.filter (· != .changed)) :
    p.caughtUp pipeline events = p.caughtUp pipeline events' := by
  rw [← caughtUp_filter, h, caughtUp_filter]

end Panel

namespace Session

/-- Hands one event to every panel. -/
def hand (s : Session) (e : Event) : Session :=
  (List.range s.panels.length).foldl (fun t i => t.receive i e) s

/-- Brings every panel in step with the pipeline. -/
def syncAll (s : Session) : Session :=
  (List.range s.panels.length).foldl sync s

theorem hand_eq (s : Session) (e : Event) :
    s.hand e = s.modifyAll fun p => p.received s.pipeline e :=
  foldl_modifyPanel s fun pipeline p => p.received pipeline e

theorem syncAll_eq (s : Session) : s.syncAll = s.modifyAll fun p => p.synced s.pipeline :=
  foldl_modifyPanel s fun pipeline p => p.synced pipeline

theorem hand_all (s : Session) (events : List Event) :
    events.foldl hand s =
      s.modifyAll fun p => events.foldl (fun p e => p.received s.pipeline e) p := by
  induction events generalizing s with
  | nil => simp [modifyAll]
  | cons e es ih =>
    rw [List.foldl_cons, ih, hand_eq]
    exact modifyAll_modifyAll s _ _

/-- Panels that take in one event after the other together, and are brought in step then, are as if
each had been served by itself. -/
theorem syncAll_hand_all (s : Session) (events : List Event) :
    (events.foldl hand s).syncAll = s.deliver events := by
  rw [hand_all, syncAll_eq, deliver_eq_modifyAll]
  exact modifyAll_modifyAll s _ _

theorem deliver_congr (s : Session) {events events' : List Event}
    (h : events.filter (· != .changed) = events'.filter (· != .changed)) :
    s.deliver events = s.deliver events' := by
  rw [deliver_eq_modifyAll, deliver_eq_modifyAll]
  congr 1
  funext p
  exact p.caughtUp_congr s.pipeline h

end Session

namespace Window

/-- What the status line shows after events: the last news, or what it showed before. -/
def shownAfter (w : Window) (events : List Event) : String × Bool :=
  (events.filterMap Event.news?).getLastD (w.status, w.statusIsError)

theorem foldl_announce (w : Window) (events : List Event) :
    events.foldl announce w =
      { w with status := (w.shownAfter events).1, statusIsError := (w.shownAfter events).2 } := by
  induction events generalizing w with
  | nil => rfl
  | cons e es ih =>
    rw [List.foldl_cons, ih]
    cases e with
    | changed => rfl
    | focusDue h => rfl
    | info text => simp only [shownAfter, announce, List.filterMap_cons, Event.news?, List.getLastD_cons]
    | failed report =>
      simp only [shownAfter, announce, List.filterMap_cons, Event.news?, List.getLastD_cons]

theorem shownAfter_congr (w : Window) {events events' : List Event}
    (h : events.filter (· != .changed) = events'.filter (· != .changed)) :
    w.shownAfter events = w.shownAfter events' := by
  have silent (es : List Event) :
      es.filterMap Event.news? = (es.filter (· != .changed)).filterMap Event.news? := by
    rw [List.filterMap_filter]
    congr 1
    funext e
    cases e <;> rfl
  rw [shownAfter, shownAfter, silent events, silent events', h]

/-- Events that go to the session and to the status line. -/
theorem foldl_announced (f : Session → Event → Session) (w : Window) (events : List Event) :
    events.foldl (fun w e => (w.onSession fun s => f s e).announce e) w =
      { events.foldl announce w with session := events.foldl f w.session } := by
  induction events generalizing w with
  | nil => rfl
  | cons e es ih =>
    rw [List.foldl_cons, ih]
    cases e <;> simp only [List.foldl_cons, foldl_announce] <;> rfl

/-- Hands one event to every panel and to the status line. -/
def handle (w : Window) (e : Event) : Window :=
  (w.onSession fun s => s.hand e).announce e

/-- Handles events one by one and brings every panel in step with the pipeline. -/
def handleAll (w : Window) (events : List Event) : Window :=
  (events.foldl handle w).onSession Session.syncAll

theorem handleAll_eq (w : Window) (events : List Event) :
    w.handleAll events =
      { w with
        session := w.session.deliver events
        status := (w.shownAfter events).1
        statusIsError := (w.shownAfter events).2 } := by
  unfold handleAll
  rw [show handle = fun w e => (w.onSession fun s => s.hand e).announce e from rfl, foldl_announced,
    foldl_announce, ← Session.syncAll_hand_all]
  rfl

/-- The same for the window's own panel alone. -/
theorem takeEvent_all_eq (w : Window) (events : List Event) :
    ((events.foldl takeEvent w).onSession fun s => s.sync panelIndex) =
      { w with
        session := w.session.modifyPanel panelIndex fun p => p.caughtUp w.session.pipeline events
        status := (w.shownAfter events).1
        statusIsError := (w.shownAfter events).2 } := by
  have panel : (events.foldl (fun s e => s.receive panelIndex e) w.session).sync panelIndex =
      w.session.modifyPanel panelIndex fun p => p.caughtUp w.session.pipeline events := by
    rw [Session.receive_all]
    exact Session.modifyPanel_modifyPanel w.session panelIndex _ _
  rw [show takeEvent = fun w e => (w.onSession fun s => s.receive panelIndex e).announce e from rfl,
    foldl_announced, foldl_announce, ← panel]
  rfl

theorem handleAll_congr (w : Window) {events events' : List Event}
    (h : events.filter (· != .changed) = events'.filter (· != .changed)) :
    w.handleAll events = w.handleAll events' := by
  rw [handleAll_eq, handleAll_eq, w.session.deliver_congr h, w.shownAfter_congr h]

theorem takeEvent_all_congr (w : Window) {events events' : List Event}
    (h : events.filter (· != .changed) = events'.filter (· != .changed)) :
    ((events.foldl takeEvent w).onSession fun s => s.sync panelIndex) =
      (events'.foldl takeEvent w).onSession fun s => s.sync panelIndex := by
  have panel : (fun p : Panel => p.caughtUp w.session.pipeline events) =
      fun p => p.caughtUp w.session.pipeline events' := by
    funext p
    exact p.caughtUp_congr w.session.pipeline h
  rw [takeEvent_all_eq, takeEvent_all_eq, panel, w.shownAfter_congr h]

/-- Draining a queue takes every event out of it that is more than a wake-up, once and in the order
of their arrival. The panels and the status line end up as if the events had been handled one by one
without being coalesced, and as if any other changes had stood among them, whether they are all the
panels of a session or the one of the window. The status line shows the last news of the queue, or
what it showed before. -/
theorem changes_only_wake_up (w : Window) {raw : List Event}
    (h : raw.filter (· != .changed) = w.session.queue.events.filter (· != .changed)) :
    let drained := w.session.queue.drain.1
    let emptied := w.onSession fun s => { s with queue := s.queue.drain.2 }
    let after := emptied.handleAll drained
    drained.filter (· != .changed) = w.session.queue.events.filter (· != .changed) ∧
      emptied.session.queue.events = [] ∧
      w.session.pump = (drained, after.session) ∧
      after = emptied.handleAll raw ∧
      w.takeEvents = ((raw.foldl takeEvent emptied).onSession fun s => s.sync panelIndex) ∧
      (after.status, after.statusIsError) = w.shownAfter w.session.queue.events ∧
      (w.takeEvents.status, w.takeEvents.statusIsError) =
        w.shownAfter w.session.queue.events := by
  intro drained emptied after
  have kept : drained.filter (· != .changed) = w.session.queue.events.filter (· != .changed) :=
    EventQueue.filter_coalesce w.session.queue.events
  have alike : drained.filter (· != .changed) = raw.filter (· != .changed) := kept.trans h.symm
  have shown : emptied.shownAfter drained = w.shownAfter w.session.queue.events :=
    w.shownAfter_congr kept
  have taken : w.takeEvents = (drained.foldl takeEvent emptied).onSession fun s => s.sync panelIndex :=
    rfl
  have pumped : w.session.pump = (drained, emptied.session.deliver drained) := rfl
  refine ⟨kept, rfl, ?_, handleAll_congr emptied alike, ?_, ?_, ?_⟩
  · rw [pumped, show after = _ from handleAll_eq emptied drained]
  · rw [taken, takeEvent_all_congr emptied alike]
  · rw [show after = _ from handleAll_eq emptied drained, ← shown]
  · rw [taken, takeEvent_all_eq, ← shown]

/-- Two panels are stale, one of them waits for the focus, and the changes in the queue are moved to
the end. -/
theorem changes_only_wake_up_moved :
    let s := (Session.start ⟨.empty .standard, some "orders"⟩ 8).runAll
      [.addPanel none, .post (.info "saved"), .finishDeferred, .setMetadata ⟨"sales", ""⟩,
        .post (.info "exported")]
    let w := Window.start s
    let raw : List Event :=
      [.info "saved", .focusDue 1, .info "exported", .changed, .changed, .changed]
    w.session.queue.events =
        [.info "saved", .focusDue 1, .changed, .changed, .info "exported"] ∧
      raw.filter (· != .changed) = w.session.queue.events.filter (· != .changed) ∧
      w.takeEvents.status = "exported" ∧
      w.session.pump.2 =
        ((w.onSession fun s => { s with queue := s.queue.drain.2 }).handleAll raw).session := by
  intro s w raw
  have queued : w.session.queue.events =
      [.info "saved", .focusDue 1, .changed, .changed, .info "exported"] := by
    decide +kernel
  have alike : raw.filter (· != .changed) = w.session.queue.events.filter (· != .changed) := by
    rw [queued]
    decide
  obtain ⟨-, -, pumped, same, -, -, shown⟩ := changes_only_wake_up w alike
  have last : w.shownAfter w.session.queue.events = ("exported", false) := by
    rw [queued]
    rfl
  refine ⟨queued, alike, congrArg Prod.fst (shown.trans last), ?_⟩
  rw [pumped, same]

end Window
end PipelineEditor
