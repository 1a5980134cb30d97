import Mathlib.Data.List.Basic
import PipelineEditor.Proofs.Event
import PipelineEditor.Proofs.Session.Focus

/-! What comes of a request for the focus that its panel holds on to. Its task fires once and posts one
event; the panel takes the focus if and only if the queue has room for that event. -/
namespace PipelineEditor

/-- Whether a command makes up the event of a request, for all panels or for one. -/
def Command.forges (i : Nat) (h : Handle) : Command → Bool
  | .post e => e = .focusDue h
  | .onPanel j (.receive e) => j = i ∧ e = .focusDue h
  | _ => false

namespace Panel

/-- A panel that waits for the event of a request. -/
structure Waits (p : Panel) (h : Handle) : Prop where
  awaited : p.awaited = some h
  unready : p.focusReady = false

private theorem Waits.congr {p q : Panel} {h : Handle} (hw : p.Waits h)
    (same : q.awaited = p.awaited ∧ q.focusReady = p.focusReady) : q.Waits h :=
  ⟨same.1.trans hw.awaited, same.2.trans hw.unready⟩

private theorem Waits.received {p : Panel} {h : Handle} (hw : p.Waits h) (pipeline : Pipeline)
    {e : Event} (he : e ≠ .focusDue h) : (p.received pipeline e).Waits h := by
  cases e with
  | changed => exact hw.congr (synced_focus p pipeline)
  | focusDue g =>
    have other : p.awaited ≠ some g := by
      rw [hw.awaited]
      rintro ⟨⟩
      exact he rfl
    simp only [Panel.received, if_neg other]
    exact hw
  | info text => exact hw
  | failed report => exact hw

private theorem Waits.caughtUp {p : Panel} {h : Handle} (hw : p.Waits h) (pipeline : Pipeline)
    {events : List Event} (he : .focusDue h ∉ events) : (p.caughtUp pipeline events).Waits h := by
  apply caughtUp_keeps (·.Waits h) _ _ hw
  · intro q e hm hq
    exact hq.received pipeline fun hf => he (hf ▸ hm)
  · intro q hq
    exact hq.congr (synced_focus q pipeline)

private theorem ready_received {p : Panel} (hr : p.focusReady = true) (pipeline : Pipeline)
    (e : Event) : (p.received pipeline e).focusReady = true := by
  cases e with
  | changed => exact (synced_focus p pipeline).2.trans hr
  | focusDue g =>
    simp only [received]
    split
    · rfl
    · exact hr
  | info text => exact hr
  | failed report => exact hr

private theorem ready_caughtUp {p : Panel} (hr : p.focusReady = true) (pipeline : Pipeline)
    (events : List Event) : (p.caughtUp pipeline events).focusReady = true := by
  apply caughtUp_keeps (·.focusReady = true) _ _ hr
  · exact fun q e _ hq => ready_received hq pipeline e
  · exact fun q hq => (synced_focus q pipeline).2.trans hq

/-- The event of the request makes the focus due, whatever else is handed over with it. -/
private theorem Waits.due {p : Panel} {h : Handle} (hw : p.Waits h) (pipeline : Pipeline)
    {events : List Event} (he : .focusDue h ∈ events) :
    (p.caughtUp pipeline events).focusReady = true := by
  induction events generalizing p with
  | nil => cases he
  | cons e es ih =>
    by_cases hf : e = .focusDue h
    · subst hf
      have ready : (p.received pipeline (.focusDue h)).focusReady = true := by
        simp only [Panel.received, if_pos hw.awaited]
      exact ready_caughtUp ready pipeline es
    · have rest : .focusDue h ∈ es := by
        rcases List.mem_cons.1 he with rfl | rest
        · exact absurd rfl hf
        · exact rest
      exact ih (hw.received pipeline hf) rest

private theorem Waits.after {p : Panel} {h : Handle} (hw : p.Waits h) (s : Session) {i : Nat}
    {c : PanelCommand} (kept : (Command.onPanel i c).supersedes i = false)
    (genuine : (Command.onPanel i c).forges i h = false) : (p.after s c).Waits h := by
  cases hc : c.focuses with
  | false => exact hw.congr (after_focus p s hc)
  | true =>
    cases c with
    | takeFocus => exact ⟨hw.awaited, rfl⟩
    | receive e =>
      have other : e ≠ .focusDue h := by simpa [Command.forges] using genuine
      exact hw.received s.pipeline other
    | openEditor | requestFocus => simp [Command.supersedes] at kept
    | _ => cases hc

private theorem ready_after {p : Panel} (hr : p.focusReady = true) (s : Session) {i : Nat}
    {c : PanelCommand} (kept : (Command.onPanel i c).supersedes i = false)
    (untaken : c ≠ .takeFocus) : (p.after s c).focusReady = true := by
  cases hc : c.focuses with
  | false => exact (after_focus p s hc).2.trans hr
  | true =>
    cases c with
    | takeFocus => exact absurd rfl untaken
    | receive e => exact ready_received hr s.pipeline e
    | openEditor | requestFocus => simp [Command.supersedes] at kept
    | _ => cases hc

end Panel

namespace Session

/-- A panel of a session waits for the event of a request. -/
def Waits (s : Session) (i : Nat) (h : Handle) : Prop :=
  ∃ p, s.panel? i = some p ∧ p.Waits h

/-- The focus of a panel of a session is due. -/
def Ready (s : Session) (i : Nat) : Prop :=
  ∃ p, s.panel? i = some p ∧ p.focusReady = true

private theorem not_drop {i : Nat} {c : Command} (kept : c.supersedes i = false) :
    c ≠ .onPanel i .drop := by
  rintro rfl
  simp [Command.supersedes] at kept

theorem waits_step {s : Session} {i : Nat} {h : Handle} (hw : s.Waits i h) {c : Command}
    (kept : c.supersedes i = false) (genuine : c.forges i h = false)
    (undelivered : c = .pump → .focusDue h ∉ s.queue.events) : (s.step c).2.Waits i h := by
  obtain ⟨p, hp, hw⟩ := hw
  refine ⟨_, panel?_step_of_some hp (not_drop kept), ?_⟩
  have reached : (s.reached c i p).Waits h := by
    cases c with
    | onPanel j command =>
      simp only [Session.reached]
      split
      next hj =>
        subst hj
        exact hw.after s kept genuine
      · exact hw
    | pump =>
      refine hw.caughtUp s.pipeline fun he => undelivered rfl ?_
      exact (EventQueue.mem_coalesce Event.noConfusion _).1 he
    | _ => exact hw
  exact ⟨(panelAfter_focus s c i p).1.trans reached.awaited,
    (panelAfter_focus s c i p).2.trans reached.unready⟩

private theorem ready_step {s : Session} {i : Nat} (hr : s.Ready i) {c : Command}
    (kept : c.supersedes i = false) (untaken : c ≠ .onPanel i .takeFocus) :
    (s.step c).2.Ready i := by
  obtain ⟨p, hp, hr⟩ := hr
  refine ⟨_, panel?_step_of_some hp (not_drop kept), ?_⟩
  rw [(panelAfter_focus s c i p).2]
  cases c with
  | onPanel j command =>
    simp only [Session.reached]
    split
    next hj =>
      subst hj
      exact Panel.ready_after hr s kept fun hc => untaken (hc ▸ rfl)
    · exact hr
  | pump => exact Panel.ready_caughtUp hr s.pipeline _
  | _ => exact hr

theorem ready_pump {s : Session} {i : Nat} {h : Handle} (hw : s.Waits i h)
    (queued : .focusDue h ∈ s.queue.events) : (s.step .pump).2.Ready i := by
  obtain ⟨p, hp, hw⟩ := hw
  refine ⟨_, panel?_step_of_some hp Command.noConfusion, ?_⟩
  rw [(panelAfter_focus s .pump i p).2]
  exact hw.due s.pipeline ((EventQueue.mem_coalesce Event.noConfusion _).2 queued)

/-- A panel that makes a request waits for its event. -/
theorem waits_of_request {s : Session} {c : Command} {i : Nat} {h : Handle}
    (hr : s.request? c = some (i, h)) : (s.step c).2.Waits i h := by
  cases c with
  | onPanel j command =>
    cases command with
    | requestFocus =>
      obtain ⟨p, hp, he⟩ := Option.map_eq_some_iff.1 hr
      obtain ⟨rfl, rfl⟩ := Prod.mk.inj he
      refine ⟨_, panel?_step_of_some hp (by simp), ?_⟩
      rw [panelAfter_of_not_alters (by simp [alters, PanelCommand.saves]), reached, if_pos rfl]
      exact ⟨rfl, rfl⟩
    | openEditor =>
      obtain ⟨name, hn, he⟩ := Option.map_eq_some_iff.1 hr
      obtain ⟨p, hp, hc⟩ := Option.bind_eq_some_iff.1 hn
      obtain ⟨rfl, rfl⟩ := Prod.mk.inj he
      refine ⟨_, panel?_step_of_some hp (by simp), ?_⟩
      rw [panelAfter_of_not_alters (by simp [alters, PanelCommand.saves]), reached, if_pos rfl]
      exact ⟨by simp [Panel.after, Panel.opened, hc], rfl⟩
    | _ => cases hr
  | addPanel clonedFrom =>
    obtain ⟨name, rfl, he⟩ := Option.map_eq_some_iff.1 hr
    obtain ⟨rfl, rfl⟩ := Prod.mk.inj he
    exact ⟨_, (panel?_addPanel s (some name) _).trans (if_pos rfl), rfl, rfl⟩
  | _ => cases hr

/-! The task of a request. -/

/-- The handles whose tasks a command lets fire, in the order in which they do. -/
def fired (s : Session) : Command → List Handle
  | .fire h => if (s.deferral.fire h).1 then [h] else []
  | .finishDeferred => s.deferral.finish.1
  | _ => []

private theorem queueAfter_of_fired {s : Session} {c : Command} {h : Handle}
    (hf : h ∈ s.fired c) :
    s.queueAfter c = ((s.fired c).map Event.focusDue).foldl EventQueue.post s.queue := by
  cases c with
  | fire g =>
    simp only [queueAfter, offered, fired]
    split <;> rfl
  | finishDeferred => rfl
  | _ => cases hf

theorem owed_of_fired {s : Session} {c : Command} {h : Handle} (hf : h ∈ s.fired c) :
    h ∈ s.deferral.owed := by
  cases c with
  | fire g =>
    simp only [fired] at hf
    split at hf
    next hg =>
      rw [List.mem_singleton.1 hf]
      exact List.mem_append_left _ (by simpa [Deferral.fire] using hg)
    · cases hf
  | finishDeferred =>
    simpa [fired, Deferral.finish, Deferral.owed] using hf
  | _ => cases hf

theorem spent_of_fired {s : Session} (hd : s.deferral.Distinct) {c : Command} {h : Handle}
    (hf : h ∈ s.fired c) : (s.step c).2.deferral.Spent h := by
  have past : h < (s.step c).2.deferral.next :=
    Nat.lt_of_lt_of_le (hd.below h (owed_of_fired hf)) (later_step s c).next
  refine ⟨past, ?_⟩
  rw [deferral_step]
  cases c with
  | fire g =>
    simp only [fired] at hf
    split at hf
    next hg =>
      obtain rfl := List.mem_singleton.1 hf
      exact Deferral.not_owed_of_fire hd hg
    · cases hf
  | finishDeferred => exact List.not_mem_nil
  | _ => cases hf

/-- What is known of a handle in a run that does not make its event up: tasks have distinct handles,
and its event is in the queue only after its task has fired. -/
structure Accounted (s : Session) (h : Handle) : Prop where
  distinct : s.deferral.Distinct
  queued : .focusDue h ∈ s.queue.events → s.deferral.Spent h

private theorem distinct_step {s : Session} (hd : s.deferral.Distinct) (c : Command) :
    (s.step c).2.deferral.Distinct := by
  apply deferral_keeps Deferral.Distinct _ _ _ _ _ _ hd
  · exact fun d => Deferral.distinct_start
  · exact fun d g hd => Deferral.distinct_cancel hd g
  · exact fun d g hd => Deferral.distinct_giveWay hd g
  · exact fun d g hd => Deferral.distinct_leave hd g
  · exact fun d g hd => Deferral.distinct_fire hd g
  · exact fun d _ => d.distinct_finish

private theorem mem_offered {s : Session} {c : Command} {h : Handle}
    (hm : .focusDue h ∈ s.offered c) : c = .post (.focusDue h) ∨ h ∈ s.fired c := by
  have asleep : .focusDue h ∉ s.wakeUps := by
    intro hw
    obtain ⟨l, -, hl⟩ := List.mem_filterMap.1 hw
    cases l <;> cases hl
  cases c with
  | post e => exact .inl (by rw [List.mem_singleton.1 hm])
  | fire g =>
    simp only [offered, fired] at hm ⊢
    split at hm
    next hg => exact .inr (by simpa [hg] using hm)
    · cases hm
  | finishDeferred =>
    obtain ⟨g, hg, he⟩ := List.mem_map.1 hm
    obtain rfl := Event.focusDue.inj he
    exact .inr hg
  | _ =>
    simp only [offered] at hm
    split at hm
    · exact absurd hm asleep
    · cases hm

/-- The events after a command are among those before it and those that it posts. -/
private theorem mem_queueAfter {s : Session} {c : Command} {e : Event}
    (he : e ∈ (s.queueAfter c).events) : e ∈ s.queue.events ∨ e ∈ s.offered c := by
  cases c with
  | pump | closeQueue => cases he
  | _ =>
    simp only [queueAfter, EventQueue.foldl_post] at he
    rcases List.mem_append.1 he with before | taken
    · exact .inl before
    · exact .inr (List.mem_of_mem_take taken)

private theorem queued_step {s : Session} {c : Command} {i : Nat} {h : Handle}
    (genuine : c.forges i h = false) (hq : .focusDue h ∈ (s.step c).2.queue.events) :
    .focusDue h ∈ s.queue.events ∨ h ∈ s.fired c := by
  rw [queue_step] at hq
  rcases mem_queueAfter hq with before | posted
  · exact .inl before
  · rcases mem_offered posted with rfl | fires
    · simp [Command.forges] at genuine
    · exact .inr fires

private theorem accounted_step {s : Session} {i : Nat} {h : Handle} (ha : s.Accounted h)
    {c : Command} (genuine : c.forges i h = false) : (s.step c).2.Accounted h := by
  refine ⟨distinct_step ha.distinct c, fun hq => ?_⟩
  rcases queued_step genuine hq with before | fires
  · exact (ha.queued before).later (later_step s c)
  · exact spent_of_fired ha.distinct fires

theorem accounted_runAll {s : Session} {i : Nat} {h : Handle} (ha : s.Accounted h)
    {commands : List Command} (genuine : ∀ c ∈ commands, c.forges i h = false) :
    (s.runAll commands).Accounted h := by
  induction commands generalizing s with
  | nil => exact ha
  | cons c cs ih =>
    obtain ⟨first, rest⟩ := List.forall_mem_cons.1 genuine
    exact ih (accounted_step ha first) rest

/-- The task of a handle is over, and its event is not in the queue. -/
structure Missing (s : Session) (h : Handle) : Prop where
  spent : s.deferral.Spent h
  absent : .focusDue h ∉ s.queue.events

private theorem missing_step {s : Session} {i : Nat} {h : Handle} (hm : s.Missing h) {c : Command}
    (genuine : c.forges i h = false) : (s.step c).2.Missing h := by
  refine ⟨hm.spent.later (later_step s c), fun hq => ?_⟩
  rcases queued_step genuine hq with before | fires
  · exact hm.absent before
  · exact hm.spent.gone (owed_of_fired fires)

/-! A request from one command to the next. -/

/-- As long as the task of a request has not fired, its panel waits. -/
private theorem waits_until_fired {s : Session} {i : Nat} {h : Handle} (hw : s.Waits i h)
    (ha : s.Accounted h) (past : h < s.deferral.next) {commands : List Command}
    (kept : ∀ c ∈ commands, c.supersedes i = false)
    (genuine : ∀ c ∈ commands, c.forges i h = false)
    (owed : h ∈ (s.runAll commands).deferral.owed) : (s.runAll commands).Waits i h := by
  induction commands generalizing s with
  | nil => exact hw
  | cons c cs ih =>
    obtain ⟨kept, keptRest⟩ := List.forall_mem_cons.1 kept
    obtain ⟨genuine, genuineRest⟩ := List.forall_mem_cons.1 genuine
    have undelivered : .focusDue h ∉ s.queue.events := fun hq =>
      (ha.queued hq).gone ((later_runAll s (c :: cs)).owed h past owed)
    exact ih (waits_step hw kept genuine fun _ => undelivered) (accounted_step ha genuine)
      (Nat.lt_of_lt_of_le past (later_step s c).next) keptRest genuineRest owed

/-- As long as the queue is not drained, the panel waits. -/
private theorem waits_until_drained {s : Session} {i : Nat} {h : Handle} (hw : s.Waits i h)
    {commands : List Command} (kept : ∀ c ∈ commands, c.supersedes i = false)
    (genuine : ∀ c ∈ commands, c.forges i h = false) (undrained : .pump ∉ commands) :
    (s.runAll commands).Waits i h := by
  induction commands generalizing s with
  | nil => exact hw
  | cons c cs ih =>
    obtain ⟨kept, keptRest⟩ := List.forall_mem_cons.1 kept
    obtain ⟨genuine, genuineRest⟩ := List.forall_mem_cons.1 genuine
    obtain ⟨other, undrained⟩ := List.ne_and_not_mem_of_not_mem_cons undrained
    exact ih (waits_step hw kept genuine fun hc => absurd hc.symm other) keptRest genuineRest
      undrained

theorem queued_until_drained {s : Session} {e : Event} (he : e ∈ s.queue.events)
    {commands : List Command} (undrained : .pump ∉ commands) (isOpen : .closeQueue ∉ commands) :
    e ∈ (s.runAll commands).queue.events := by
  induction commands generalizing s with
  | nil => exact he
  | cons c cs ih =>
    obtain ⟨noPump, undrained⟩ := List.ne_and_not_mem_of_not_mem_cons undrained
    obtain ⟨noClose, isOpen⟩ := List.ne_and_not_mem_of_not_mem_cons isOpen
    refine ih ?_ undrained isOpen
    rw [queue_step]
    cases c with
    | pump => exact absurd rfl noPump
    | closeQueue => exact absurd rfl noClose
    | _ =>
      simp only [queueAfter, EventQueue.foldl_post]
      exact List.mem_append_left _ he

/-- A panel whose event went missing waits on. -/
private theorem waits_missing {s : Session} {i : Nat} {h : Handle} (hw : s.Waits i h)
    (hm : s.Missing h) {commands : List Command} (kept : ∀ c ∈ commands, c.supersedes i = false)
    (genuine : ∀ c ∈ commands, c.forges i h = false) :
    (s.runAll commands).Waits i h ∧ (s.runAll commands).Missing h := by
  induction commands generalizing s with
  | nil => exact ⟨hw, hm⟩
  | cons c cs ih =>
    obtain ⟨kept, keptRest⟩ := List.forall_mem_cons.1 kept
    obtain ⟨genuine, genuineRest⟩ := List.forall_mem_cons.1 genuine
    exact ih (waits_step hw kept genuine fun _ => hm.absent) (missing_step hm genuine) keptRest
      genuineRest

private theorem ready_until_taken {s : Session} {i : Nat} (hr : s.Ready i)
    {commands : List Command} (kept : ∀ c ∈ commands, c.supersedes i = false)
    (untaken : .onPanel i .takeFocus ∉ commands) : (s.runAll commands).Ready i := by
  induction commands generalizing s with
  | nil => exact hr
  | cons c cs ih =>
    obtain ⟨kept, keptRest⟩ := List.forall_mem_cons.1 kept
    obtain ⟨other, untaken⟩ := List.ne_and_not_mem_of_not_mem_cons untaken
    exact ih (ready_step hr kept (Ne.symm other)) keptRest untaken

theorem room_runAll {s : Session} (hs : s.queue.closed = false) {commands : List Command}
    (isOpen : .closeQueue ∉ commands) :
    (s.runAll commands).queue.room =
      s.queue.capacity - (s.runAll commands).queue.events.length := by
  have bounds : (s.runAll commands).queue.closed = false ∧
      (s.runAll commands).queue.capacity = s.queue.capacity := by
    induction commands generalizing s with
    | nil => exact ⟨hs, rfl⟩
    | cons c cs ih =>
      obtain ⟨other, isOpen⟩ := List.ne_and_not_mem_of_not_mem_cons isOpen
      have first : (s.step c).2.queue.closed = false ∧
          (s.step c).2.queue.capacity = s.queue.capacity := by
        rw [queue_step]
        cases c with
        | closeQueue => exact absurd rfl other
        | pump => exact ⟨hs, rfl⟩
        | _ =>
          simp only [queueAfter, EventQueue.foldl_post]
          exact ⟨hs, trivial⟩
      obtain ⟨closed, capacity⟩ := ih first.1 isOpen
      exact ⟨closed, capacity.trans first.2⟩
  rw [EventQueue.room, bounds.1, bounds.2]
  rfl

/-- Of the events that a command posts for tasks, the queue takes as many as it has room for. -/
theorem queued_iff_room {s : Session} {c : Command} {h : Handle} (hf : h ∈ s.fired c)
    (absent : .focusDue h ∉ s.queue.events) :
    .focusDue h ∈ (s.step c).2.queue.events ↔ (s.fired c).idxOf h < s.queue.room := by
  rw [queue_step, queueAfter_of_fired hf, EventQueue.foldl_post, List.mem_append, ← List.map_take,
    ← List.mem_take_iff_idxOf_lt hf]
  constructor
  · rintro (before | posted)
    · exact absurd before absent
    · obtain ⟨g, hg, he⟩ := List.mem_map.1 posted
      rwa [← Event.focusDue.inj he]
  · exact fun taken => .inr (List.mem_map_of_mem taken)

/-- The course of a request: it is made, its task fires, and then the queue, which is open, is drained
for the next time. Its panel holds on to the request throughout, and does not take the focus after the
queue was drained. Nobody but the task posts or hands over the event. -/
structure Course (s : Session) (i : Nat) (h : Handle) (before : List Command) (request : Command)
    (between : List Command) (run : Command) (waiting rest : List Command) : Prop where
  made : (s.runAll before).request? request = some (i, h)
  fires : h ∈ (s.runAll (before ++ request :: between)).fired run
  kept : ∀ c ∈ between ++ run :: (waiting ++ .pump :: rest), c.supersedes i = false
  genuine : ∀ c ∈ before ++ request :: (between ++ run :: (waiting ++ .pump :: rest)),
    c.forges i h = false
  undrained : .pump ∉ waiting
  isOpen : .closeQueue ∉ before ++ request :: (between ++ run :: waiting)
  untaken : .onPanel i .takeFocus ∉ rest

theorem accounted_vacant (pipeline : Pipeline) (capacity : Nat) (h : Handle) :
    (vacant pipeline capacity).Accounted h :=
  ⟨Deferral.distinct_empty, fun hq => absurd hq List.not_mem_nil⟩

section

variable {s : Session} {i : Nat} {h : Handle} {before between waiting rest : List Command}
  {request run : Command}

private theorem Course.from_fire (hc : s.Course i h before request between run waiting rest) :
    (run.supersedes i = false ∧ run.forges i h = false) ∧
      (∀ c ∈ waiting ++ .pump :: rest, c.supersedes i = false) ∧
        ∀ c ∈ waiting ++ .pump :: rest, c.forges i h = false := by
  obtain ⟨-, kept⟩ := List.forall_mem_append.1 hc.kept
  obtain ⟨keptRun, keptAfter⟩ := List.forall_mem_cons.1 kept
  obtain ⟨-, genuine⟩ := List.forall_mem_append.1 hc.genuine
  obtain ⟨-, genuine⟩ := List.forall_mem_cons.1 genuine
  obtain ⟨-, genuine⟩ := List.forall_mem_append.1 genuine
  obtain ⟨genuineRun, genuineAfter⟩ := List.forall_mem_cons.1 genuine
  exact ⟨⟨keptRun, genuineRun⟩, keptAfter, genuineAfter⟩

/-- When the task of a request fires, its panel waits, and no event of it has been posted. -/
private theorem waits_at_fire (hc : s.Course i h before request between run waiting rest)
    (ha : s.Accounted h) :
    let t := s.runAll (before ++ request :: between)
    t.Waits i h ∧ t.Accounted h ∧ .focusDue h ∉ t.queue.events := by
  intro t
  have kept := (List.forall_mem_append.1 hc.kept).1
  obtain ⟨genuineBefore, genuine⟩ := List.forall_mem_append.1 hc.genuine
  obtain ⟨genuineRequest, genuine⟩ := List.forall_mem_cons.1 genuine
  have genuineBetween := (List.forall_mem_append.1 genuine).1
  have owed : h ∈ t.deferral.owed := owed_of_fired hc.fires
  have made := accounted_step (accounted_runAll ha genuineBefore) genuineRequest
  have split : t = (((s.runAll before).step request).2.runAll between) :=
    runAll_append s before (request :: between)
  have accounted : t.Accounted h := split ▸ accounted_runAll made genuineBetween
  have waits : t.Waits i h := by
    rw [split] at owed ⊢
    exact waits_until_fired (waits_of_request hc.made) made (handle_lt_step hc.made) kept
      genuineBetween owed
  exact ⟨waits, accounted, fun hq => (accounted.queued hq).gone owed⟩

/-- After the task has fired, the fate of the request hangs on whether its event is in the queue. -/
private theorem focus_after_fire (hc : s.Course i h before request between run waiting rest)
    {t : Session} (hw : t.Waits i h) (ht : t.deferral.Spent h) :
    let u := t.runAll (waiting ++ .pump :: rest)
    (.focusDue h ∈ t.queue.events → u.Ready i) ∧ (.focusDue h ∉ t.queue.events → u.Waits i h) := by
  intro u
  obtain ⟨-, kept, genuine⟩ := hc.from_fire
  constructor
  · intro queued
    obtain ⟨keptWaiting, keptRest⟩ := List.forall_mem_append.1 kept
    obtain ⟨genuineWaiting, -⟩ := List.forall_mem_append.1 genuine
    have isOpen : .closeQueue ∉ waiting := fun hm => hc.isOpen (by simp [hm])
    have waits := waits_until_drained hw keptWaiting genuineWaiting hc.undrained
    have ready := ready_pump waits (queued_until_drained queued hc.undrained isOpen)
    have split : u = (((t.runAll waiting).step .pump).2.runAll rest) :=
      runAll_append t waiting (.pump :: rest)
    rw [split]
    exact ready_until_taken ready (List.forall_mem_cons.1 keptRest).2 hc.untaken
  · intro absent
    exact (waits_missing hw ⟨ht, absent⟩ kept genuine).1

end

/-- The focus of a request is due after its course exactly when the queue, as the task of the request
fires, has room for its event behind those of the tasks that fire with it. -/
theorem focus_due_iff_room (pipeline : Pipeline) (capacity : Nat) (i : Nat) (h : Handle)
    (before : List Command) (request : Command) (between : List Command) (run : Command)
    (waiting rest : List Command)
    (hc : (vacant pipeline capacity).Course i h before request between run waiting rest) :
    let s := vacant pipeline capacity
    let t := s.runAll (before ++ request :: between)
    let u := s.runAll (before ++ request :: (between ++ run :: (waiting ++ .pump :: rest)))
    (u.step (.onPanel i .takeFocus)).1 =
      .flag (decide (t.queue.events.length + (t.fired run).idxOf h < capacity)) := by
  intro s t u
  obtain ⟨waits, accounted, absent⟩ := waits_at_fire hc (accounted_vacant pipeline capacity h)
  obtain ⟨⟨keptRun, genuineRun⟩, -, -⟩ := hc.from_fire
  have waits' : (t.step run).2.Waits i h := waits_step waits keptRun genuineRun fun _ => absent
  obtain ⟨ready, lost⟩ := focus_after_fire hc waits' (spent_of_fired accounted.distinct hc.fires)
  have regroup (cs : List Command) :
      before ++ request :: (between ++ cs) = (before ++ request :: between) ++ cs := by simp
  have isOpen : .closeQueue ∉ before ++ request :: between := fun hm =>
    hc.isOpen (regroup _ ▸ List.mem_append_left _ hm)
  have room : t.queue.room = capacity - t.queue.events.length := room_runAll rfl isOpen
  have queued := queued_iff_room hc.fires absent
  rw [room, Nat.lt_sub_iff_add_lt'] at queued
  have split : u = (t.step run).2.runAll (waiting ++ .pump :: rest) :=
    (congrArg s.runAll (regroup _)).trans (runAll_append s _ _)
  rw [← split] at ready lost
  by_cases fits : t.queue.events.length + (t.fired run).idxOf h < capacity
  · obtain ⟨p, hp, due⟩ := ready (queued.2 fits)
    rw [takeFocus_reply hp, due, decide_eq_true fits]
  · obtain ⟨p, hp, forlorn⟩ := lost (mt queued.1 fits)
    rw [takeFocus_reply hp, forlorn.unready, decide_eq_false fits]

/-- The last place in the queue goes to the event of the request. -/
theorem focus_due_iff_room_last :
    let s := vacant (.empty .standard) 2
    let before : List Command := [.addPanel none]
    let between : List Command := [.setMetadata ⟨"orders", ""⟩, .giveWay 1, .leave 1]
    let waiting : List Command := [.post (.info "saved")]
    let rest : List Command := [.onPanel 0 .sync]
    s.Course 0 1 before (.onPanel 0 .requestFocus) between (.fire 1) waiting rest ∧
      ((s.runAll (before ++ .onPanel 0 .requestFocus ::
        (between ++ .fire 1 :: (waiting ++ .pump :: rest)))).step (.onPanel 0 .takeFocus)).1 =
          .flag true := by
  intro s before between waiting rest
  have course : s.Course 0 1 before (.onPanel 0 .requestFocus) between (.fire 1) waiting rest := by
    constructor <;> decide +kernel
  have room : ((s.runAll (before ++ .onPanel 0 .requestFocus :: between)).queue.events.length +
      ((s.runAll (before ++ .onPanel 0 .requestFocus :: between)).fired (.fire 1)).idxOf 1 < 2) := by
    decide +kernel
  have reply := focus_due_iff_room (.empty .standard) 2 0 1 before (.onPanel 0 .requestFocus) between
    (.fire 1) waiting rest course
  exact ⟨course, reply.trans (congrArg Reply.flag (decide_eq_true room))⟩

/-- A request is lost when news has taken the only place in the queue. -/
theorem focus_request_lost :
    let s := vacant (.empty .standard) 1
    let before : List Command := [.addPanel none, .post (.info "saved")]
    s.Course 0 1 before (.onPanel 0 .requestFocus) [] .finishDeferred [] [] ∧
      ((s.runAll (before ++ [.onPanel 0 .requestFocus, .finishDeferred, .pump])).step
        (.onPanel 0 .takeFocus)).1 = .flag false := by
  intro s before
  have course : s.Course 0 1 before (.onPanel 0 .requestFocus) [] .finishDeferred [] [] := by
    constructor <;> decide +kernel
  exact ⟨course, by decide +kernel⟩

end Session
end PipelineEditor
