import PipelineEditor.Proofs.History
import PipelineEditor.Proofs.Session.Delivery

/-! Who is behind a deferred task. Panels share the deferred actions, and every task that can still be
cancelled belongs to the one live panel that holds its handle, so that none is left over when a panel
makes another request or is dropped. -/
namespace PipelineEditor.Session

/-- A live panel holds the handle of a request. -/
def Holds (s : Session) (i : Nat) (h : Handle) : Prop :=
  ∃ p, s.panel? i = some p ∧ p.awaited = some h

theorem Waits.holds {s : Session} {i : Nat} {h : Handle} (hw : s.Waits i h) : s.Holds i h := by
  obtain ⟨p, hp, hw⟩ := hw
  exact ⟨p, hp, hw.awaited⟩

theorem handles_withdrawn {d : Deferral} {awaited : Option Handle} {h : Handle} :
    h ∈ (withdrawn d awaited).handles ↔ h ∈ d.handles ∧ awaited ≠ some h := by
  cases awaited with
  | none => simp [withdrawn]
  | some g => simp [withdrawn, Deferral.handles_cancel, @eq_comm _ g h]

theorem owed_withdrawn {d : Deferral} {awaited : Option Handle} {h : Handle} (ho : h ∈ d.owed)
    (other : awaited ≠ some h) : h ∈ (withdrawn d awaited).owed := by
  rcases Deferral.mem_owed.1 ho with leaving | pending
  · refine Deferral.mem_owed.2 (.inl ?_)
    cases awaited <;> exact leaving
  · exact Deferral.mem_owed.2 (.inr (handles_withdrawn.2 ⟨pending, other⟩))

theorem supersedes_of_ne {i j : Nat} (hij : j ≠ i) (command : PanelCommand) :
    (Command.onPanel j command).supersedes i = false := by
  cases command <;> simp [Command.supersedes, hij]

/-- What a command for a panel makes of the deferred actions: it gives up the request of the panel, and
may put another in its place, or it leaves them alone. -/
theorem deferralAfter_onPanel {s : Session} {j : Nat} {p : Panel} (hp : s.panel? j = some p)
    (command : PanelCommand) :
    let c := Command.onPanel j command
    let d := withdrawn s.deferral p.awaited
    (c.supersedes j = true ∧ s.request? c = some (j, s.deferral.next) ∧
      s.deferralAfter c = d.start.2) ∨
    (c.supersedes j = true ∧ s.request? c = none ∧ s.deferralAfter c = d) ∨
    (c.supersedes j = false ∧ s.request? c = none ∧ s.deferralAfter c = s.deferral) := by
  intro c d
  cases command with
  | openEditor =>
    have gives : c.supersedes j = true := by simp [c, Command.supersedes]
    cases copy : p.clonedFrom with
    | none => exact .inr (.inl ⟨gives, by simp [c, d, deferralAfter, request?, hp, copy]⟩)
    | some name => exact .inl ⟨gives, by simp [c, d, deferralAfter, request?, hp, copy]⟩
  | requestFocus =>
    exact .inl ⟨by simp [c, Command.supersedes], by simp [c, d, deferralAfter, request?, hp]⟩
  | drop =>
    exact .inr (.inl ⟨by simp [c, Command.supersedes], rfl, by simp [c, d, deferralAfter, hp]⟩)
  | _ => exact .inr (.inr ⟨rfl, rfl, rfl⟩)

/-- A task that can be cancelled after a command is that of a request just made, or it could be
cancelled before and no panel that holds its handle has given it up. -/
theorem handles_step {s : Session} {c : Command} {h : Handle}
    (hm : h ∈ (s.step c).2.deferral.handles) :
    (∃ i, s.request? c = some (i, h)) ∨
      (h ∈ s.deferral.handles ∧ ∀ i, s.Holds i h → c.supersedes i = false) := by
  rw [deferral_step] at hm
  cases c with
  | onPanel j command =>
    cases hp : s.panel? j with
    | none =>
      have still : h ∈ s.deferral.handles := by
        cases command <;> simpa [deferralAfter, hp] using hm
      refine .inr ⟨still, ?_⟩
      rintro i ⟨q, hq, -⟩
      refine supersedes_of_ne ?_ command
      rintro rfl
      cases hp.symm.trans hq
    | some p =>
      have keeps (kept : p.awaited ≠ some h) (i : Nat) (hi : s.Holds i h) :
          (Command.onPanel j command).supersedes i = false := by
        obtain ⟨q, hq, awaited⟩ := hi
        refine supersedes_of_ne ?_ command
        rintro rfl
        obtain rfl := Option.some.inj (hp.symm.trans hq)
        exact kept awaited
      rcases deferralAfter_onPanel hp command with
        ⟨-, made, after⟩ | ⟨-, -, after⟩ | ⟨kept, -, after⟩
      · rw [after, Deferral.handles_start, List.mem_append, List.mem_singleton, withdrawn_next,
          handles_withdrawn] at hm
        rcases hm with ⟨hm, kept⟩ | rfl
        · exact .inr ⟨hm, keeps kept⟩
        · exact .inl ⟨j, made⟩
      · rw [after, handles_withdrawn] at hm
        exact .inr ⟨hm.1, keeps hm.2⟩
      · refine .inr ⟨after ▸ hm, fun i _ => ?_⟩
        by_cases hij : j = i
        · exact hij ▸ kept
        · exact supersedes_of_ne hij command
  | addPanel clonedFrom =>
    cases clonedFrom with
    | none => exact .inr ⟨hm, fun _ _ => rfl⟩
    | some name =>
      rcases List.mem_append.1 (Deferral.handles_start _ ▸ hm) with hm | hm
      · exact .inr ⟨hm, fun _ _ => rfl⟩
      · exact .inl ⟨s.panels.length, by rw [List.mem_singleton.1 hm]; rfl⟩
  | finishDeferred => exact absurd hm List.not_mem_nil
  | giveWay g => exact .inr ⟨Deferral.handles_giveWay _ g ▸ hm, fun _ _ => rfl⟩
  | leave g => exact .inr ⟨Deferral.handles_leave _ g hm, fun _ _ => rfl⟩
  | _ => exact .inr ⟨hm, fun _ _ => rfl⟩

/-- A task that has still to fire does so, or stays, or it is given up by a panel that holds its
handle. -/
theorem owed_step {s : Session} (hd : s.deferral.Distinct) {c : Command} {h : Handle}
    (ho : h ∈ s.deferral.owed) :
    h ∈ (s.step c).2.deferral.owed ∨ h ∈ s.fired c ∨
      ∃ i, s.Holds i h ∧ c.supersedes i = true := by
  rw [deferral_step]
  cases c with
  | onPanel j command =>
    cases hp : s.panel? j with
    | none =>
      left
      cases command <;> simpa [deferralAfter, hp] using ho
    | some p =>
      by_cases given : p.awaited = some h ∧ (Command.onPanel j command).supersedes j = true
      · exact .inr (.inr ⟨j, ⟨p, hp, given.1⟩, given.2⟩)
      left
      rcases deferralAfter_onPanel hp command with ⟨gives, -, after⟩ | ⟨gives, -, after⟩ | ⟨-, -, after⟩
      · rw [after, Deferral.owed_start]
        exact List.mem_append_left _ (owed_withdrawn ho fun held => given ⟨held, gives⟩)
      · rw [after]
        exact owed_withdrawn ho fun held => given ⟨held, gives⟩
      · rwa [after]
  | addPanel clonedFrom =>
    left
    cases clonedFrom with
    | none => exact ho
    | some name => exact Deferral.owed_start _ ▸ List.mem_append_left _ ho
  | finishDeferred =>
    exact .inr (.inl (by simpa [fired, Deferral.finish, Deferral.owed] using ho))
  | giveWay g => exact .inl ((Deferral.owed_giveWay s.deferral g).symm ▸ ho)
  | leave g => exact .inl ((Deferral.owed_leave hd g).mem_iff.2 ho)
  | fire g =>
    by_cases leaves : h = g ∧ g ∈ s.deferral.leaving
    · obtain ⟨rfl, leaving⟩ := leaves
      exact .inr (.inl (by simp [fired, Deferral.fire, leaving]))
    · left
      rcases Deferral.mem_owed.1 ho with leaving | pending
      · refine Deferral.mem_owed.2 (.inl (List.mem_filter.2 ⟨leaving, ?_⟩))
        simpa using fun same : h = g => leaves ⟨same, same ▸ leaving⟩
      · exact Deferral.mem_owed.2 (.inr pending)
  | _ => exact .inl ho

/-- The task of a request just made can be cancelled. -/
theorem pending_of_request {s : Session} {c : Command} {i : Nat} {h : Handle}
    (made : s.request? c = some (i, h)) : h ∈ (s.step c).2.deferral.handles := by
  rw [request?_eq_some made, deferral_step]
  cases c with
  | onPanel j command =>
    cases hp : s.panel? j with
    | none => cases command <;> simp [request?, hp] at made
    | some p =>
      rcases deferralAfter_onPanel hp command with ⟨-, -, after⟩ | ⟨-, no, -⟩ | ⟨-, no, -⟩
      · rw [after, Deferral.handles_start, withdrawn_next]
        exact List.mem_append_right _ List.mem_cons_self
      · exact absurd (no.symm.trans made) (by simp)
      · exact absurd (no.symm.trans made) (by simp)
  | addPanel clonedFrom =>
    obtain ⟨name, rfl, -⟩ := Option.map_eq_some_iff.1 made
    exact Deferral.handles_start _ ▸ List.mem_append_right _ List.mem_cons_self
  | _ => cases made

/-- A panel holds a handle after a command if it just made the request, or held it before and has not
given it up. -/
theorem holds_step {s : Session} {c : Command} {i : Nat} {h : Handle}
    (held : (s.step c).2.Holds i h) :
    s.request? c = some (i, h) ∨ (c.supersedes i = false ∧ s.Holds i h) := by
  obtain ⟨q, hq, ha⟩ := held
  rcases awaited_step hq ha with ⟨made, -⟩ | ⟨kept, p, hp, before, -⟩
  · exact .inl made
  · exact .inr ⟨kept, p, hp, before⟩

/-! The history of a run. -/

/-- A panel made the request of a handle. -/
def Requested (s : Session) (commands : List Command) (i : Nat) (h : Handle) : Prop :=
  Sometime commands fun before request => (s.runAll before).request? request = some (i, h)

/-- The task of a handle has fired. -/
def HasFired (s : Session) (commands : List Command) (h : Handle) : Prop :=
  Sometime commands fun before run => h ∈ (s.runAll before).fired run

/-- The task of a handle has fired when the queue was full, or filled up by those that fired with it. -/
def Lost (s : Session) (commands : List Command) (h : Handle) : Prop :=
  Sometime commands fun before run =>
    h ∈ (s.runAll before).fired run ∧
      s.queue.capacity ≤
        (s.runAll before).queue.events.length + ((s.runAll before).fired run).idxOf h

/-- The task of a handle has run: it can no longer be cancelled, whether or not it has fired yet. -/
def HasRun (s : Session) (commands : List Command) (h : Handle) : Prop :=
  h ∈ (s.runAll commands).deferral.leaving ∨ s.HasFired commands h

section

variable (pipeline : Pipeline) (capacity : Nat) {commands : List Command} {i j : Nat} {h : Handle}

/-- A panel that holds a handle waits for it, and made its request. -/
theorem waits_of_holds (held : ((vacant pipeline capacity).runAll commands).Holds i h) :
    ((vacant pipeline capacity).runAll commands).Waits i h ∧
      (vacant pipeline capacity).Requested commands i h := by
  obtain ⟨p, hp, awaited⟩ := held
  obtain ⟨unready, before, request, since, cut, made⟩ :=
    (tracked_runAll pipeline capacity commands).waiting i p h hp awaited
  exact ⟨⟨p, hp, awaited, unready⟩, before, request, since, cut, made.made⟩

theorem requested_unique {s : Session} (hi : s.Requested commands i h)
    (hj : s.Requested commands j h) : i = j := by
  obtain ⟨before, request, after, cut, made⟩ := hi
  obtain ⟨before', request', after', cut', made'⟩ := hj
  exact (request_unique (cut.symm.trans cut') made made').2.2

theorem holds_unique (hi : ((vacant pipeline capacity).runAll commands).Holds i h)
    (hj : ((vacant pipeline capacity).runAll commands).Holds j h) : i = j :=
  requested_unique (waits_of_holds pipeline capacity hi).2 (waits_of_holds pipeline capacity hj).2

variable (genuine : ∀ c ∈ commands, ∀ i h, c.forges i h = false)

include genuine

theorem accounted_run (h : Handle) : ((vacant pipeline capacity).runAll commands).Accounted h :=
  accounted_runAll (accounted_vacant pipeline capacity h) fun c hc => genuine c hc 0 h

theorem spent_of_hasFired (past : (vacant pipeline capacity).HasFired commands h) :
    ((vacant pipeline capacity).runAll commands).deferral.Spent h := by
  obtain ⟨before, run, after, rfl, fires⟩ := past
  have distinct := (accounted_run pipeline capacity
    (fun c hc => genuine c (List.mem_append_left _ hc)) h).distinct
  rw [runAll_append]
  exact (spent_of_fired distinct fires).later (later_runAll _ after)

omit genuine in
private theorem genuine_concat {c : Command}
    (genuine : ∀ d ∈ commands ++ [c], ∀ i h, d.forges i h = false) :
    (∀ d ∈ commands, ∀ i h, d.forges i h = false) ∧ ∀ i h, c.forges i h = false := by
  obtain ⟨before, last⟩ := List.forall_mem_append.1 genuine
  exact ⟨before, last c List.mem_cons_self⟩

/-- Every task that can be cancelled belongs to a panel. -/
theorem exists_holds (hm : h ∈ ((vacant pipeline capacity).runAll commands).deferral.handles) :
    ∃ i, ((vacant pipeline capacity).runAll commands).Holds i h := by
  induction commands using List.reverseRecOn with
  | nil => exact absurd hm List.not_mem_nil
  | append_singleton commands c ih =>
    obtain ⟨genuine, last⟩ := genuine_concat genuine
    rw [runAll_concat] at hm ⊢
    rcases handles_step hm with ⟨i, made⟩ | ⟨pending, kept⟩
    · exact ⟨i, (waits_of_request made).holds⟩
    · obtain ⟨i, held⟩ := ih genuine pending
      -- the event of a task that can still be cancelled is not in the queue, so that no drain hands
      -- it over
      have unqueued : .focusDue h ∉ ((vacant pipeline capacity).runAll commands).queue.events :=
        fun queued => ((accounted_run pipeline capacity genuine h).queued queued).gone
          (Deferral.mem_owed.2 (.inr pending))
      have waits := (waits_of_holds pipeline capacity held).1
      exact ⟨i, (waits_step waits (kept i held) (last i h) fun _ => unqueued).holds⟩

/-- As the task of a handle fires, its event is queued or lost, unless the queue is closed. -/
theorem queued_or_lost {c : Command}
    (fires : h ∈ ((vacant pipeline capacity).runAll commands).fired c) :
    .focusDue h ∈ (((vacant pipeline capacity).runAll commands).step c).2.queue.events ∨
      (vacant pipeline capacity).Lost (commands ++ [c]) h ∨ .closeQueue ∈ commands := by
  by_cases isOpen : .closeQueue ∈ commands
  · exact .inr (.inr isOpen)
  have unqueued : .focusDue h ∉ ((vacant pipeline capacity).runAll commands).queue.events :=
    fun queued => ((accounted_run pipeline capacity genuine h).queued queued).gone
      (owed_of_fired fires)
  by_cases queued :
      .focusDue h ∈ (((vacant pipeline capacity).runAll commands).step c).2.queue.events
  · exact .inl queued
  · have full := mt (queued_iff_room fires unqueued).2 queued
    rw [room_runAll rfl isOpen] at full
    exact .inr (.inl (.now ⟨fires, by omega⟩))

/-- A handle that is held is that of a task that has still to fire, or of one whose event is queued, or
was lost. -/
theorem fate_of_held (held : ((vacant pipeline capacity).runAll commands).Holds i h) :
    h ∈ ((vacant pipeline capacity).runAll commands).deferral.owed ∨
      ((vacant pipeline capacity).HasFired commands h ∧
        (.focusDue h ∈ ((vacant pipeline capacity).runAll commands).queue.events ∨
          (vacant pipeline capacity).Lost commands h ∨ .closeQueue ∈ commands)) := by
  induction commands using List.reverseRecOn with
  | nil =>
    obtain ⟨p, hp, -⟩ := held
    cases hp
  | append_singleton commands c ih =>
    obtain ⟨genuine, last⟩ := genuine_concat genuine
    have waits := (waits_of_holds pipeline capacity held).1
    rw [runAll_concat] at held waits ⊢
    rcases holds_step held with made | ⟨kept, before⟩
    · exact .inl (Deferral.mem_owed.2 (.inr (pending_of_request made)))
    rcases ih genuine before with owed | ⟨fired, fate⟩
    · rcases owed_step (accounted_run pipeline capacity genuine h).distinct owed with
        owed | fires | ⟨j, holder, gives⟩
      · exact .inl owed
      · refine .inr ⟨.now fires, ?_⟩
        rcases queued_or_lost pipeline capacity genuine fires with queued | lost | closed
        · exact .inl queued
        · exact .inr (.inl lost)
        · exact .inr (.inr (List.mem_append_left _ closed))
      · obtain rfl := holds_unique pipeline capacity before holder
        cases kept.symm.trans gives
    · refine .inr ⟨fired.concat c, ?_⟩
      rcases fate with queued | lost | closed
      · by_cases closes : c = .closeQueue
        · exact .inr (.inr (by simp [closes]))
        · -- a drain would have made the focus due
          have undrained : Command.pump ∉ [c] := by
            intro drained
            obtain rfl := List.mem_singleton.1 drained
            obtain ⟨p, hp, ready⟩ := ready_pump (waits_of_holds pipeline capacity before).1 queued
            obtain ⟨q, hq, waits⟩ := waits
            obtain rfl := Option.some.inj (hp.symm.trans hq)
            cases ready.symm.trans waits.unready
          have isOpen : Command.closeQueue ∉ [c] := fun closing =>
            closes (List.mem_singleton.1 closing).symm
          exact .inl (queued_until_drained queued undrained isOpen)
      · exact .inr (.inl (lost.concat c))
      · exact .inr (.inr (List.mem_append_left _ closed))

end

/-- Deferred tasks do not outlive their panels. At any time of a run in which nobody makes up events of
tasks, the tasks that can be cancelled are those of the handles that live panels hold and whose task has
not run, each held by the panel that asked for it. So a panel has at most one such task, and one that was
dropped has none. If the task of a handle that is held has fired, its event is in the queue, or was lost
because the queue was full or was closed. Every request adds such a task. -/
theorem pending_tasks_held (pipeline : Pipeline) (capacity : Nat) (commands : List Command)
    (genuine : ∀ c ∈ commands, ∀ i h, c.forges i h = false) :
    let s := vacant pipeline capacity
    let t := s.runAll commands
    t.deferral.handles.Nodup ∧
    (∀ h, h ∈ t.deferral.handles ↔ (∃ i, t.Holds i h) ∧ ¬s.HasRun commands h) ∧
    (∀ i h, t.Holds i h → s.Requested commands i h) ∧
    (∀ i j h, t.Holds i h → t.Holds j h → i = j) ∧
    (∀ i h g, s.Requested commands i h → s.Requested commands i g →
      h ∈ t.deferral.handles → g ∈ t.deferral.handles → h = g) ∧
    (∀ i h, t.panel? i = none → s.Requested commands i h → h ∉ t.deferral.handles) ∧
    (∀ i h, t.Holds i h → s.HasFired commands h →
      .focusDue h ∈ t.queue.events ∨ s.Lost commands h ∨ .closeQueue ∈ commands) ∧
    (∀ c i h, t.request? c = some (i, h) →
      (t.step c).2.Holds i h ∧ h ∈ (t.step c).2.deferral.handles) := by
  intro s t
  have distinct : t.deferral.Distinct := (accounted_run pipeline capacity genuine 0).distinct
  have pending_owed {h : Handle} (hm : h ∈ t.deferral.handles) : h ∈ t.deferral.owed :=
    Deferral.mem_owed.2 (.inr hm)
  have unfired {h : Handle} (ho : h ∈ t.deferral.owed) : ¬s.HasFired commands h := fun past =>
    (spent_of_hasFired pipeline capacity genuine past).gone ho
  -- the panel that asked for a task is the one that holds its handle
  have requester {i : Nat} {h : Handle} (asked : s.Requested commands i h)
      (hm : h ∈ t.deferral.handles) : t.Holds i h := by
    obtain ⟨j, held⟩ := exists_holds pipeline capacity genuine hm
    rwa [requested_unique asked (waits_of_holds pipeline capacity held).2]
  refine ⟨?_, fun h => ⟨fun hm => ⟨?_, ?_⟩, ?_⟩, ?_, ?_, ?_, ?_, ?_, ?_⟩
  · exact distinct.handles_nodup
  · exact exists_holds pipeline capacity genuine hm
  · rintro (leaving | fired)
    · exact distinct.not_leaving hm leaving
    · exact unfired (pending_owed hm) fired
  · rintro ⟨⟨i, held⟩, idle⟩
    rcases fate_of_held pipeline capacity genuine held with owed | ⟨fired, -⟩
    · exact (Deferral.mem_owed.1 owed).resolve_left fun leaving => idle (.inl leaving)
    · exact absurd (.inr fired) idle
  · exact fun i h held => (waits_of_holds pipeline capacity held).2
  · exact fun i j h hi hj => holds_unique pipeline capacity hi hj
  · intro i h g askedH askedG hm gm
    obtain ⟨p, hp, held⟩ := requester askedH hm
    obtain ⟨q, hq, held'⟩ := requester askedG gm
    obtain rfl := Option.some.inj (hp.symm.trans hq)
    exact Option.some.inj (held.symm.trans held')
  · intro i h gone asked hm
    obtain ⟨p, hp, -⟩ := requester asked hm
    cases gone.symm.trans hp
  · intro i h held fired
    rcases fate_of_held pipeline capacity genuine held with owed | ⟨-, fate⟩
    · exact absurd fired (unfired owed)
    · exact fate
  · exact fun c i h made => ⟨(waits_of_request made).holds, pending_of_request made⟩

/-- One panel waits for an event that was lost; the task of the other one can be cancelled. -/
theorem pending_tasks_held_lost :
    let s := vacant (.empty .standard) 1
    let commands : List Command :=
      [.addPanel none, .addPanel none, .post (.info "saved"), .onPanel 0 .requestFocus,
        .finishDeferred, .onPanel 1 .requestFocus]
    (∀ c ∈ commands, ∀ i h, c.forges i h = false) ∧
      (∃ i, (s.runAll commands).Holds i 2) ∧ ¬s.HasRun commands 2 ∧ s.Lost commands 1 := by
  intro s commands
  have genuine : ∀ c ∈ commands, ∀ i h, c.forges i h = false := by
    simp [commands, Command.forges]
  have run := pending_tasks_held (.empty .standard) 1 commands genuine
  have pending : 2 ∈ (s.runAll commands).deferral.handles := by decide +kernel
  have fired : s.HasFired commands 1 :=
    ⟨commands.take 4, .finishDeferred, [.onPanel 1 .requestFocus], rfl, by decide +kernel⟩
  have held : (s.runAll commands).Holds 0 1 := ⟨_, rfl, by decide +kernel⟩
  obtain ⟨holder, idle⟩ := (run.2.1 2).1 pending
  refine ⟨genuine, holder, idle, ?_⟩
  rcases run.2.2.2.2.2.2.1 0 1 held fired with queued | lost | closed
  · exact absurd queued (by decide +kernel)
  · exact lost
  · exact absurd closed (by simp [commands])

end PipelineEditor.Session
