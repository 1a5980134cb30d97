import PipelineEditor.Proofs.Session.Handles

/-! The focus of name fields. A panel takes the focus once for each of its requests at most, when the
event of its latest request was handed to it, and never for a request that it gave up. -/
namespace PipelineEditor

/-- Whether a command gives up the request for the focus of a panel, or puts one in its place. -/
def Command.supersedes (i : Nat) : Command → Bool
  | .onPanel j .openEditor | .onPanel j .requestFocus | .onPanel j .drop => j = i
  | _ => false

/-- Whether a panel command has to do with requests for the focus. -/
def PanelCommand.focuses : PanelCommand → Bool
  | .openEditor | .requestFocus | .takeFocus | .receive _ => true
  | _ => false

namespace Panel

/-! What becomes of a request when events are handed to its panel. -/

theorem synced_focus (p : Panel) (pipeline : Pipeline) :
    (p.synced pipeline).awaited = p.awaited ∧ (p.synced pipeline).focusReady = p.focusReady :=
  ⟨synced_keeps (·.awaited) (fun _ _ _ => rfl) p pipeline,
    synced_keeps (·.focusReady) (fun _ _ _ => rfl) p pipeline⟩

private theorem received_awaited {p : Panel} {pipeline : Pipeline} {e : Event} {h : Handle}
    (hq : (p.received pipeline e).awaited = some h) :
    p.awaited = some h ∧ (p.received pipeline e).focusReady = p.focusReady := by
  cases e with
  | changed =>
    obtain ⟨ha, hr⟩ := synced_focus p pipeline
    exact ⟨ha.symm.trans hq, hr⟩
  | focusDue g =>
    simp only [received] at hq ⊢
    split at hq
    · cases hq
    next hne => exact ⟨hq, by rw [if_neg hne]⟩
  | info text => exact ⟨hq, rfl⟩
  | failed report => exact ⟨hq, rfl⟩

private theorem received_ready {p : Panel} {pipeline : Pipeline} {e : Event}
    (hq : (p.received pipeline e).focusReady = true) :
    p.focusReady = true ∨ ∃ h, e = .focusDue h ∧ p.awaited = some h := by
  cases e with
  | changed => exact .inl ((synced_focus p pipeline).2.symm.trans hq)
  | focusDue g =>
    simp only [received] at hq
    split at hq
    next ha => exact .inr ⟨g, rfl, ha⟩
    · exact .inl hq
  | info text => exact .inl hq
  | failed report => exact .inl hq

/-- A panel that catches up waits for what it waited for before, and its focus is due if it was or if
the event of the request is among those handed over. -/
private theorem caughtUp_focus (p : Panel) (pipeline : Pipeline) (events : List Event) :
    let q := p.caughtUp pipeline events
    (∀ h, q.awaited = some h → p.awaited = some h ∧ q.focusReady = p.focusReady) ∧
      (q.focusReady = true →
        p.focusReady = true ∨ ∃ h, .focusDue h ∈ events ∧ p.awaited = some h) := by
  apply caughtUp_keeps fun q =>
    (∀ h, q.awaited = some h → p.awaited = some h ∧ q.focusReady = p.focusReady) ∧
      (q.focusReady = true →
        p.focusReady = true ∨ ∃ h, .focusDue h ∈ events ∧ p.awaited = some h)
  · rintro q e he ⟨waits, due⟩
    constructor
    · intro h ha
      obtain ⟨ha, hr⟩ := received_awaited ha
      exact ⟨(waits h ha).1, hr.trans (waits h ha).2⟩
    · intro hr
      rcases received_ready hr with hr | ⟨h, rfl, ha⟩
      · exact due hr
      · exact .inr ⟨h, he, (waits h ha).1⟩
  · rintro q ⟨waits, due⟩
    rw [(synced_focus q pipeline).1, (synced_focus q pipeline).2]
    exact ⟨waits, due⟩
  · exact ⟨fun h ha => ⟨ha, rfl⟩, .inl⟩

theorem after_focus (p : Panel) (s : Session) {c : PanelCommand} (hc : c.focuses = false) :
    (p.after s c).awaited = p.awaited ∧ (p.after s c).focusReady = p.focusReady := by
  cases c with
  | sync => exact synced_focus p s.pipeline
  | press key =>
    simp only [after]
    split
    · exact ⟨rfl, rfl⟩
    · split <;> exact ⟨rfl, rfl⟩
  | run operation =>
    exact ⟨operated_keeps (·.awaited) (fun _ _ _ => rfl) p s operation,
      operated_keeps (·.focusReady) (fun _ _ _ => rfl) p s operation⟩
  | openEditor | requestFocus | takeFocus | receive e => cases hc
  | _ => exact ⟨rfl, rfl⟩

end Panel

namespace Session

/-- Whether a command hands the event of a request to a panel. -/
def delivers (s : Session) (i : Nat) (h : Handle) (c : Command) : Prop :=
  c = .onPanel i (.receive (.focusDue h)) ∨ c = .pump ∧ .focusDue h ∈ s.queue.drain.1

theorem panelAfter_focus (s : Session) (c : Command) (i : Nat) (p : Panel) :
    (s.panelAfter c i p).awaited = (s.reached c i p).awaited ∧
      (s.panelAfter c i p).focusReady = (s.reached c i p).focusReady := by
  unfold panelAfter
  split <;> exact ⟨rfl, rfl⟩

/-- A panel waits for a request that it just made, or for one that it waited for before. -/
private theorem reached_awaited {s : Session} {c : Command} {i : Nat} {p : Panel} {h : Handle}
    (hp : s.panel? i = some p) (hd : c ≠ .onPanel i .drop)
    (ha : (s.reached c i p).awaited = some h) :
    (s.request? c = some (i, h) ∧ (s.reached c i p).focusReady = false) ∨
      (c.supersedes i = false ∧ p.awaited = some h ∧
        (p.focusReady = false → (s.reached c i p).focusReady = false)) := by
  cases c with
  | onPanel j command =>
    by_cases hj : j = i
    · subst hj
      simp only [reached, if_true] at ha ⊢
      cases hc : command.focuses with
      | false =>
        obtain ⟨hw, hr⟩ := Panel.after_focus p s hc
        refine .inr ⟨?_, hw.symm.trans ha, hr.trans⟩
        cases command <;> simp_all [Command.supersedes, PanelCommand.focuses]
      | true =>
        cases command with
        | openEditor =>
          refine .inl ⟨?_, rfl⟩
          obtain ⟨name, hn, rfl⟩ := Option.map_eq_some_iff.1 ha
          simp [request?, hp, hn]
        | requestFocus =>
          refine .inl ⟨?_, rfl⟩
          obtain rfl := Option.some.inj ha
          simp [request?, hp]
        | takeFocus => exact .inr ⟨rfl, ha, fun _ => rfl⟩
        | receive e =>
          obtain ⟨ha', hr⟩ := Panel.received_awaited ha
          exact .inr ⟨rfl, ha', hr.trans⟩
        | _ => cases hc
    · simp only [reached, if_neg hj] at ha ⊢
      refine .inr ⟨?_, ha, id⟩
      cases command <;> simp [Command.supersedes, hj]
  | pump =>
    obtain ⟨ha', hr⟩ := (Panel.caughtUp_focus p s.pipeline s.queue.drain.1).1 h ha
    exact .inr ⟨rfl, ha', hr.trans⟩
  | _ => exact .inr ⟨rfl, ha, id⟩

/-- What a panel waits for after a command is a request that was just made for it, or one that it waited
for before. -/
theorem awaited_step {s : Session} {c : Command} {i : Nat} {q : Panel} {h : Handle}
    (hq : (s.step c).2.panel? i = some q) (ha : q.awaited = some h) :
    (s.request? c = some (i, h) ∧ q.focusReady = false) ∨
      (c.supersedes i = false ∧ ∃ p, s.panel? i = some p ∧ p.awaited = some h ∧
        (p.focusReady = false → q.focusReady = false)) := by
  rcases panel?_step_some hq with ⟨p, hp, hd, rfl⟩ | ⟨clonedFrom, rfl, rfl, rfl⟩
  · rw [(panelAfter_focus s c i p).1] at ha
    rw [(panelAfter_focus s c i p).2]
    rcases reached_awaited hp hd ha with made | ⟨kept, before, ready⟩
    · exact .inl made
    · exact .inr ⟨kept, p, hp, before, ready⟩
  · obtain ⟨name, rfl, rfl⟩ := Option.map_eq_some_iff.1 ha
    exact .inl ⟨rfl, rfl⟩

/-- The focus is due if it was before, or if the event of the request that was waited for is handed
to the panel. -/
private theorem reached_ready {s : Session} {c : Command} {i : Nat} {p : Panel}
    (hd : c ≠ .onPanel i .drop) (hr : (s.reached c i p).focusReady = true) :
    c.supersedes i = false ∧ c ≠ .onPanel i .takeFocus ∧
      (p.focusReady = true ∨ ∃ h, p.awaited = some h ∧ s.delivers i h c) := by
  cases c with
  | onPanel j command =>
    by_cases hj : j = i
    · subst hj
      simp only [reached, if_true] at hr
      cases hc : command.focuses with
      | false =>
        have before := (Panel.after_focus p s hc).2.symm.trans hr
        refine ⟨?_, ?_, .inl before⟩
        · cases command <;> simp_all [Command.supersedes, PanelCommand.focuses]
        · rintro ⟨⟩
          cases hc
      | true =>
        cases command with
        | receive e =>
          refine ⟨rfl, by simp, ?_⟩
          rcases Panel.received_ready hr with hp | ⟨h, rfl, ha⟩
          · exact .inl hp
          · exact .inr ⟨h, ha, .inl rfl⟩
        | openEditor | requestFocus | takeFocus => cases hr
        | _ => cases hc
    · simp only [reached, if_neg hj] at hr
      refine ⟨?_, ?_, .inl hr⟩
      · cases command <;> simp [Command.supersedes, hj]
      · rintro ⟨⟩
        exact hj rfl
  | pump =>
    refine ⟨rfl, by simp, ?_⟩
    rcases (Panel.caughtUp_focus p s.pipeline s.queue.drain.1).2 hr with hp | ⟨h, he, ha⟩
    · exact .inl hp
    · exact .inr ⟨h, ha, .inr ⟨rfl, he⟩⟩
  | _ => exact ⟨rfl, by simp, .inl hr⟩

/-! The history of a request. -/

/-- No command of a row finds that the focus of a panel is due. -/
def Unread (s : Session) (i : Nat) : List Command → Prop
  | [] => True
  | c :: cs =>
    (c = .onPanel i .takeFocus → (s.step c).1 = .flag false) ∧ (s.step c).2.Unread i cs

private theorem unread_concat {s : Session} {i : Nat} {cs : List Command} {c : Command}
    (h : s.Unread i cs)
    (hc : c = .onPanel i .takeFocus → ((s.runAll cs).step c).1 = .flag false) :
    s.Unread i (cs ++ [c]) := by
  induction cs generalizing s with
  | nil => exact ⟨hc, trivial⟩
  | cons d cs ih => exact ⟨h.1, ih h.2 hc⟩

/-- A request of a run that its panel has neither given up nor taken the focus for in what came
since. -/
structure Open (s : Session) (i : Nat) (h : Handle) (before : List Command) (request : Command)
    (since : List Command) : Prop where
  made : (s.runAll before).request? request = some (i, h)
  kept : ∀ c ∈ since, c.supersedes i = false
  unread : ((s.runAll before).step request).2.Unread i since

private theorem open_concat {s : Session} {i : Nat} {h : Handle} {before since : List Command}
    {request c : Command} (ho : s.Open i h before request since) (hc : c.supersedes i = false)
    (ht : c = .onPanel i .takeFocus →
      ((s.runAll (before ++ request :: since)).step c).1 = .flag false) :
    s.Open i h before request (since ++ [c]) := by
  refine ⟨ho.made, ?_, ?_⟩
  · intro d hd
    rcases List.mem_append.1 hd with hd | hd
    · exact ho.kept d hd
    · rw [List.mem_singleton.1 hd]
      exact hc
  · apply unread_concat ho.unread
    intro he
    have := ht he
    rwa [runAll_append] at this

/-- What the requests of a run have come to: those waited for are open, and so are those whose event
was delivered and made the focus due. -/
structure Tracked (s : Session) (commands : List Command) : Prop where
  waiting : ∀ i p h, (s.runAll commands).panel? i = some p → p.awaited = some h →
    p.focusReady = false ∧ ∃ before request since,
      commands = before ++ request :: since ∧ s.Open i h before request since
  due : ∀ i p, (s.runAll commands).panel? i = some p → p.focusReady = true →
    ∃ before request between delivery after h,
      commands = before ++ request :: (between ++ delivery :: after) ∧
        s.Open i h before request (between ++ delivery :: after) ∧
          (s.runAll (before ++ request :: between)).delivers i h delivery

theorem takeFocus_reply {s : Session} {i : Nat} {p : Panel} (hp : s.panel? i = some p) :
    (s.step (.onPanel i .takeFocus)).1 = .flag p.focusReady := by
  simp only [step, hp, onPanel, takeFocus, Option.any_some]

private theorem waiting_concat {s : Session} {commands : List Command} (ht : s.Tracked commands)
    (c : Command) {i : Nat} {q : Panel} {h : Handle}
    (hq : ((s.runAll commands).step c).2.panel? i = some q) (ha : q.awaited = some h) :
    q.focusReady = false ∧ ∃ before request since,
      commands ++ [c] = before ++ request :: since ∧ s.Open i h before request since := by
  rcases awaited_step hq ha with ⟨made, ready⟩ | ⟨kept, p, hp, before, ready⟩
  · -- a request that was just made is open, with nothing since
    exact ⟨ready, commands, c, [], rfl, made, fun _ hd => absurd hd List.not_mem_nil, trivial⟩
  · obtain ⟨hr, before, request, since, rfl, ho⟩ := ht.waiting i p h hp before
    refine ⟨ready hr, before, request, since ++ [c], by simp, open_concat ho kept ?_⟩
    rintro rfl
    rw [takeFocus_reply hp, hr]

private theorem due_concat {s : Session} {commands : List Command} (ht : s.Tracked commands)
    (c : Command) {i : Nat} {q : Panel}
    (hq : ((s.runAll commands).step c).2.panel? i = some q) (hr : q.focusReady = true) :
    ∃ before request between delivery after h,
      commands ++ [c] = before ++ request :: (between ++ delivery :: after) ∧
        s.Open i h before request (between ++ delivery :: after) ∧
          (s.runAll (before ++ request :: between)).delivers i h delivery := by
  rcases panel?_step_some hq with ⟨p, hp, hd, rfl⟩ | ⟨clonedFrom, -, -, rfl⟩
  · rw [(panelAfter_focus _ c i p).2] at hr
    obtain ⟨kept, untaken, hr⟩ := reached_ready hd hr
    -- the focus was due already, or the event of the open request is handed over now
    rcases hr with hr | ⟨h, ha, handed⟩
    · obtain ⟨before, request, between, delivery, after, h, rfl, ho, handed⟩ := ht.due i p hp hr
      refine ⟨before, request, between, delivery, after ++ [c], h, by simp, ?_, handed⟩
      have := open_concat ho kept fun he => absurd he untaken
      simpa using this
    · obtain ⟨-, before, request, since, rfl, ho⟩ := ht.waiting i p h hp ha
      exact ⟨before, request, since, c, [], h, by simp,
        open_concat ho kept fun he => absurd he untaken, handed⟩
  · cases hr

private theorem tracked_concat {s : Session} {commands : List Command} (ht : s.Tracked commands)
    (c : Command) : s.Tracked (commands ++ [c]) := by
  constructor
  · intro i q h hq ha
    rw [runAll_concat] at hq
    exact waiting_concat ht c hq ha
  · intro i q hq hr
    rw [runAll_concat] at hq
    exact due_concat ht c hq hr

private theorem tracked_append {s : Session} {done : List Command} (ht : s.Tracked done)
    (commands : List Command) : s.Tracked (done ++ commands) := by
  induction commands generalizing done with
  | nil => rwa [List.append_nil]
  | cons c cs ih =>
    have := ih (tracked_concat ht c)
    rwa [List.append_assoc] at this

/-- In a run from a session without panels every request is tracked. -/
theorem tracked_runAll (pipeline : Pipeline) (capacity : Nat) (commands : List Command) :
    (vacant pipeline capacity).Tracked commands := by
  have empty : (vacant pipeline capacity).Tracked [] := by
    constructor
    · intro i p h hp
      cases hp
    · intro i p hp
      cases hp
  exact tracked_append empty commands

/-- A panel that finds the focus due was handed the event of its latest request. It has not given the
request up since nor taken the focus for it, and no other request of the run has the handle. -/
theorem focus_of_latest_request (pipeline : Pipeline) (capacity : Nat) (commands : List Command)
    (i : Nat)
    (hf : (((vacant pipeline capacity).runAll commands).step (.onPanel i .takeFocus)).1 =
      .flag true) :
    let s := vacant pipeline capacity
    ∃ before request between delivery after h,
      commands = before ++ request :: (between ++ delivery :: after) ∧
        s.Open i h before request (between ++ delivery :: after) ∧
        (s.runAll (before ++ request :: between)).delivers i h delivery ∧
        ∀ before' request' after' j, commands = before' ++ request' :: after' →
          (s.runAll before').request? request' = some (j, h) →
            before' = before ∧ request' = request ∧ j = i := by
  intro s
  have ready : ∃ p, (s.runAll commands).panel? i = some p ∧ p.focusReady = true := by
    cases hp : (s.runAll commands).panel? i with
    | none =>
      simp only [step] at hf
      rw [hp] at hf
      cases hf
    | some p =>
      rw [takeFocus_reply hp] at hf
      exact ⟨p, rfl, Reply.flag.inj hf⟩
  obtain ⟨p, hp, hr⟩ := ready
  obtain ⟨before, request, between, delivery, after, h, hs, ho, handed⟩ :=
    (tracked_runAll pipeline capacity commands).due i p hp hr
  refine ⟨before, request, between, delivery, after, h, hs, ho, handed, ?_⟩
  intro before' request' after' j hs' hr'
  exact request_unique (hs'.symm.trans hs) hr' ho.made

/-- A request is made anew while the task of the old one can no longer be cancelled, and both tasks
fire before the events are handed over. -/
theorem focus_of_latest_request_overtaken :
    let s := vacant (.empty .standard) 4
    let commands : List Command :=
      [.addPanel none, .onPanel 0 .requestFocus, .giveWay 1, .leave 1, .onPanel 0 .requestFocus,
        .fire 1, .giveWay 2, .leave 2, .fire 2, .pump]
    ((s.runAll commands).step (.onPanel 0 .takeFocus)).1 = .flag true ∧
      ∃ before request between delivery after h,
        commands = before ++ request :: (between ++ delivery :: after) ∧
          s.Open 0 h before request (between ++ delivery :: after) ∧
          (s.runAll (before ++ request :: between)).delivers 0 h delivery := by
  intro s commands
  have due : ((s.runAll commands).step (.onPanel 0 .takeFocus)).1 = .flag true := by
    decide +kernel
  obtain ⟨before, request, between, delivery, after, h, hs, ho, handed, -⟩ :=
    focus_of_latest_request (.empty .standard) 4 commands 0 due
  exact ⟨due, before, request, between, delivery, after, h, hs, ho, handed⟩

end Session
end PipelineEditor
