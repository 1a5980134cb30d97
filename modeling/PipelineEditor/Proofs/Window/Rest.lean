import Mathlib.Data.List.Basic
import PipelineEditor.Proofs.Window.Frames
import PipelineEditor.Proofs.Window.WakeUps
import PipelineEditor.Window.Action

/-! Frames without input. Such a frame takes the events out of the queue, brings the panel in step with
the pipeline and hands out the focus if it is due, and does nothing else. It leaves the window at rest:
further frames without input pass over it until there is another event. -/
namespace PipelineEditor

namespace Panel

/-- The panel after a frame without input. It takes in the events and is brought in step, and if its
editor is open, the name field takes a focus that is due. -/
def drawn (p : Panel) (pipeline : Pipeline) (events : List Event) : Panel :=
  let p := p.caughtUp pipeline events
  if p.expanded then { p with focusReady := false } else p

theorem caughtUp_expanded (p : Panel) (pipeline : Pipeline) (events : List Event) :
    (p.caughtUp pipeline events).expanded = p.expanded := by
  refine caughtUp_keeps (·.expanded = p.expanded) (fun q e _ h => ?_) (fun q h => ?_) rfl
  · exact (received_keeps (·.expanded) (fun _ _ _ => rfl) (fun _ => rfl) q pipeline e).trans h
  · exact (synced_keeps (·.expanded) (fun _ _ _ => rfl) q pipeline).trans h

theorem drawn_of_expanded {p : Panel} (h : p.expanded = true) (pipeline : Pipeline)
    (events : List Event) :
    p.drawn pipeline events = { p.caughtUp pipeline events with focusReady := false } :=
  if_pos ((p.caughtUp_expanded pipeline events).trans h)

theorem drawn_of_collapsed {p : Panel} (h : p.expanded = false) (pipeline : Pipeline)
    (events : List Event) : p.drawn pipeline events = p.caughtUp pipeline events :=
  if_neg (Bool.eq_false_iff.1 ((p.caughtUp_expanded pipeline events).trans h))

/-- Nothing is left of a panel for a frame without input to change. It is in step, and no focus is due
that an open editor could take. -/
structure AtRest (p : Panel) : Prop where
  current : p.stale = false
  answered : p.expanded = true → p.focusReady = false

theorem caughtUp_nil {p : Panel} (current : p.stale = false) (pipeline : Pipeline) :
    p.caughtUp pipeline [] = p :=
  if_neg (Bool.eq_false_iff.1 current)

theorem drawn_of_atRest {p : Panel} (h : p.AtRest) (pipeline : Pipeline) : p.drawn pipeline [] = p := by
  cases he : p.expanded with
  | false => rw [drawn_of_collapsed he, caughtUp_nil h.current]
  | true => rw [drawn_of_expanded he, caughtUp_nil h.current, ← h.answered he]

theorem atRest_drawn (p : Panel) (pipeline : Pipeline) (events : List Event) :
    (p.drawn pipeline events).AtRest := by
  have current : (p.caughtUp pipeline events).stale = false := synced_stale _ pipeline
  cases he : p.expanded with
  | false =>
    rw [drawn_of_collapsed he]
    refine ⟨current, fun expanded => ?_⟩
    rw [caughtUp_expanded, he] at expanded
    cases expanded
  | true =>
    rw [drawn_of_expanded he]
    exact ⟨current, fun _ => rfl⟩

theorem drawn_expanded (p : Panel) (pipeline : Pipeline) (events : List Event) :
    (p.drawn pipeline events).expanded = p.expanded := by
  cases he : p.expanded with
  | false => rw [drawn_of_collapsed he, caughtUp_expanded, he]
  | true =>
    rw [drawn_of_expanded he]
    exact (p.caughtUp_expanded pipeline events).trans he

end Panel

namespace Window

/-! The parts of a frame, with nothing happening in it. -/

theorem takeEvents_eq (w : Window) :
    let s := w.session
    w.takeEvents =
      { w with
        session :=
          { s.modifyPanel panelIndex fun p => p.caughtUp s.pipeline s.queue.drain.1 with
            queue := s.queue.drain.2 }
        status := (w.shownAfter s.queue.events).1
        statusIsError := (w.shownAfter s.queue.events).2 } := by
  intro s
  let emptied := w.onSession fun s => { s with queue := s.queue.drain.2 }
  have shown : emptied.shownAfter s.queue.drain.1 = w.shownAfter s.queue.events :=
    w.shownAfter_congr (EventQueue.filter_coalesce s.queue.events)
  rw [← shown]
  exact takeEvent_all_eq emptied s.queue.drain.1

private theorem typeMetadata_idle (w : Window) : w.typeMetadata .idle = w := by
  unfold typeMetadata editMetadata
  split
  next p hp =>
    have same : w.session.edit panelIndex p.metadata = w.session := by
      refine Session.modifyPanel_eq_self fun q hq => ?_
      rw [Option.some.inj (hp.symm.trans hq)]
    exact congrArg (fun s => { w with session := s }) same
  · rfl

private theorem metadataEditor_idle (w : Window) : w.metadataEditor .idle = w.grantFocus := by
  have unclicked (u : Window) :
      (if !u.editing then u
        else if Input.idle.clicks.contains .save then u.onSession fun s => s.save panelIndex
        else if Input.idle.clicks.contains .cancel then u.onSession fun s => s.reset panelIndex
        else u) = u :=
    ite_self u
  unfold metadataEditor
  dsimp only
  rw [typeMetadata_idle]
  exact unclicked _

private theorem topPanel_idle (w : Window) :
    w.topPanel .idle = if w.editing then w.grantFocus else w := by
  rw [← metadataEditor_idle]
  rfl

private theorem clickStages_idle (w : Window) : w.clickStages .idle = w :=
  List.foldl_fixed' (fun _ => rfl) _

private theorem addStage_idle (w : Window) : w.addStage .idle = (true, w) := by
  have unclicked : (w.form.complete && Input.idle.clicks.contains .addStage) = false :=
    Bool.and_false _
  rw [addStage, if_neg (Bool.eq_false_iff.1 unclicked)]

private theorem exportWindow_idle (w : Window) : w.exportWindow .idle = w := by
  unfold exportWindow
  split <;> rfl

private theorem settleFocus_idle (w : Window) :
    w.settleFocus .idle = { w with focus := w.focus.filter w.hasField } := by
  obtain ⟨session, status, statusIsError, form, focus, kindsShown⟩ := w
  cases focus with
  | none => rfl
  | some field =>
    let w : Window := ⟨session, status, statusIsError, form, some field, kindsShown⟩
    have released (there : Bool) :
        (if !there then { w with focus := none } else w) =
          { w with focus := if there then some field else none } := by
      cases there <;> rfl
    cases field with
    | name | description => exact released w.editing
    | stage | plugin => rfl

private theorem settleKinds_idle (w : Window) : w.settleKinds .idle = w := by
  have shown : (w.kindsShown && Input.idle.key != some .escape) = w.kindsShown := Bool.and_true _
  exact congrArg (fun shown => { w with kindsShown := shown }) shown

theorem frame_idle (w : Window) :
    let taken := w.takeEvents
    w.frame .idle = (true, (if taken.editing then taken.grantFocus else taken).settleFocus .idle) := by
  intro taken
  have unmoved : { taken with focus := Input.idle.focus.getD taken.focus } = taken := rfl
  have unfilled (u : Window) : u.fillForm .idle = u := rfl
  unfold frame
  dsimp only
  rw [unmoved, topPanel_idle, clickStages_idle, unfilled, addStage_idle]
  dsimp only
  rw [if_pos rfl, exportWindow_idle, settleKinds_idle]

/-! A frame without input as a whole. -/

private theorem hasField_congr {u w : Window} (h : u.editing = w.editing) : u.hasField = w.hasField := by
  funext field
  cases field with
  | name | description => exact h
  | stage | plugin => rfl

private theorem filter_hasField {w : Window} (h : w.editing = true) (focus : Option TextField) :
    focus.filter w.hasField = focus := by
  cases focus with
  | none => rfl
  | some field =>
    cases field with
    | name | description => exact if_pos h
    | stage | plugin => rfl

private theorem grantFocus_eq (w : Window) :
    w.grantFocus =
      { w with
        session := w.session.modifyPanel panelIndex fun p => { p with focusReady := false }
        focus := if w.panel?.any (·.focusReady) then some .name else w.focus } := by
  have granted (due : Bool) (s : Session) :
      (if due then { w with session := s, focus := some .name } else { w with session := s }) =
        { w with session := s, focus := if due then some .name else w.focus } := by
    cases due <;> rfl
  exact granted _ _

/-- Whether a frame without input gives the focus to the name field. The editor is open, and a request
is due or comes due with the events that wait. -/
def grants (w : Window) : Bool :=
  w.panel?.any fun p =>
    p.expanded && (p.caughtUp w.session.pipeline w.session.queue.drain.1).focusReady

theorem idle_eq (w : Window) :
    let s := w.session
    w.idle =
      { w with
        session :=
          { s.modifyPanel panelIndex fun p => p.drawn s.pipeline s.queue.drain.1 with
            queue := s.queue.drain.2 }
        status := (w.shownAfter s.queue.events).1
        statusIsError := (w.shownAfter s.queue.events).2
        focus := if w.grants then some .name else w.focus.filter w.hasField } := by
  intro s
  let caughtUp (p : Panel) : Panel := p.caughtUp s.pipeline s.queue.drain.1
  have panel : w.takeEvents.panel? = w.panel?.map caughtUp := by
    rw [takeEvents_eq]
    exact Session.panel?_modifyPanel_self s panelIndex _
  have editing : w.takeEvents.editing = w.editing := by
    unfold Window.editing
    rw [panel]
    cases w.panel? with
    | none => rfl
    | some p => exact p.caughtUp_expanded s.pipeline s.queue.drain.1
  unfold idle
  rw [frame_idle, settleFocus_idle, editing]
  cases he : w.editing with
  | false =>
    have collapsed (p : Panel) (hp : w.panel? = some p) : p.expanded = false := by
      simpa [Window.editing, hp] using he
    have same : s.modifyPanel panelIndex caughtUp =
        s.modifyPanel panelIndex fun p => p.drawn s.pipeline s.queue.drain.1 :=
      Session.modifyPanel_ext fun p hp => (Panel.drawn_of_collapsed (collapsed p hp) _ _).symm
    have denied : w.grants = false := by
      unfold grants
      cases hp : w.panel? with
      | none => rfl
      | some p => rw [Option.any_some, collapsed p hp, Bool.false_and]
    rw [if_neg Bool.false_ne_true, hasField_congr editing, denied, ← same, takeEvents_eq]
    rfl
  | true =>
    obtain ⟨p, hp, expanded⟩ := (Option.any_eq_true _ _).1 he
    have same : (s.modifyPanel panelIndex caughtUp).modifyPanel panelIndex
          (fun p => { p with focusReady := false }) =
        s.modifyPanel panelIndex fun p => p.drawn s.pipeline s.queue.drain.1 :=
      (Session.modifyPanel_modifyPanel s panelIndex _ _).trans
        (Session.modifyPanel_congr hp (Panel.drawn_of_expanded expanded _ _).symm)
    have due : w.takeEvents.panel?.any (·.focusReady) = w.grants := by
      rw [panel, hp, grants, hp, Option.map_some, Option.any_some, Option.any_some, expanded,
        Bool.true_and]
    have opened : w.takeEvents.grantFocus.editing = true :=
      (editing_grantFocus _).trans (editing.trans he)
    rw [if_pos rfl, filter_hasField opened, grantFocus_eq, due, filter_hasField he, ← same,
      takeEvents_eq]
    rfl

private theorem panel?_idle (w : Window) :
    w.idle.panel? = w.panel?.map fun p => p.drawn w.session.pipeline w.session.queue.drain.1 := by
  rw [idle_eq]
  exact Session.panel?_modifyPanel_self w.session panelIndex _

private theorem editing_idle (w : Window) : w.idle.editing = w.editing := by
  unfold editing
  rw [panel?_idle]
  cases w.panel? with
  | none => rfl
  | some p => exact p.drawn_expanded w.session.pipeline w.session.queue.drain.1

/-! Windows at rest. -/

/-- Nothing is left for a frame without input to do. No events wait, the panel is at rest, and the focus
is not on a field that is not there. -/
structure AtRest (w : Window) : Prop where
  drained : w.session.queue.events = []
  panel : ∀ p, w.panel? = some p → p.AtRest
  there : ∀ field ∈ w.focus, w.hasField field = true

/-- Deferred actions do not disturb a window at rest until they fire. -/
theorem AtRest.withDeferral {w : Window} (h : w.AtRest) (d : Deferral) :
    (w.onSession fun s => { s with deferral := d }).AtRest :=
  ⟨h.drained, h.panel, h.there⟩

/-- A frame without input passes over a window at rest. -/
theorem idle_of_atRest {w : Window} (h : w.AtRest) : w.idle = w := by
  have drained : w.session.queue.drain = ([], w.session.queue) := EventQueue.drain_of_empty h.drained
  have panel : w.session.modifyPanel panelIndex (fun p => p.drawn w.session.pipeline []) = w.session :=
    Session.modifyPanel_eq_self fun p hp => Panel.drawn_of_atRest (h.panel p hp) _
  have denied : w.grants = false := by
    unfold grants
    cases hp : w.panel? with
    | none => rfl
    | some p =>
      rw [drained, Option.any_some, Panel.caughtUp_nil (h.panel p hp).current]
      cases he : p.expanded with
      | false => rfl
      | true => exact (h.panel p hp).answered he
  have focus : w.focus.filter w.hasField = w.focus := by
    cases hf : w.focus with
    | none => rfl
    | some field => exact if_pos (h.there field hf)
  rw [idle_eq, drained, h.drained, panel, denied, if_neg Bool.false_ne_true, focus]
  rfl

theorem atRest_idle (w : Window) : w.idle.AtRest where
  drained := by rw [idle_eq]; rfl
  panel p hp := by
    rw [panel?_idle] at hp
    obtain ⟨q, -, rfl⟩ := Option.map_eq_some_iff.1 hp
    exact q.atRest_drawn _ _
  there field hf := by
    rw [hasField_congr (editing_idle w)]
    rw [idle_eq] at hf
    cases granted : w.grants with
    | false =>
      rw [granted, if_neg Bool.false_ne_true] at hf
      exact (Option.mem_filter_iff.1 hf).2
    | true =>
      rw [granted, if_pos rfl] at hf
      obtain rfl : TextField.name = field := Option.some.inj hf
      obtain ⟨p, hp, opened⟩ := (Option.any_eq_true _ _).1 granted
      exact (Option.any_eq_true _ _).2 ⟨p, hp, (Bool.and_eq_true_iff.1 opened).1⟩

/-- A frame without input comes to its end. It empties the queue, and all else that it makes is this:
the panel takes in the events and is brought in step, an open editor takes a focus that is due, and
the status line shows the last news. Nothing that the panels share and no deferred action is touched,
and there is nothing to do at all for such a frame exactly when the window is at rest. So it is after
every such frame, and stays so whatever becomes of the deferred actions as long as none fires. -/
theorem idle_only_catches_up (w : Window) :
    let s := w.session
    let t := w.idle.session
    (w.frame .idle).1 = true ∧
      w.idle =
        { w with
          session :=
            { s.modifyPanel panelIndex fun p => p.drawn s.pipeline s.queue.drain.1 with
              queue := s.queue.drain.2 }
          status := (w.shownAfter s.queue.events).1
          statusIsError := (w.shownAfter s.queue.events).2
          focus := if w.grants then some .name else w.focus.filter w.hasField } ∧
      (t.shared = s.shared ∧ t.deferral = s.deferral ∧ t.journal = s.journal) ∧
      (w.idle = w ↔ w.AtRest) ∧ w.idle.idle = w.idle ∧
      ∀ d : Deferral,
        let u := w.idle.onSession fun s => { s with deferral := d }
        u.idle = u := by
  intro s t
  have whole := idle_eq w
  have rest := atRest_idle w
  refine ⟨by rw [frame_idle], whole, ?_, ?_, idle_of_atRest rest, fun d => ?_⟩
  · rw [show t = _ from congrArg Window.session whole]
    exact ⟨rfl, rfl, rfl⟩
  · exact ⟨fun same => same ▸ rest, idle_of_atRest⟩
  · exact idle_of_atRest (rest.withDeferral d)

end Window
end PipelineEditor
