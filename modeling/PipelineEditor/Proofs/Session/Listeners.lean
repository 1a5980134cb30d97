import PipelineEditor.Proofs.Event
import PipelineEditor.Proofs.Session.Underway

/-! Who is told of a change of the pipeline. Every panel that was ever added has a listener, which
stays when the panel is dropped; a change calls each of them once, and each posts its event. -/
namespace PipelineEditor

/-- The number of the panel that a listener belongs to. -/
def Listener.index? : Listener → Option Nat
  | .panel i => some i
  | .observer _ => none

/-- Whether a command adds a panel. -/
def Command.addsPanel : Command → Bool
  | .addPanel _ => true
  | _ => false

namespace Session

/-! The number of panels, of which those that were dropped are part. -/

private theorem length_modifyPanel (s : Session) (i : Nat) (f : Panel → Panel) :
    (s.modifyPanel i f).panels.length = s.panels.length :=
  List.length_modify _ _ _

private theorem length_tellAll (s : Session) : s.tellAll.panels.length = s.panels.length :=
  tellAll_keeps (·.panels.length) (fun _ _ => rfl) (fun _ _ => rfl) length_modifyPanel s

private theorem length_save (s : Session) (i : Nat) :
    (s.save i).panels.length = s.panels.length := by
  unfold save
  split
  · rfl
  · exact (length_modifyPanel _ i _).trans (length_tellAll _)

private theorem length_run (s : Session) (i : Nat) (operation : Operation) :
    (s.run i operation).panels.length = s.panels.length := by
  cases operation with
  | settings => exact length_modifyPanel s i _
  | exportDocument => rfl
  | save => exact (congrArg (fun t : Session => t.panels.length) (saveDraft_eq s) :)
  | validate =>
    change (s.validateFor i).panels.length = _
    simp only [validateFor, validate]
    split
    · rfl
    · exact length_modifyPanel _ i _
  | publish =>
    have kept : s.publish.panels = s.panels := (congrArg Session.panels (publish_eq s) :)
    exact (length_modifyPanel _ i _).trans (congrArg List.length kept)

private theorem length_onPanel {s : Session} {i : Nat} {p : Panel} (hp : s.panel? i = some p)
    (c : PanelCommand) : (s.onPanel i p c).2.panels.length = s.panels.length := by
  cases c with
  | openEditor =>
    change (s.openEditor i).panels.length = _
    rw [openEditor_eq hp]
    exact length_modifyPanel s i _
  | requestFocus =>
    change (s.requestFocus i).panels.length = _
    rw [requestFocus_eq hp]
    exact length_modifyPanel s i _
  | drop =>
    change (s.dropPanel i).panels.length = _
    rw [dropPanel, dropFocus_eq hp]
    exact (List.length_modify _ _ _).trans (length_modifyPanel s i _)
  | save key => exact length_save s i
  | press key =>
    change (s.press i key).2.panels.length = _
    unfold press
    split
    · exact length_save s i
    · split
      · exact (length_modifyPanel _ i _).trans (length_modifyPanel s i _)
      · rfl
  | reset key => exact (length_modifyPanel _ i _).trans (length_modifyPanel s i _)
  | run operation => exact length_run s i operation
  | _ => exact length_modifyPanel s i _

/-- Panels come one by one, and their places stay. -/
theorem length_step (s : Session) (c : Command) :
    (s.step c).2.panels.length = s.panels.length + if c.addsPanel then 1 else 0 := by
  cases c with
  | addPanel clonedFrom =>
    cases clonedFrom with
    | none => exact List.length_append
    | some name =>
      change (s.addPanel (some name)).panels.length = _
      rw [addPanel_some]
      exact (length_modifyPanel _ _ _).trans List.length_append
  | onPanel i command =>
    simp only [step]
    cases hp : s.panel? i with
    | none => rfl
    | some p => exact length_onPanel hp command
  | finishDeferred => exact finishDeferred_keeps (·.panels.length) (fun _ _ => rfl) s
  | fire h =>
    simp only [step]
    split <;> rfl
  | pump => exact deliver_keeps (·.panels.length) length_modifyPanel _ _
  | setMetadata m => exact length_tellAll _
  | addStage name plugin =>
    simp only [step, addStage]
    cases nextId? s.pipeline.graph.stages with
    | none => rfl
    | some id => exact length_tellAll _
  | saveDraft => exact (congrArg (fun t : Session => t.panels.length) (saveDraft_eq s) :)
  | publish => exact (congrArg (fun t : Session => t.panels.length) (publish_eq s) :)
  | validate verbose =>
    simp only [step, validate]
    split <;> rfl
  | _ => rfl

theorem length_runAll (s : Session) (commands : List Command) :
    (s.runAll commands).panels.length = s.panels.length + commands.countP Command.addsPanel := by
  induction commands generalizing s with
  | nil => rfl
  | cons c cs ih =>
    refine (ih (s.step c).2).trans ?_
    rw [length_step, List.countP_cons]
    omega

/-! The listeners of panels. -/

/-- The listeners of panels are those of all panels there ever were, in the order of their coming. -/
def Registered (s : Session) : Prop :=
  s.listeners.filterMap Listener.index? = List.range s.panels.length

theorem registered_step {s : Session} (h : s.Registered) (c : Command) :
    (s.step c).2.Registered := by
  unfold Registered at *
  rw [listeners_step, List.filterMap_append, h, length_step]
  cases c with
  | addPanel clonedFrom => exact List.range_succ.symm
  | observe => exact List.append_nil _
  | _ => exact List.append_nil _

theorem registered_runAll (opening : Opening) (capacity : Nat) (commands : List Command) :
    ((start opening capacity).runAll commands).Registered := by
  have vacant : (vacant opening.pipeline capacity).Registered := rfl
  apply runAll_keeps Registered fun s c h => registered_step h c
  rw [start_eq]
  exact registered_step vacant _

theorem wakeUps_eq {s : Session} (h : s.Registered) :
    s.wakeUps = List.replicate s.panels.length .changed := by
  have events : Listener.wakeUp? = fun l => l.index?.map fun _ => .changed := by
    funext l
    cases l <;> rfl
  rw [wakeUps, events, ← List.map_filterMap, h, List.map_const', List.length_range]

/-- A command that changes the pipeline notes each listener, and offers the queue their events. -/
private theorem underway_alters {s : Session} {c : Command} (h : s.alters c = true) :
    s.offered c = s.wakeUps ∧ s.queueAfter c = s.wakeUps.foldl EventQueue.post s.queue ∧
      s.recorded c = s.notices (s.pipelineAfter c) := by
  cases c with
  | onPanel i command =>
    have saves : command.saves = true := by simp [alters] at h; exact h.2
    cases command with
    | save key => simp [queueAfter, offered, recorded, h]
    | press key => simp [queueAfter, offered, recorded, h]
    | _ => cases saves
  | setMetadata m => exact ⟨rfl, rfl, rfl⟩
  | addStage name plugin => simp [queueAfter, offered, recorded, h]
  | _ => cases h

private theorem panel?_alters {s : Session} (ha : s.Attentive) {c : Command}
    (h : s.alters c = true) (i : Nat) :
    (s.step c).2.panel? i = (s.panel? i).map fun p => (s.reached c i p).told := by
  have kept : c ≠ .onPanel i .drop := by
    rintro rfl
    simp [alters, PanelCommand.saves] at h
  have old (clonedFrom : Option String) (hc : c = .addPanel clonedFrom) : i ≠ s.panels.length := by
    subst hc
    cases h
  rw [panel?_step kept old]
  cases hp : s.panel? i with
  | none => rfl
  | some p =>
    have there : .panel i ∈ s.listeners := ha i p hp
    simp only [Option.map_some, panelAfter, h, there, and_self, if_true]

/-- In every run of a session a change of the pipeline calls each listener once, and there is one for
each panel ever added, whether or not it was dropped since. It offers the queue as many events, which
take up what room there is. Panels that were dropped stay away, and the others are told. -/
theorem change_wakes_all_panels (opening : Opening) (capacity : Nat) (commands : List Command)
    (c : Command) (h : ((start opening capacity).runAll commands).alters c = true) :
    let t := (start opening capacity).runAll commands
    let u := (t.step c).2
    t.panels.length = 1 + commands.countP Command.addsPanel ∧
    t.listeners.filterMap Listener.index? = List.range t.panels.length ∧
    u.journal = t.journal ++ t.notices u.pipeline ∧
    t.offered c = List.replicate t.panels.length .changed ∧
    u.queue =
      { t.queue with
        events := t.queue.events ++ List.replicate (min t.queue.room t.panels.length) .changed } ∧
    ∀ i, u.panel? i = (t.panel? i).map fun p => (t.reached c i p).told := by
  intro t u
  have registered : t.Registered := registered_runAll opening capacity commands
  have attentive : t.Attentive :=
    runAll_keeps Attentive (fun s c h => attentive_step h c) (attentive_start opening capacity)
      commands
  have first : (start opening capacity).panels.length = 1 := length_step _ (.addPanel _)
  have pipeline : u.pipeline = t.pipelineAfter c :=
    (congrArg Session.pipeline (shared_step_eq t c) :)
  obtain ⟨offered, queue, recorded⟩ := underway_alters h
  refine ⟨?_, registered, ?_, ?_, ?_, panel?_alters attentive h⟩
  · rw [length_runAll, first]
  · rw [journal_step, recorded, pipeline]
  · rw [offered, wakeUps_eq registered]
  · rw [queue_step, queue, EventQueue.foldl_post, wakeUps_eq registered, List.take_replicate]

/-- One of two panels is dropped; the other saves its draft, and the queue gets two events. -/
theorem change_wakes_all_panels_dropped :
    let t := (start ⟨.empty .standard, none⟩ 4).runAll [.addPanel none, .onPanel 1 .drop]
    t.alters (.onPanel 0 (.save none)) = true ∧ t.panel? 1 = none ∧ t.panels.length = 2 ∧
      t.offered (.onPanel 0 (.save none)) = [.changed, .changed] := by
  intro t
  have saves : t.alters (.onPanel 0 (.save none)) = true := by decide +kernel
  obtain ⟨length, -, -, offered, -⟩ :=
    change_wakes_all_panels ⟨.empty .standard, none⟩ 4 [.addPanel none, .onPanel 1 .drop]
      (.onPanel 0 (.save none)) saves
  have two : t.panels.length = 2 := length
  exact ⟨saves, by decide +kernel, two, offered.trans (by rw [two]; rfl)⟩

/-- A dropped panel still takes a place in the queue: news that comes after a change finds none left,
although there is a single live panel and room for two events. -/
theorem dropped_panel_wakes :
    let t := (start ⟨.empty .standard, none⟩ 2).runAll [.addPanel none, .onPanel 1 .drop]
    let u := (t.step (.setMetadata ⟨"orders", ""⟩)).2
    (t.panels.countP Option.isSome = 1 ∧ t.queue.events = []) ∧
      u.queue.events = [.changed, .changed] ∧
        (u.step (.post (.info "saved"))).2.queue = u.queue := by
  decide +kernel

end Session
end PipelineEditor
