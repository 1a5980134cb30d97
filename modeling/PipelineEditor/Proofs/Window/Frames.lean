import PipelineEditor.Proofs.Session.Projection
import PipelineEditor.Window.Frame

/-! Frames as rows of commands. All that a frame does to the session is to drain the queue and to give
commands of a few kinds, one after the other, so that every frame keeps what these keep. -/
namespace PipelineEditor

open Window (panelIndex)

namespace Session

/-- The commands that a frame gives. Texts are only typed into an open editor, only a stage that is
there is selected, and a new one has a name and a plugin. -/
inductive Played (s : Session) : Command → Prop
  | onPanel {command : PanelCommand} (kept : command ≠ .drop)
      (typed : s.typesIntoEditor (.onPanel panelIndex command) = true) :
      Played s (.onPanel panelIndex command)
  | select {stage : Stage} (there : stage ∈ s.pipeline.graph.stages) : Played s (.select stage.id)
  | addStage {form : StageForm} (complete : form.complete = true) :
      Played s (.addStage (Text.trim form.name) ⟨Text.trim form.plugin, form.kind.name⟩)
  | post (e : Event) : Played s (.post e)
  | closeExport : Played s .closeExport

/-- What may happen behind a window: nobody types into a closed editor, and the panel of the window
stays. -/
structure Behind (s : Session) (c : Command) : Prop where
  typed : s.typesIntoEditor c = true
  stays : c ≠ .onPanel panelIndex .drop

/-- A frame gives no command that could not be given behind the window. -/
theorem Played.behind {s : Session} {c : Command} (h : s.Played c) : s.Behind c := by
  cases h with
  | onPanel kept typed => exact ⟨typed, by simpa using kept⟩
  | _ => exact ⟨rfl, nofun⟩

/-- The panel of the window is there from the start. -/
theorem live_start (opening : Opening) (capacity : Nat) :
    ((start opening capacity).panel? panelIndex).isSome = true := by
  have added := (panel?_addPanel (vacant opening.pipeline capacity) opening.clonedFrom
    panelIndex).trans (if_pos rfl)
  exact congrArg Option.isSome added

theorem live_step {s : Session} {c : Command} (h : (s.panel? panelIndex).isSome = true)
    (stays : c ≠ .onPanel panelIndex .drop) :
    ((s.step c).2.panel? panelIndex).isSome = true := by
  obtain ⟨p, hp⟩ := Option.isSome_iff_exists.1 h
  exact congrArg Option.isSome (panel?_step_of_some hp stays)

/-- What frames keep, command by command. The panel of the window has to be there. -/
structure Steady (I : Session → Prop) : Prop where
  live : ∀ s, I s → (s.panel? panelIndex).isSome = true
  drained : ∀ s, I s → I { s with queue := s.queue.drain.2 }
  step : ∀ s c, s.Played c → I s → I (s.step c).2

/-- A command is given to the panel of the window, which is there. -/
theorem Steady.onPanel {I : Session → Prop} (steady : Steady I) {s : Session} (h : I s)
    (command : PanelCommand) (kept : command ≠ .drop)
    (typed : s.typesIntoEditor (.onPanel panelIndex command) = true) :
    ∃ p, s.panel? panelIndex = some p ∧ I (s.onPanel panelIndex p command).2 := by
  obtain ⟨p, hp⟩ := Option.isSome_iff_exists.1 (steady.live s h)
  have after := steady.step s _ (.onPanel kept typed) h
  simp only [Session.step, hp] at after
  exact ⟨p, hp, after⟩

end Session

namespace Window

open Session (Steady)

variable {I : Session → Prop} {w : Window}

/-! The events that are drained. -/

private theorem session_takeEvent (w : Window) (e : Event) :
    (w.takeEvent e).session = w.session.receive panelIndex e := by
  cases e <;> rfl

private theorem takeEvents_keeps (steady : Steady I) (h : I w.session) : I w.takeEvents.session := by
  have taken (events : List Event) (w : Window) (h : I w.session) :
      I (events.foldl takeEvent w).session := by
    induction events generalizing w with
    | nil => exact h
    | cons e es ih =>
      apply ih
      obtain ⟨_, -, received⟩ := steady.onPanel h (.receive e) nofun rfl
      rw [session_takeEvent]
      exact received
  have drained := taken w.session.queue.drain.1
    { w with session := { w.session with queue := w.session.queue.drain.2 } }
    (steady.drained w.session h)
  obtain ⟨_, -, synced⟩ := steady.onPanel drained .sync nofun rfl
  exact synced

/-! The metadata editor. -/

private theorem session_grantFocus (w : Window) :
    w.grantFocus.session = (w.session.takeFocus panelIndex).2 := by
  unfold grantFocus
  dsimp only
  split <;> rfl

theorem editing_grantFocus (w : Window) : w.grantFocus.editing = w.editing := by
  unfold editing panel?
  rw [session_grantFocus]
  change Option.any _ ((w.session.modifyPanel panelIndex _).panel? panelIndex) = _
  rw [Session.panel?_modifyPanel_self]
  cases w.session.panel? panelIndex <;> rfl

private theorem typeMetadata_keeps (steady : Steady I) (h : I w.session)
    (editing : w.editing = true) (input : Input) : I (w.typeMetadata input).session := by
  unfold typeMetadata editMetadata
  split
  next p hp =>
    have typed (name description : String) : w.session.typesIntoEditor
        (.onPanel panelIndex (.edit (some name) (some description))) = true := by
      have expanded : p.expanded = true := by simpa [Window.editing, hp] using editing
      have there : w.session.panel? panelIndex = some p := hp
      rw [Session.typesIntoEditor, there, Option.all_some, expanded]
    obtain ⟨_, -, edited⟩ := steady.onPanel h (.edit (some _) (some _)) (by simp) (typed _ _)
    exact edited
  · exact h

private theorem metadataEditor_keeps (steady : Steady I) (h : I w.session)
    (editing : w.editing = true) (input : Input) : I (w.metadataEditor input).session := by
  have granted : I w.grantFocus.session := by
    obtain ⟨_, -, taken⟩ := steady.onPanel h .takeFocus nofun rfl
    rw [session_grantFocus]
    exact taken
  have typed := typeMetadata_keeps steady granted ((editing_grantFocus w).trans editing) input
  have clicked (u : Window) (h : I u.session) :
      I (if !u.editing then u
        else if input.clicks.contains .save then u.onSession fun s => s.save panelIndex
        else if input.clicks.contains .cancel then u.onSession fun s => s.reset panelIndex
        else u).session := by
    obtain ⟨_, -, saved⟩ := steady.onPanel h (.save none) nofun rfl
    obtain ⟨_, -, discarded⟩ := steady.onPanel h (.reset none) nofun rfl
    split
    · exact h
    · split
      · exact saved
      · split
        · exact discarded
        · exact h
  apply clicked
  split
  next key _ =>
    obtain ⟨_, -, pressed⟩ := steady.onPanel typed (.press (some key)) nofun rfl
    exact pressed
  · exact typed

/-! The other parts. -/

private theorem topPanel_keeps (steady : Steady I) (h : I w.session) (input : Input) :
    I (w.topPanel input).session := by
  have operated (operations : List Operation) (w : Window) (h : I w.session) :
      I (operations.foldl (fun w o =>
        if input.clicks.contains (.operation o) then w.onSession fun s => s.run panelIndex o
        else w) w).session := by
    induction operations generalizing w with
    | nil => exact h
    | cons o os ih =>
      apply ih
      dsimp only
      split
      · obtain ⟨_, -, ran⟩ := steady.onPanel h (.run o) nofun rfl
        exact ran
      · exact h
  apply operated
  split
  next editing => exact metadataEditor_keeps steady h editing input
  · split
    · obtain ⟨_, -, opened⟩ := steady.onPanel h .openEditor nofun rfl
      exact opened
    · exact h

private theorem clickStages_keeps (steady : Steady I) (h : I w.session) (input : Input) :
    I (w.clickStages input).session := by
  have clicked (stages : List (Stage × Nat)) (w : Window) (h : I w.session)
      (there : ∀ x ∈ stages, x.1 ∈ w.session.pipeline.graph.stages) :
      I (stages.foldl (fun w x =>
        if input.clicks.contains (.stage x.2) then w.onSession fun s => s.select x.1.id
        else w) w).session := by
    induction stages generalizing w with
    | nil => exact h
    | cons x xs ih =>
      obtain ⟨first, rest⟩ := List.forall_mem_cons.1 there
      apply ih
      · dsimp only
        split
        · exact steady.step w.session _ (.select first) h
        · exact h
      · dsimp only
        split <;> exact rest
  exact clicked _ w h fun x hx => List.fst_mem_of_mem_zipIdx hx

private theorem addStage_keeps (steady : Steady I) (h : I w.session) (input : Input) :
    I (w.addStage input).2.session := by
  unfold addStage
  split
  next ready =>
    have complete : w.form.complete = true := (Bool.and_eq_true_iff.1 ready).1
    have after := steady.step w.session _ (.addStage complete) h
    simp only [Session.step] at after
    split
    next added =>
      rw [added] at after
      exact after
    · exact h
  · exact h

private theorem exportWindow_keeps (steady : Steady I) (h : I w.session) (input : Input) :
    I (w.exportWindow input).session := by
  have posted (w : Window) (h : I w.session) (e : Event) : I (w.session.post e) :=
    steady.step w.session _ (.post e) h
  have closed (w : Window) (h : I w.session) : I w.session.closeExport :=
    steady.step w.session _ .closeExport h
  have written (w : Window) (h : I w.session) (request : ExportRequest)
      (dialog : Option SavePath) : I (w.saveDocument request dialog).2.session := by
    unfold saveDocument
    split
    · exact h
    · split
      · exact posted w h _
      · exact posted w h _
  have copied : I (if input.clicks.contains .copy then w.copyDocument input.clipboard
      else w).session := by
    split
    · cases input.clipboard <;> exact posted w h _
    · exact h
  have saved (w : Window) (h : I w.session) (request : ExportRequest) :
      I (if input.clicks.contains .saveAs then w.saveDocument request input.dialog
        else (false, w)).2.session := by
    split
    · exact written w h request input.dialog
    · exact h
  have finished (done : Bool × Window) (h : I done.2.session) :
      I (if done.1 || input.clicks.contains .close || input.clicks.contains .closeWindow then
        done.2.onSession Session.closeExport else done.2).session := by
    split
    · exact closed done.2 h
    · exact h
  unfold exportWindow
  split
  · exact h
  next request _ => exact finished _ (saved _ copied request)

/-- Every frame keeps what its commands keep. -/
theorem frame_keeps (steady : Steady I) (h : I w.session) (input : Input) :
    I (w.frame input).2.session := by
  have settled (w : Window) : ((w.settleFocus input).settleKinds input).session = w.session :=
    (apply_ite Window.session _ _ _).trans (ite_self _)
  let focused := { w.takeEvents with focus := input.focus.getD w.takeEvents.focus }
  have focused_keeps : I focused.session := takeEvents_keeps steady h
  let filled := ((focused.topPanel input).clickStages input).fillForm input
  have filled_keeps : I filled.session :=
    clickStages_keeps steady (topPanel_keeps steady focused_keeps input) input
  have ended (done : Bool × Window) (h : I done.2.session) :
      I (if done.1 then done.2.exportWindow input else done.2).session := by
    split
    · exact exportWindow_keeps steady h input
    · exact h
  unfold frame
  dsimp only
  rw [settled]
  exact ended _ (addStage_keeps steady filled_keeps input)

/-! Runs. -/

/-- The windows on an opened pipeline after frames with any input, and commands that are given behind
the window between them. -/
inductive Reachable (behind : Session → Command → Prop) (opening : Opening) (capacity : Nat) :
    Window → Prop
  | start : Reachable behind opening capacity (.start (.start opening capacity))
  | frame {w : Window} (reached : Reachable behind opening capacity w) (input : Input) :
      Reachable behind opening capacity (w.frame input).2
  | command {w : Window} (reached : Reachable behind opening capacity w) (c : Command)
      (given : behind w.session c) :
      Reachable behind opening capacity (w.onSession fun s => (s.step c).2)

theorem Reachable.keeps {behind : Session → Command → Prop} {opening : Opening} {capacity : Nat}
    (steady : Steady I) (opened : I (.start opening capacity))
    (kept : ∀ s c, behind s c → I s → I (s.step c).2)
    (reached : Reachable behind opening capacity w) : I w.session := by
  induction reached with
  | start => exact opened
  | frame _ input ih => exact frame_keeps steady ih input
  | command _ c given ih => exact kept _ c given ih

end Window
end PipelineEditor
