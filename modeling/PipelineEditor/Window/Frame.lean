import PipelineEditor.Window.Basic

/-! One frame of the window: queued events first, then part by part what is shown, each reacting to
what happens in the frame. -/
namespace PipelineEditor.Window

/-- What an event does to the window besides what it does to the panel: news replace the status. -/
def announce (w : Window) : Event → Window
  | .changed => w
  | .focusDue _ => w
  | .info text => { w with status := text, statusIsError := false }
  | .failed report => { w with status := report.statusLine, statusIsError := true }

/-- Hands one event to the panel and the status line. -/
def takeEvent (w : Window) (e : Event) : Window :=
  (w.onSession fun s => s.receive panelIndex e).announce e

/-- Drains the queue and brings the panel in step with the pipeline. -/
def takeEvents (w : Window) : Window :=
  let (events, queue) := w.session.queue.drain
  (events.foldl takeEvent { w with session := { w.session with queue := queue } }).onSession
    fun s => s.sync panelIndex

/-- Changes the panel's draft of the metadata. -/
def editMetadata (w : Window) (f : Metadata → Metadata) : Window :=
  match w.panel? with
  | some p => w.onSession fun s => s.edit panelIndex (f p.metadata)
  | none => w

/-- Types into the fields of the metadata editor. A line break is typed with Enter in the
description. -/
def typeMetadata (w : Window) (input : Input) : Window :=
  w.editMetadata fun m =>
    let m := { m with name := (input.text? .name).getD m.name }
    let m := { m with description := (input.text? .description).getD m.description }
    if input.key = some .enter ∧ w.focus = some .description then
      { m with description := m.description ++ "\n" }
    else m

/-- Gives the focus to the name field if it is due. -/
def grantFocus (w : Window) : Window :=
  let (due, session) := w.session.takeFocus panelIndex
  let w := { w with session := session }
  if due then { w with focus := some .name } else w

/-- The key that the metadata editor is told of: Enter in the name field, Escape in either field. -/
def editorKey (w : Window) (input : Input) : Option Nat :=
  match input.key, w.focus with
  | some .enter, some .name => some Gesture.enter
  | some .escape, some .name => some Gesture.escape
  | some .escape, some .description => some Gesture.escape
  | _, _ => none

/-- The open metadata editor. Its buttons are there unless a key has closed it. -/
def metadataEditor (w : Window) (input : Input) : Window :=
  let w := w.grantFocus.typeMetadata input
  let w := match w.editorKey input with
    | some key => w.onSession fun s => (s.press panelIndex (some key)).2
    | none => w
  if !w.editing then w
  else if input.clicks.contains .save then w.onSession fun s => s.save panelIndex
  else if input.clicks.contains .cancel then w.onSession fun s => s.reset panelIndex
  else w

/-- The panel over the canvas: the title or the metadata editor, and the operations. -/
def topPanel (w : Window) (input : Input) : Window :=
  let w := if w.editing then w.metadataEditor input
    else if input.clicks.contains .title then w.onSession fun s => s.openEditor panelIndex
    else w
  Operation.all.reverse.foldl (fun w o =>
    if input.clicks.contains (.operation o) then w.onSession fun s => s.run panelIndex o else w) w

/-- Selects the stages that are clicked, one after the other. -/
def clickStages (w : Window) (input : Input) : Window :=
  w.session.pipeline.graph.stages.zipIdx.foldl (fun w (stage, i) =>
    if input.clicks.contains (.stage i) then w.onSession fun s => s.select stage.id else w) w

/-- Types into the form for new stages and picks a kind of plugin. -/
def fillForm (w : Window) (input : Input) : Window :=
  let form := { w.form with
    name := (input.text? .stage).getD w.form.name
    plugin := (input.text? .plugin).getD w.form.plugin
    kind := (PluginKind.all.filter fun k => input.clicks.contains (.kind k)).getLastD w.form.kind }
  { w with form := form }

/-- Adds the stage of the form, if that is clicked and there is enough in the form: the window after
it, and whether there was a number for the stage. -/
def addStage (w : Window) (input : Input) : Bool × Window :=
  if w.form.complete && input.clicks.contains .addStage then
    match w.session.addStage (Text.trim w.form.name) ⟨Text.trim w.form.plugin, w.form.kind.name⟩ with
    | some (_, s) => (true, { w with session := s, form := { w.form with name := "", plugin := "" } })
    | none => (false, w)
  else (true, w)

/-- Reports a failed export. -/
def reportFailure (w : Window) (f : Failure) : Window :=
  w.onSession fun s => s.post (.failed (.ofMessage .exporting f.message))

/-- Copies the document of the export window, and tells of what the clipboard answers. -/
def copyDocument (w : Window) : ClipboardAnswer → Window
  | .taken => w.onSession fun s => s.post (.info "Pipeline JSON copied to clipboard")
  | .refused reason => w.reportFailure (.clipboard reason)

/-- Writes the document of the export window where the file dialog says: the window after it, and
whether the export window is to be closed. -/
def saveDocument (w : Window) (request : ExportRequest) (dialog : Option SavePath) : Bool × Window :=
  match dialog with
  | none => (false, w)
  | some place =>
    match place.destination.write request.document with
    | .ok _ => (true, w.onSession fun s => s.post (.info ("Exported to " ++ place.path)))
    | .error f => (false, w.reportFailure f)

/-- The export window, if there is a request. -/
def exportWindow (w : Window) (input : Input) : Window :=
  match w.session.exportRequest with
  | none => w
  | some request =>
    let w := if input.clicks.contains .copy then w.copyDocument input.clipboard else w
    let (saved, w) := if input.clicks.contains .saveAs then w.saveDocument request input.dialog
      else (false, w)
    if saved || input.clicks.contains .close || input.clicks.contains .closeWindow then
      w.onSession Session.closeExport
    else w

/-- Where the focus is when a frame is over. Enter takes it from fields of one line, Escape from
any field, and a field that is no longer there does not keep it. -/
def settleFocus (w : Window) (input : Input) : Window :=
  let released := match input.key, w.focus with
    | some .escape, _ => true
    | some .enter, some .description => false
    | some .enter, _ => true
    | _, some .name => !w.editing
    | _, some .description => !w.editing
    | _, _ => false
  if released then { w with focus := none } else w

/-- The list of plugin kinds is opened by a click, and closed by any other and by Escape. -/
def settleKinds (w : Window) (input : Input) : Window :=
  { w with kindsShown :=
    if input.clicks.isEmpty then w.kindsShown && input.key != some .escape
    else input.clicks.contains .kinds && !w.kindsShown }

/-- One frame: the window after it, and whether it came to its end. It ends early when there is no
number for a new stage. -/
def frame (w : Window) (input : Input) : Bool × Window :=
  let w := w.takeEvents
  let w := { w with focus := input.focus.getD w.focus }
  let w := ((w.topPanel input).clickStages input).fillForm input
  let (added, w) := w.addStage input
  let w := if added then w.exportWindow input else w
  (added, (w.settleFocus input).settleKinds input)

/-- A frame in which nothing happens. -/
def idle (w : Window) : Window :=
  (w.frame .idle).2

end PipelineEditor.Window
