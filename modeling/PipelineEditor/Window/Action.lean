import PipelineEditor.Window.Frame
import PipelineEditor.Window.Picture

/-! Actions of a user, each played through until the window is at rest. -/
namespace PipelineEditor

/-- What a user does, or what happens behind the window. -/
inductive Action
  | wait
  | click (text : String) (dialog : Option SavePath)
  | choose (kind : String)
  | type (field : TextField) (text : String)
  | press (key : Key) (field : Option TextField)
  | finishDeferred
  | post (event : Event)
  | setMetadata (metadata : Metadata)
  | addStage (name : String) (plugin : Plugin)
  | say (messages : List Message)
  | select (id : StageId)
  | deselect
deriving DecidableEq, Repr

/-- What an action comes to. -/
inductive Outcome
  | done
  | noWidget
  | disabled
  | noField
  | dialog (offered : String) (written : Option String)
  | overflow
deriving DecidableEq, Repr

namespace Window

/-- Plays a frame with something happening and lets the window come to rest. -/
def play (w : Window) (input : Input) : Outcome × Window :=
  let (finished, w) := w.frame input
  (if finished then .done else .overflow, w.idle)

/-- Changes the session and lets the window come to rest. -/
def playSession (w : Window) (f : Session → Session) : Outcome × Window :=
  (.done, (w.onSession f).idle)

/-- Whether a field is there. -/
def hasField (w : Window) : TextField → Bool
  | .name | .description => w.editing
  | .stage | .plugin => true

/-- The file dialog for a request: the name it offers, and what is in the file afterwards. -/
def dialogOutcome (request : ExportRequest) (dialog : Option SavePath) : Outcome :=
  .dialog request.exported.fileName
    (dialog.bind fun place => (place.destination.write request.document).toOption)

/-- Clicks the first widget with a text. -/
def click (w : Window) (text : String) (dialog : Option SavePath) : Outcome × Window :=
  match w.widgets.find? fun x => x.clickable && x.text == text with
  | none => (.noWidget, w)
  | some widget =>
    match widget.target with
    | none => (.disabled, w)
    | some target =>
      let (outcome, after) := w.play { Input.idle with clicks := [target], dialog := dialog }
      match target, w.session.exportRequest with
      | .saveAs, some request => (dialogOutcome request dialog, after)
      | _, _ => (outcome, after)

/-- Picks a kind of plugin by its name. -/
def choose (w : Window) (kind : String) : Outcome × Window :=
  match PluginKind.all.find? fun k => k.name == kind with
  | some k => w.play { Input.idle with clicks := [.kind k] }
  | none => (.noWidget, w.idle)

/-- Gives a field the focus, and plays a frame with something happening to it. -/
def focusThen (w : Window) (field : Option TextField) (input : Input) : Outcome × Window :=
  if field.all w.hasField then
    (w.frame { Input.idle with focus := some field }).2.play input
  else (.noField, w.idle)

/-- Does an action. Events that are posted wait for the next frame. -/
def perform (w : Window) : Action → Outcome × Window
  | .wait => (.done, w.idle)
  | .click text dialog => w.click text dialog
  | .choose kind => w.choose kind
  | .type field text => w.focusThen (some field) { Input.idle with typed := [(field, text)] }
  | .press key field => w.focusThen field { Input.idle with key := some key }
  | .finishDeferred => w.playSession Session.finishDeferred
  | .post e => (.done, w.onSession fun s => s.post e)
  | .setMetadata m => w.playSession fun s => s.setMetadata m
  | .addStage name plugin =>
    match w.session.addStage name plugin with
    | some (_, s) => (.done, { w with session := s }.idle)
    | none => (.overflow, w.idle)
  | .say messages => w.playSession fun s => s.say messages
  | .select id => w.playSession fun s => s.select id
  | .deselect => w.playSession Session.deselect

end Window
end PipelineEditor
