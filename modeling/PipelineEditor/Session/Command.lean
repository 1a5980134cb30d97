import PipelineEditor.Session.Panel

/-! Commands of a session, each with its reply. -/
namespace PipelineEditor

/-- What is done with one panel. -/
inductive PanelCommand
  | edit (name description : Option String)
  | openEditor
  | requestFocus
  | rebuild
  | sync
  | takeFocus
  | receive (event : Event)
  | save (key : Option Nat)
  | reset (key : Option Nat)
  | press (key : Option Nat)
  | run (operation : Operation)
  | checkName
  | drop
deriving DecidableEq, Repr

/-- What is done in a session. The steps of a deferred action can be taken one by one or all at
once. -/
inductive Command
  | onPanel (index : Nat) (command : PanelCommand)
  | addPanel (clonedFrom : Option String)
  | finishDeferred
  | giveWay (handle : Handle)
  | leave (handle : Handle)
  | fire (handle : Handle)
  | pump
  | post (event : Event)
  | closeQueue
  | observe
  | setMetadata (metadata : Metadata)
  | addStage (name : String) (plugin : Plugin)
  | validate (verbose : Bool)
  | saveDraft
  | publish
  | say (messages : List Message)
  | clearConsole
  | select (id : StageId)
  | deselect
  | showDisplay
  | closeExport
deriving DecidableEq, Repr

/-- What a command answers. -/
inductive Reply
  | nothing
  | noPanel
  | flag (value : Bool)
  | gesture (value : Gesture)
  | events (drained : List Event)
  | added (id : StageId)
  | overflow
deriving DecidableEq, Repr

namespace Session

/-- Does something with a panel that is there. -/
def onPanel (s : Session) (i : Nat) (p : Panel) : PanelCommand → Reply × Session
  | .edit name description =>
    (.nothing, s.edit i ⟨name.getD p.metadata.name, description.getD p.metadata.description⟩)
  | .openEditor => (.nothing, s.openEditor i)
  | .requestFocus => (.nothing, s.requestFocus i)
  | .rebuild => (.nothing, s.rebuild i)
  | .sync => (.nothing, s.sync i)
  | .takeFocus =>
    let (ready, s) := s.takeFocus i
    (.flag ready, s)
  | .receive e => (.nothing, s.receive i e)
  | .save key => (.gesture (Gesture.fresh key).consumed, s.save i)
  | .reset key => (.gesture (Gesture.fresh key).consumed, s.reset i)
  | .press key =>
    let (g, s) := s.press i key
    (.gesture g, s)
  | .run operation => (.nothing, s.run i operation)
  | .checkName => (.nothing, s.checkName i)
  | .drop => (.nothing, s.dropPanel i)

/-- One command: its reply and the session after it. -/
def step (s : Session) : Command → Reply × Session
  | .onPanel i command =>
    match s.panel? i with
    | some p => s.onPanel i p command
    | none => (.noPanel, s)
  | .addPanel clonedFrom => (.nothing, s.addPanel clonedFrom)
  | .finishDeferred => (.nothing, s.finishDeferred)
  | .giveWay h => (.nothing, { s with deferral := s.deferral.giveWay h })
  | .leave h => (.nothing, { s with deferral := s.deferral.leave h })
  | .fire h =>
    let (fired, deferral) := s.deferral.fire h
    let s := { s with deferral := deferral }
    (.nothing, if fired then s.post (.focusDue h) else s)
  | .pump =>
    let (events, s) := s.pump
    (.events events, s)
  | .post e => (.nothing, s.post e)
  | .closeQueue => (.nothing, { s with queue := s.queue.close })
  | .observe => (.nothing, s.observe)
  | .setMetadata m => (.nothing, s.setMetadata m)
  | .addStage name plugin =>
    match s.addStage name plugin with
    | some (id, s) => (.added id, s)
    | none => (.overflow, s)
  | .validate verbose =>
    let (valid, s) := s.validate verbose
    (.flag valid, s)
  | .saveDraft => (.nothing, s.saveDraft)
  | .publish => (.nothing, s.publish)
  | .say messages => (.nothing, s.say messages)
  | .clearConsole => (.nothing, s.clearConsole)
  | .select id => (.nothing, s.select id)
  | .deselect => (.nothing, s.deselect)
  | .showDisplay => (.nothing, s.showExport s.pipeline)
  | .closeExport => (.nothing, s.closeExport)

/-- The session after a row of commands. -/
def runAll (s : Session) (commands : List Command) : Session :=
  commands.foldl (fun s c => (s.step c).2) s

end Session
end PipelineEditor
