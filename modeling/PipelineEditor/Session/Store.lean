import PipelineEditor.Number.Word
import PipelineEditor.Pipeline.Validation
import PipelineEditor.Session.Basic

/-! Changes of the open pipeline, its validation, drafts and publication. -/
namespace PipelineEditor.Session

/-- Tells one listener of a change. A panel is marked as stale and woken by an event; that of a
panel that is no more is still posted. -/
def tell (s : Session) (l : Listener) : Session :=
  let s := s.note (.notified l s.pipeline.name s.pipeline.graph.stages.length)
  match l with
  | .panel i => (s.modifyPanel i fun p => { p with stale := true }).post .changed
  | .observer _ => s

/-- Tells all listeners in the order in which they came. -/
def tellAll (s : Session) : Session :=
  s.listeners.foldl tell s

/-- Gives the pipeline a name and a description. -/
def setMetadata (s : Session) (m : Metadata) : Session :=
  tellAll { s with pipeline := { s.pipeline with name := m.name, description := m.description } }

/-- The distance between new stages on the canvas. -/
def stageSpacing : Nat := 200

/-- The height on the canvas at which new stages stand. -/
def stageRow : Nat := 100

/-- The largest number of a stage, 0 when there are none. -/
def largestId : List Stage → Int
  | [] => 0
  | [s] => s.id.value.toInt
  | s :: rest => max s.id.value.toInt (largestId rest)

/-- The number after the largest one, if there is one. The addition is assumed to be checked for
overflow. A build without such checks has a number behind the largest 64-bit one, too: it wraps around
to the least. -/
def nextId? (stages : List Stage) : Option StageId :=
  (Number.int64? (largestId stages + 1)).map StageId.mk

/-- The place of a new stage to the right of those that are there. The product is rounded after the
count, as 32-bit numbers are. -/
def newPosition (stages : Nat) : Position :=
  let column := (Number.Single.ofNat stages).magnitude
  ⟨Number.Single.nearest false (stageSpacing * column.num) column.den, Number.Single.ofNat stageRow⟩

/-- The pipeline with a stage at its end, whose place is entered under its name. -/
def withStage (p : Pipeline) (id : StageId) (name : String) (plugin : Plugin) : Pipeline :=
  let layout := p.layout.getD .empty
  { p with
    graph := { p.graph with stages := p.graph.stages ++ [⟨id, name, plugin, .empty⟩] }
    layout := some ⟨layout.positions.insert name (newPosition p.graph.stages.length)⟩ }

/-- Adds a stage under the next number; there is none behind the largest 64-bit number, and nothing
changes then. -/
def addStage (s : Session) (name : String) (plugin : Plugin) : Option (StageId × Session) :=
  (nextId? s.pipeline.graph.stages).map fun id =>
    (id, tellAll { s with pipeline := withStage s.pipeline id name plugin })

/-- Registers an observer. -/
def observe (s : Session) : Session :=
  { s with listeners := s.listeners ++ [.observer s.observers] }

/-- Adds messages to the console. -/
def say (s : Session) (messages : List Message) : Session :=
  { s with console := s.console ++ messages }

/-- Clears the console. -/
def clearConsole (s : Session) : Session :=
  { s with console := [] }

/-- Whether the pipeline is valid. When `verbose`, its problems go to the console. -/
def validate (s : Session) (verbose : Bool) : Bool × Session :=
  (s.pipeline.isValid, if verbose then s.say s.pipeline.problems else s)

/-- Saves a draft of the pipeline with its layout, unless the pipeline has no name. -/
def saveDraft (s : Session) : Session :=
  if Text.blank s.pipeline.name then
    s.say [⟨.missingName, "Please name the pipeline before saving a draft."⟩]
  else
    { s.say [⟨.info, "Draft " ++ s.pipeline.name ++ " saved."⟩] with drafts := s.drafts ++ [s.pipeline] }

/-- Publishes the pipeline without its layout, if it is valid. The console holds the outcome. -/
def publish (s : Session) : Session :=
  let (valid, s) := s.clearConsole.validate true
  if valid then
    let p := s.pipeline.withoutLayout
    { s.say [⟨.success, "Pipeline " ++ p.name ++ " published."⟩] with published := some ⟨p.name, p⟩ }
  else s

/-- Selects a stage by its number. -/
def select (s : Session) (id : StageId) : Session :=
  { s with selected := some id }

/-- Selects no stage. -/
def deselect (s : Session) : Session :=
  { s with selected := none }

/-- Opens the export window on the pipeline as it is now, and on the one to be exported. -/
def showExport (s : Session) (exported : Pipeline) : Session :=
  { s with exportRequest := some ⟨s.pipeline, exported, exported.document⟩ }

/-- Closes the export window. -/
def closeExport (s : Session) : Session :=
  { s with exportRequest := none }

end PipelineEditor.Session
