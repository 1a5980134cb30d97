import PipelineEditor.Message
import PipelineEditor.Pipeline.Basic

/-! What keeps a pipeline from being published. -/
namespace PipelineEditor.Pipeline

/-- The characters of pipeline names: ASCII letters and digits, underscore and hyphen. -/
def isNameChar (c : Char) : Bool :=
  c.isAlphanum || c == '_' || c == '-'

/-- A valid name has at least one character, and name characters only. -/
def isValidName (name : String) : Bool :=
  !name.isEmpty && name.toList.all isNameChar

/-- The one problem of a name that is missing or not valid. -/
def nameProblems (name : String) : List Message :=
  if Text.blank name then [⟨.missingName, "Pipeline name is missing."⟩]
  else if isValidName name then []
  else [⟨.invalidName, "Pipeline name can only contain alphanumeric characters, '-' and '_'."⟩]

/-- A pipeline needs a stage. -/
def stageProblems (g : Graph) : List Message :=
  if g.stages.isEmpty then [⟨.noStages, "Pipeline must contain at least one stage."⟩] else []

/-- The problem of an end of a connection that is the name of no stage. -/
def danglingEnd (c : Connection) (name : String) : Message :=
  ⟨.error, "Connection " ++ c.source ++ " -> " ++ c.target ++
    " references unknown stage '" ++ name ++ "'."⟩

/-- One problem for each dangling end, the source of a connection before its target. -/
def connectionProblems (g : Graph) : List Message :=
  g.connections.flatMap fun c =>
    ([c.source, c.target].filter fun name => !(g.stages.any fun s => s.name == name)).map
      (danglingEnd c)

/-- All problems in the order in which they are reported. -/
def problems (p : Pipeline) : List Message :=
  nameProblems p.name ++ stageProblems p.graph ++ connectionProblems p.graph

/-- A pipeline without problems. -/
def isValid (p : Pipeline) : Bool :=
  p.problems.isEmpty

end PipelineEditor.Pipeline
