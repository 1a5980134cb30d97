import PipelineEditor.File
import PipelineEditor.Pipeline.Wire

/-! The pipeline that a session opens with: a copy of an exported one, or a new one. -/
namespace PipelineEditor

/-- Why a pipeline could not be copied. -/
inductive OpeningError
  | unreadable (reason : FileError)
  | unparsable (reason : ReadError)
deriving DecidableEq, Repr

namespace OpeningError

/-- The error in words, with the path of the file. -/
def message (path : String) : OpeningError → String
  | .unreadable _ => "failed to read pipeline '" ++ path ++ "'"
  | .unparsable _ => "failed to parse pipeline '" ++ path ++ "'"

end OpeningError

/-- An opened pipeline, and the name of the one it was copied from. -/
structure Opening where
  pipeline : Pipeline
  clonedFrom : Option String
deriving DecidableEq

namespace Opening

/-- The copy of the document in a file. -/
def copy (file : FileState) : Except OpeningError Opening :=
  match file.text with
  | .error e => .error (.unreadable e)
  | .ok text =>
    match Pipeline.ofDocument text with
    | .error e => .error (.unparsable e)
    | .ok p => .ok ⟨p, some p.name⟩

/-- The opening with its pipeline under another name. -/
def renamed (o : Opening) (name : String) : Opening :=
  { o with pipeline := { o.pipeline with name := name } }

/-- Opens a copy of the document in a file, or a new pipeline on an artifact; a name that is given
replaces the name of either. -/
def load (artifact : Artifact) (clone : Option FileState) (name : Option String) :
    Except OpeningError Opening := do
  let opening ← match clone with
    | none => pure ⟨.empty artifact, none⟩
    | some file => copy file
  match name with
  | none => return opening
  | some name => return opening.renamed name

end Opening
end PipelineEditor
