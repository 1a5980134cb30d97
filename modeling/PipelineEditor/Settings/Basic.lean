import PipelineEditor.File
import PipelineEditor.Pipeline.Basic

/-! The settings of the editor. -/
namespace PipelineEditor

/-- What can be set: which log messages are shown, the artifact of new pipelines, the title of the
window, and how many events may wait. -/
structure Settings where
  logFilter : String
  artifact : Artifact
  windowTitle : String
  queueCapacity : Nat
deriving DecidableEq, Repr

namespace Settings

/-- The settings when nothing is set. -/
def standard : Settings :=
  ⟨"info", .standard, "Pipeline Studio", 256⟩

end Settings

/-- Why a settings file is refused. -/
inductive SettingsError
  | unreadable (reason : FileError)
  | malformed (reason : ReadError)
  | noCapacity
deriving DecidableEq, Repr

namespace SettingsError

/-- The error in words, with the path of the file. -/
def message (path : String) : SettingsError → String
  | .unreadable _ => "failed to read settings file '" ++ path ++ "'"
  | _ => "failed to parse settings file '" ++ path ++ "'"

/-- What is said of the contents of a file. A name that goes over several lines makes a message of
which the last line says nothing. -/
def detail? : SettingsError → Option String
  | .unreadable _ => none
  | .malformed e => e.message?.filter fun m => !m.toList.contains '\n'
  | .noCapacity => some (Failure.settings "event_queue_capacity must be greater than zero").message

end SettingsError
end PipelineEditor
