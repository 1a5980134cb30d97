import PipelineEditor.Failure

/-! Files as far as the editor sees them: what is found under a path, and what writing there does. -/
namespace PipelineEditor

/-- What is found under a path that is read: nothing, what is there but cannot be read, as a directory
cannot, or the contents of a file. -/
inductive FileState
  | missing
  | directory
  | content (bytes : ByteArray)

/-- Why a file could not be read as a text. -/
inductive FileError
  | notFound
  | isDirectory
  | invalidData
deriving DecidableEq, Repr

namespace FileState

/-- The text of a file, which has to be UTF-8. -/
def text : FileState → Except FileError String
  | .missing => .error .notFound
  | .directory => .error .isDirectory
  | .content bytes => match String.fromUTF8? bytes with
    | some s => .ok s
    | none => .error .invalidData

end FileState

/-- What is found under a path that is written to: a file or nothing in a directory, a directory,
no directory to hold it, or a file in place of that directory. -/
inductive Destination
  | file
  | directory
  | noDirectory
  | underFile
deriving DecidableEq, Repr

namespace Destination

/-- Writes a text: the contents of the file afterwards, or why there are none. -/
def write (d : Destination) (text : String) : Except Failure String :=
  match d with
  | .file => .ok text
  | .directory => .error (.io "Is a directory (os error 21)")
  | .noDirectory => .error (.io "No such file or directory (os error 2)")
  | .underFile => .error (.io "Not a directory (os error 20)")

end Destination
end PipelineEditor
