import PipelineEditor.Codec.Basic

/-! What can go wrong with files, documents, settings and the clipboard. -/
namespace PipelineEditor

/-- A failure by where it arose, with what is known of it. -/
inductive Failure
  | io (reason : String)
  | json (reason : String)
  | settings (reason : String)
  | clipboard (reason : String)
deriving DecidableEq, Repr

namespace Failure

/-- A failure in words. -/
def message : Failure → String
  | .io reason => "i/o failure: " ++ reason
  | .json reason => "malformed pipeline json: " ++ reason
  | .settings reason => "invalid settings: " ++ reason
  | .clipboard reason => "clipboard unavailable: " ++ reason

/-- The failure of a document that could not be read. Where nothing is known of the reason, dots
stand for it. -/
def ofRead (e : ReadError) : Failure :=
  .json (e.message?.getD "...")

end Failure
end PipelineEditor
