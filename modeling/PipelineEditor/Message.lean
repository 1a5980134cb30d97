/-! The messages of the console. -/
namespace PipelineEditor

/-- What a message is about. -/
inductive MessageKind
  | success
  | error
  | info
  | missingName
  | invalidName
  | noStages
deriving DecidableEq, Repr

namespace MessageKind

/-- The kinds that find fault with the name of the pipeline. -/
def isNameError (k : MessageKind) : Bool :=
  k == .missingName || k == .invalidName

/-- The kinds that report a problem. -/
def isError (k : MessageKind) : Bool :=
  k != .success && k != .info

end MessageKind

/-- A message with its text. -/
structure Message where
  kind : MessageKind
  content : String
deriving DecidableEq, Repr

end PipelineEditor
