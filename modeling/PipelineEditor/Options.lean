/-! The options of the command line. -/
namespace PipelineEditor

/-- What the command line asks for: a settings file, an exported pipeline to open a copy of, and a
name for the pipeline. -/
structure Options where
  config : Option String
  clone : Option String
  name : Option String
deriving DecidableEq, Repr

/-- Why a command line is refused. -/
inductive UsageError
  | unknown (argument : String)
  | noValue (option : String)
  | repeated (option : String)
deriving DecidableEq, Repr

namespace UsageError

/-- The error in words. -/
def message : UsageError → String
  | .unknown argument => "unexpected argument '" ++ argument ++ "' found"
  | .noValue option => "a value is required for '" ++ option ++ "' but none was supplied"
  | .repeated option => "the argument '" ++ option ++ "' cannot be used multiple times"

end UsageError

namespace Options

/-- No option is given. -/
def none : Options := ⟨.none, .none, .none⟩

/-- The options with one more. Each can be given once. -/
def set (o : Options) (option value : String) : Except UsageError Options :=
  if option = "--config" then
    if o.config.isSome then .error (.repeated option) else .ok { o with config := some value }
  else if option = "--clone" then
    if o.clone.isSome then .error (.repeated option) else .ok { o with clone := some value }
  else if option = "--name" then
    if o.name.isSome then .error (.repeated option) else .ok { o with name := some value }
  else .error (.unknown option)

/-- Takes in arguments from left to right; every option is followed by its value. -/
def read (o : Options) : List String → Except UsageError Options
  | [] => .ok o
  | option :: value :: rest => do read (← o.set option value) rest
  | [option] => do
    let _ ← o.set option ""
    throw (.noValue option)

/-- The options that arguments give. -/
def ofArguments (arguments : List String) : Except UsageError Options :=
  none.read arguments

end Options
end PipelineEditor
