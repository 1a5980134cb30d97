import PipelineEditor.Options
import PipelineEditor.Settings.Loading
import PipelineEditor.Window.Frame
import PipelineEditor.Window.Picture

/-! The command line of the editor. It opens a pipeline and prints what the window shows first. -/
namespace PipelineEditor

/-- What is found under a path. -/
def readFile (path : String) : IO FileState := do
  try
    return .content (← IO.FS.readBinFile path)
  catch
    | .noFileOrDirectory .. => return .missing
    | _ => return .directory

/-- Where the settings are: in the file that is named, or in the usual place. -/
def findSettings (config : Option String) : IO (String × Settings.Source) := do
  match config with
  | some path => return (path, .given (← readFile path))
  | none =>
    match Settings.usualPath? (← IO.getEnv "XDG_CONFIG_HOME") (← IO.getEnv "HOME") with
    | some path => return (path, .usual (← readFile path))
    | none => return ("", .usual .missing)

/-- The environment, as far as the settings look at it. -/
def readEnvironment : IO Settings.Environment := do
  let values ← Settings.variableNames.mapM fun name => return (name, ← IO.getEnv name)
  return fun name => (values.lookup name).join

/-- Says what went wrong, and gives the exit code. -/
def complain (code : UInt32) (message : String) : IO UInt32 := do
  IO.eprintln ("error: " ++ message)
  return code

/-- Opens the pipeline that the options name and prints the window. -/
def launch (o : Options) : IO UInt32 := do
  let (path, source) ← findSettings o.config
  match Settings.load source (← readEnvironment) with
  | .error e => complain 1 (e.message path)
  | .ok settings =>
    let clone ← o.clone.mapM readFile
    match Opening.load settings.artifact clone o.name with
    | .error e => complain 1 (e.message (o.clone.getD ""))
    | .ok opening =>
      (Window.start (.start opening settings.queueCapacity)).idle.listing.forM fun l => IO.println l
      return 0

end PipelineEditor

/-- Runs the editor with the arguments of the command line. -/
def main (arguments : List String) : IO UInt32 :=
  match PipelineEditor.Options.ofArguments arguments with
  | .error e => PipelineEditor.complain 2 e.message
  | .ok o => PipelineEditor.launch o
