import PipelineEditor.Session.Panel

/-! The window of the editor: a session with one panel, a status line, and a form for new stages. -/
namespace PipelineEditor

/-- The kinds of plugin that are offered for new stages. -/
inductive PluginKind
  | source
  | transform
  | sink
deriving DecidableEq, Repr

namespace PluginKind

/-- The kinds in the order in which they are offered. -/
def all : List PluginKind := [.source, .transform, .sink]

def name : PluginKind → String
  | .source => "batchsource"
  | .transform => "transform"
  | .sink => "batchsink"

end PluginKind

/-- What has been entered for a new stage. -/
structure StageForm where
  name : String
  plugin : String
  kind : PluginKind
deriving DecidableEq, Repr

namespace StageForm

def empty : StageForm := ⟨"", "", .source⟩

/-- Whether there is enough to add a stage: neither the name nor the plugin is blank. -/
def complete (f : StageForm) : Bool :=
  !Text.blank f.name && !Text.blank f.plugin

end StageForm

/-- The fields that texts are typed into. -/
inductive TextField
  | name
  | description
  | stage
  | plugin
deriving DecidableEq, Repr

/-- The keys that make a difference, and any other. -/
inductive Key
  | enter
  | escape
  | other
deriving DecidableEq, Repr

/-- What can be clicked. -/
inductive Target
  | title
  | save
  | cancel
  | operation (operation : Operation)
  | stage (index : Nat)
  | kinds
  | kind (kind : PluginKind)
  | addStage
  | copy
  | saveAs
  | close
  | closeWindow
deriving DecidableEq, Repr

/-- The answer of the file dialog: a path, and what is found there. -/
structure SavePath where
  path : String
  destination : Destination
deriving DecidableEq, Repr

/-- The answer of the clipboard: it takes a text, or says why it does not. -/
inductive ClipboardAnswer
  | taken
  | refused (reason : String)
deriving DecidableEq, Repr

/-- What happens in one frame. The focus is moved before anything else. A file dialog that opens is
cancelled unless it has an answer. -/
structure Input where
  focus : Option (Option TextField)
  typed : List (TextField × String)
  key : Option Key
  clicks : List Target
  dialog : Option SavePath
  clipboard : ClipboardAnswer
deriving DecidableEq, Repr

namespace Input

/-- Nothing happens, and there is no clipboard. -/
def idle : Input := ⟨none, [], none, [], none, .refused "no clipboard"⟩

/-- The text that a field is given. -/
def text? (i : Input) (field : TextField) : Option String :=
  i.typed.lookup field

end Input

/-- The window. Its panel is the first of the session. -/
structure Window where
  session : Session
  status : String
  statusIsError : Bool
  form : StageForm
  focus : Option TextField
  kindsShown : Bool

namespace Window

/-- The number of the window's panel. -/
def panelIndex : Nat := 0

/-- The window's panel. -/
def panel? (w : Window) : Option Panel :=
  w.session.panel? panelIndex

/-- Whether the metadata editor is open. -/
def editing (w : Window) : Bool :=
  w.panel?.any (·.expanded)

/-- A window on a session. -/
def start (s : Session) : Window :=
  ⟨s, "Ready", false, .empty, none, false⟩

/-- Changes the session. -/
def onSession (w : Window) (f : Session → Session) : Window :=
  { w with session := f w.session }

end Window
end PipelineEditor
