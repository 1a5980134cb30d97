import PipelineEditor.Window.Basic

/-! What the window shows: its widgets in the order in which they are added, and the colours of
texts. -/
namespace PipelineEditor

/-- What a widget is. -/
inductive Role
  | label
  | button
  | disabledButton
  | input
  | textArea
  | choice
deriving DecidableEq, Repr

def Role.name : Role → String
  | .label => "label"
  | .button => "button"
  | .disabledButton => "button disabled"
  | .input => "input"
  | .textArea => "text area"
  | .choice => "choice"

/-- A widget with its text, and what a click on it means. -/
structure Widget where
  role : Role
  text : String
  target : Option Target
deriving DecidableEq, Repr

namespace Widget

def label (text : String) : Widget := ⟨.label, text, none⟩

def button (text : String) (target : Target) : Widget := ⟨.button, text, some target⟩

def input (text : String) : Widget := ⟨.input, text, none⟩

def textArea (text : String) : Widget := ⟨.textArea, text, none⟩

/-- Widgets that a click finds. -/
def clickable (w : Widget) : Bool :=
  w.role == .button || w.role == .disabledButton || w.role == .choice

end Widget

/-- The symbol that is shown for an icon. -/
def iconGlyph (icon : String) : String :=
  match icon with
  | "fa-sliders" => "⚙"
  | "icon-export" => "⤓"
  | "icon-savedraft" => "💾"
  | "icon-validate" => "✔"
  | "icon-publish" => "🚀"
  | _ => "•"

namespace Operation

/-- The text of an operation's button. -/
def caption (o : Operation) : String :=
  iconGlyph o.icon ++ " " ++ o.label

end Operation

namespace Window

/-- Whether the title is an invitation to give a name. -/
def isUntitled (p : Panel) : Bool :=
  p.metadata.name.isEmpty

/-- The title over the canvas: the name, or an invitation to give one. -/
def title (p : Panel) : String :=
  if isUntitled p then "Name your pipeline" else p.metadata.name

/-- The title with the description, or the metadata editor. -/
def header (p : Panel) : List Widget :=
  if p.expanded then
    [.input p.metadata.name, .textArea p.metadata.description, .button "Save" .save,
      .button "Cancel" .cancel]
  else
    [.button (title p) .title] ++
      (if p.description.line.isEmpty then [] else [.label p.description.line]) ++
      [.label p.artifact.display]

/-- The buttons of the operations, from the last to the first. -/
def operationButtons : List Widget :=
  Operation.all.reverse.map fun o => .button o.caption (.operation o)

/-- The settings, when they are visible. -/
def settingsPanel (p : Panel) (g : Graph) : List Widget :=
  if p.settingsVisible then
    [.label "Artifact", .label p.artifact.display, .label "Stages",
      .label (Text.ofNat g.stages.length), .label "Connections",
      .label (Text.ofNat g.connections.length)]
  else []

/-- The status line and the messages. -/
def console (w : Window) : List Widget :=
  .label w.status ::
    (if w.session.console.isEmpty then [.label "No messages"]
    else w.session.console.map fun m => .label m.content)

/-- The text of a stage's button. -/
def stageCaption (s : Stage) : String :=
  s.name ++ "  (" ++ s.plugin.name ++ " / " ++ s.plugin.kind ++ ")"

/-- The stages and the form for new ones. -/
def canvas (w : Window) : List Widget :=
  .label "Stages" ::
    (w.session.pipeline.graph.stages.zipIdx.map fun (s, i) => .button (stageCaption s) (.stage i)) ++
    [.input w.form.name, .input w.form.plugin, ⟨.choice, w.form.kind.name, some .kinds⟩,
      if w.form.complete then .button "Add stage" .addStage
      else ⟨.disabledButton, "Add stage", none⟩] ++
    (if w.kindsShown then PluginKind.all.map fun k => .button k.name (.kind k) else [])

/-- The export window, when there is a request. -/
def exportWidgets (request : ExportRequest) : List Widget :=
  [.label (request.exported.name ++ " (" ++ Text.ofNat request.display.graph.stages.length ++
      " stages) on " ++ request.exported.artifact.display),
    .button "Copy JSON" .copy, .button "Save as…" .saveAs, .button "Close" .close,
    .textArea request.document, .button "Close window" .closeWindow]

/-- All widgets. -/
def widgets (w : Window) : List Widget :=
  let panel := match w.panel? with
    | some p => header p ++ operationButtons ++ settingsPanel p w.session.pipeline.graph
    | none => []
  panel ++ w.console ++ w.canvas ++ (w.session.exportRequest.map exportWidgets).getD []

/-- All widgets as lines of text. -/
def listing (w : Window) : List String :=
  w.widgets.map fun x => x.role.name ++ ": " ++ x.text

/-- The height of a message in the console: its lines, and the gap to the next one. -/
def messageHeight (m : Message) : Nat :=
  15 * (m.content.toList.count '\n' + 1) + 3

/-- How far above the end of the console a message may end to be painted. -/
def consoleHeight : Nat := 67

/-- The messages that are painted. The console shows its end, and what lies above is cut off. -/
def paintedMessages : List Message → List Message
  | [] => []
  | m :: ms =>
    if (ms.map messageHeight).sum ≤ consoleHeight then m :: ms else paintedMessages ms

/-- The texts in the colour of errors: a name that was found fault with, a failure on the status
line, and messages that report a problem. -/
def redTexts (w : Window) : List String :=
  let name := match w.panel? with
    | some p => if p.invalidName then [if p.expanded then p.metadata.name else title p] else []
    | none => []
  let status := if w.statusIsError then [w.status] else []
  let messages := (paintedMessages w.session.console).filter (·.kind.isError)
  (name ++ status ++ messages.map (·.content)).filter (!·.isEmpty)

/-- The texts in the colour of success. -/
def greenTexts (w : Window) : List String :=
  (((paintedMessages w.session.console).filter (·.kind == .success)).map (·.content)).filter
    (!·.isEmpty)

/-- Whether the name field has the focus. -/
def nameFocused (w : Window) : Bool :=
  w.focus == some .name

end Window
end PipelineEditor
