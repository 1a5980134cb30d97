import PipelineEditor.Number.Word
import PipelineEditor.Settings.Basic
import PipelineEditor.Settings.Sections
import PipelineEditor.Text.Case

/-! The layers of the settings: the standard, a file over it, and the environment over both. -/
namespace PipelineEditor.Settings

/-- The values of environment variables that are set to texts. -/
abbrev Environment := String → Option String

/-- Where the settings file is: at a path that was given, or at the usual one. -/
inductive Source
  | given (file : FileState)
  | usual (file : FileState)

/-- The usual place of the settings file, below the directory for configuration files: the one that
is named, if its path is absolute, or the one in the home directory. -/
def usualPath? (configHome home : Option String) : Option String :=
  ((configHome.filter fun d => d.toList.head? == some '/') <|> home.map (· ++ "/.config")).map
    (· ++ "/pipeline-studio/studio.toml")

/-- The artifact with what a section sets of it. -/
def withArtifact (s : Settings) (a : ArtifactSection) : Settings :=
  { s with artifact :=
    ⟨a.name.getD s.artifact.name, a.version.getD s.artifact.version, a.scope.getD s.artifact.scope⟩ }

/-- Sets what a file sets, field after field: the settings after it and what ended it. A capacity of
zero is refused when its turn comes. -/
def applySections (s : Settings) (f : Sections) : Settings × Option SettingsError :=
  let s := { s with
    logFilter := f.logFilter.getD s.logFilter
    windowTitle := f.windowTitle.getD s.windowTitle }
  if f.queueCapacity = some 0 then (s, some .noCapacity)
  else
    let s := { s with queueCapacity := f.queueCapacity.getD s.queueCapacity }
    (match f.artifact with
      | some a => s.withArtifact a
      | none => s, none)

/-- Applies the text of a file: the settings after it, and why it was refused if it was. -/
def applyFile (s : Settings) (text : String) : Settings × Option SettingsError :=
  match Sections.ofString text with
  | .ok f => s.applySections f
  | .error e => (s, some (.malformed e))

/-- The scope that the environment names, without regard to the case of ASCII letters. -/
def scopeVariable? (value : String) : Option Scope :=
  if Text.lower value = "user" then some .user
  else if Text.lower value = "system" then some .system
  else none

/-- The capacity that the environment names: a positive number of at most 64 bits, in decimal
digits, with or without a plus sign. -/
def capacityVariable? (value : String) : Option Nat :=
  let ds := match value.toList with
    | '+' :: ds => ds
    | ds => ds
  let n := Text.ofDigits ds
  if !ds.isEmpty && ds.all Text.isDigit && 0 < n && n < Number.wordBound then some n else none

/-- The environment variables that are looked at. -/
def variableNames : List String :=
  ["STUDIO__LOG_FILTER", "STUDIO__ARTIFACT_NAME", "STUDIO__ARTIFACT_VERSION", "STUDIO__ARTIFACT_SCOPE",
    "STUDIO__EVENT_QUEUE_CAPACITY"]

/-- Sets what the environment sets. Values that are of no use are passed over. -/
def applyEnvironment (s : Settings) (env : Environment) : Settings where
  logFilter := (env "STUDIO__LOG_FILTER").getD s.logFilter
  windowTitle := s.windowTitle
  queueCapacity := ((env "STUDIO__EVENT_QUEUE_CAPACITY").bind capacityVariable?).getD s.queueCapacity
  artifact :=
    { name := (env "STUDIO__ARTIFACT_NAME").getD s.artifact.name
      version := (env "STUDIO__ARTIFACT_VERSION").getD s.artifact.version
      scope := ((env "STUDIO__ARTIFACT_SCOPE").bind scopeVariable?).getD s.artifact.scope }

/-- The standard settings with a file over them. A file that is missing from the usual place sets
nothing. -/
def ofSource : Source → Except SettingsError Settings
  | .usual .missing => .ok .standard
  | .usual file | .given file =>
    match file.text with
    | .error e => .error (.unreadable e)
    | .ok text =>
      match Settings.standard.applyFile text with
      | (s, none) => .ok s
      | (_, some e) => .error e

/-- Loads the settings from all layers. -/
def load (source : Source) (env : Environment) : Except SettingsError Settings :=
  (ofSource source).map fun s => s.applyEnvironment env

end PipelineEditor.Settings
