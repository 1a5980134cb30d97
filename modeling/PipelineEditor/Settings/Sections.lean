import PipelineEditor.Pipeline.Wire
import PipelineEditor.Toml.Document

/-! The contents of settings files: sections of optional fields, in TOML. Every field has to be
known. -/
namespace PipelineEditor.Settings

open Toml (Value Entries)

/-- What a file sets of the artifact. -/
structure ArtifactSection where
  name : Option String
  version : Option String
  scope : Option Scope
deriving DecidableEq, Repr

/-- What a file sets. -/
structure Sections where
  logFilter : Option String
  windowTitle : Option String
  queueCapacity : Option Nat
  artifact : Option ArtifactSection
deriving DecidableEq, Repr

/-- A text. -/
def readText : Value → Except ReadError String
  | .text s => .ok s
  | _ => .error .malformed

/-- A number of events. -/
def readCount : Value → Except ReadError Nat
  | .integer i => if i < 0 then .error .malformed else .ok i.toNat
  | _ => .error .malformed

/-- Whether a value holds nothing, as what stands beside a variant has to. -/
def isVoid : Value → Bool
  | .array items => items.isEmpty
  | .table _ entries => entries.isEmpty
  | .tables elements => elements.isEmpty
  | _ => false

/-- A scope by its name, or by the one key of a table. -/
def readScope : Value → Except ReadError Scope
  | .text s => Codec.variant Scope.variants s
  | .table _ [(name, v)] => do
    let scope ← Codec.variant Scope.variants name
    if isVoid v then return scope else throw .malformed
  | _ => .error .malformed

/-- The names of the fields of an artifact. -/
def artifactFields : List String := ["name", "version", "scope"]

/-- Reads one field of an artifact. -/
def readArtifactField (a : ArtifactSection) (key : String) (v : Value) :
    Except ReadError ArtifactSection :=
  if key = "name" then (readText v).map fun s => { a with name := some s }
  else if key = "version" then (readText v).map fun s => { a with version := some s }
  else if key = "scope" then (readScope v).map fun s => { a with scope := some s }
  else .error (.unknownField key artifactFields)

/-- An artifact, as a table or as an array that starts with all of its fields. -/
def readArtifact : Value → Except ReadError ArtifactSection
  | .table _ entries =>
    entries.foldlM (fun a (key, v) => readArtifactField a key v) ⟨none, none, none⟩
  | .array (name :: version :: scope :: _) => do
    let name ← readText name
    let version ← readText version
    let scope ← readScope scope
    return ⟨some name, some version, some scope⟩
  | _ => .error .malformed

/-- The names of the fields of a file. -/
def fields : List String := ["log_filter", "window_title", "event_queue_capacity", "artifact"]

/-- Reads one field of a file. -/
def readField (s : Sections) (key : String) (v : Value) : Except ReadError Sections :=
  if key = "log_filter" then (readText v).map fun t => { s with logFilter := some t }
  else if key = "window_title" then (readText v).map fun t => { s with windowTitle := some t }
  else if key = "event_queue_capacity" then
    (readCount v).map fun n => { s with queueCapacity := some n }
  else if key = "artifact" then (readArtifact v).map fun a => { s with artifact := some a }
  else .error (.unknownField key fields)

/-- Reads the fields of a table in its order. -/
def readEntries (entries : Entries) : Except ReadError Sections :=
  entries.foldlM (fun s (key, v) => readField s key v) ⟨none, none, none, none⟩

/-- Reads a settings file. One that is not TOML is refused before its fields are looked at. -/
def Sections.ofString (text : String) : Except ReadError Sections :=
  match Toml.ofString? text with
  | some entries => readEntries entries
  | none => .error .malformed

end PipelineEditor.Settings
