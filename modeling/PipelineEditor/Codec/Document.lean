import PipelineEditor.Codec.Basic
import PipelineEditor.Json.Document
import PipelineEditor.Json.Render

/-! Values of a codec as whole JSON texts. -/
namespace PipelineEditor.Codec

variable {α : Type}

/-- Reads a text that holds one value and nothing else. A problem within the value is found before
one behind it. -/
def decode (c : Codec α) (text : String) : Except ReadError α := do
  let document := Json.Document.ofString text
  let a ← c.read document.root
  if document.complete then return a else throw .malformed

/-- The text of a value on one line. -/
def encode (c : Codec α) (a : α) : String :=
  (c.write a).compact

/-- The text of a value on indented lines. -/
def encodePretty (c : Codec α) (a : α) : String :=
  (c.write a).pretty

end PipelineEditor.Codec
