import PipelineEditor.Text.Search

/-! A description as the header of the editor shows it. -/
namespace PipelineEditor

/-- A description on one line, and its form for a tooltip. -/
structure Summary where
  line : String
  tooltip : String
deriving DecidableEq, Repr

namespace Summary

/-- What stands for a line break in a tooltip. -/
def lineBreak : String := "<br />"

/-- Line breaks become spaces on the line, and marks in the tooltip. -/
def ofDescription (description : String) : Summary :=
  if description.isEmpty then ⟨"", ""⟩
  else ⟨Text.replace "\n" " " description, Text.replace "\n" lineBreak description⟩

/-- The text shown over the header: the tooltip with its marks as line breaks again. -/
def hover (s : Summary) : String :=
  Text.replace lineBreak "\n" s.tooltip

end Summary
end PipelineEditor
