/-! Upper and lower case, of ASCII letters only. -/
namespace PipelineEditor.Text

/-- The text with its ASCII letters in lower case. -/
def lower (s : String) : String :=
  String.ofList (s.toList.map Char.toLower)

example : lower "I/O É" = "i/o É" := by decide

end PipelineEditor.Text
