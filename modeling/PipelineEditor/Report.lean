import PipelineEditor.Text.Case
import PipelineEditor.Text.Search

/-! Reports of failures for the status line. -/
namespace PipelineEditor

/-- What kind of failure is reported. -/
inductive Category
  | io
  | clipboard
  | validation
  | unknown
deriving DecidableEq, Repr

/-- What was being done when it failed. -/
inductive Activity
  | exporting
deriving DecidableEq, Repr

/-- A failure as it is reported. -/
structure Report where
  category : Category
  activity : Activity
  message : String
deriving DecidableEq, Repr

namespace Report

/-- The category of a message, by the words in it without regard to the case of ASCII letters. The
clipboard comes before files, and files before validation. -/
def categorize (message : String) : Category :=
  let lower := Text.lower message
  if Text.holds lower "clipboard" then .clipboard
  else if ["permission denied", "no such file", "i/o", "read-only"].any (Text.holds lower) then .io
  else if ["invalid", "missing", "malformed"].any (Text.holds lower) then .validation
  else .unknown

/-- The report of a message. -/
def ofMessage (activity : Activity) (message : String) : Report :=
  ⟨categorize message, activity, message⟩

/-- The report on the status line. -/
def statusLine (r : Report) : String :=
  (match r.activity with
    | .exporting => "Export failed") ++ ": " ++ r.message

end Report
end PipelineEditor
