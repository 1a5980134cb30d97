/-! Occurrences of one text within another, and their replacement from left to right. -/
namespace PipelineEditor.Text

/-- The rest of a text behind `pattern`, if the text starts with it. -/
def after? : List Char → List Char → Option (List Char)
  | [], s => some s
  | _ :: _, [] => none
  | p :: ps, c :: cs => if p = c then after? ps cs else none

/-- Whether `pattern` occurs in a text. -/
def occurs (pattern : List Char) : List Char → Bool
  | [] => pattern.isEmpty
  | c :: cs => (after? pattern (c :: cs)).isSome || occurs pattern cs

/-- The text with every occurrence of a pattern replaced; occurrences are looked for from the left
and do not overlap. The first argument counts the characters of an occurrence that are still to be
passed over. -/
def replaceFrom (pattern replacement : List Char) : Nat → List Char → List Char
  | _, [] => []
  | skip + 1, _ :: cs => replaceFrom pattern replacement skip cs
  | 0, c :: cs =>
    if (after? pattern (c :: cs)).isSome then
      replacement ++ replaceFrom pattern replacement (pattern.length - 1) cs
    else c :: replaceFrom pattern replacement 0 cs

/-- The text with every occurrence of a non-empty pattern replaced. -/
def replace (pattern replacement s : String) : String :=
  String.ofList (replaceFrom pattern.toList replacement.toList 0 s.toList)

/-- Whether a text holds another one. -/
def holds (s pattern : String) : Bool :=
  occurs pattern.toList s.toList

end PipelineEditor.Text
