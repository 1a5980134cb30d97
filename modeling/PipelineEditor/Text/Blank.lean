/-! Unicode white space, and the trimming of texts by it. -/
namespace PipelineEditor.Text

/-- The characters with the Unicode property White_Space. -/
def isBlank (c : Char) : Bool :=
  ('\t' ≤ c && c ≤ '\r') || c == ' ' || c == '\u0085' || c == '\u00a0' || c == '\u1680' ||
    ('\u2000' ≤ c && c ≤ '\u200a') || c == '\u2028' || c == '\u2029' || c == '\u202f' ||
    c == '\u205f' || c == '\u3000'

/-- The characters left when white space is taken off both ends. -/
def trimChars (s : List Char) : List Char :=
  ((s.dropWhile isBlank).reverse.dropWhile isBlank).reverse

/-- The text without the white space at its two ends. -/
def trim (s : String) : String :=
  String.ofList (trimChars s.toList)

/-- A text is blank when it holds nothing but white space. -/
def blank (s : String) : Bool :=
  s.toList.all isBlank

private theorem dropWhile_eq_nil (p : Char → Bool) (s : List Char) :
    s.dropWhile p = [] ↔ s.all p = true := by
  induction s with
  | nil => simp
  | cons c s ih => by_cases hc : p c = true <;> simp [hc, ih]

private theorem all_dropWhile (p : Char → Bool) (s : List Char) :
    (s.dropWhile p).all p = s.all p := by
  induction s with
  | nil => simp
  | cons c s ih => by_cases hc : p c = true <;> simp [hc, ih]

/-- Nothing is left of blank texts, and of no others. -/
theorem trim_eq_empty_iff (s : String) : trim s = "" ↔ blank s = true := by
  rw [trim, String.ofList_eq_empty_iff, trimChars, List.reverse_eq_nil_iff, dropWhile_eq_nil,
    List.all_reverse, all_dropWhile, blank]

example : trim "\u3000 a b\u0085\n" = "a b" := by decide
example : blank "\u2003\t" = true ∧ blank "\u200b" = false := by decide

end PipelineEditor.Text
