import PipelineEditor.Text.Blank

/-! What trimming leaves of a text: if it is anything, it begins and ends with something that is no
white space. -/
namespace PipelineEditor.Text

private theorem not_isBlank_of_mem_head?_dropWhile {s : List Char} {c : Char}
    (h : c ∈ (s.dropWhile isBlank).head?) : isBlank c = false := by
  have first := List.head?_dropWhile_not isBlank s
  rw [Option.mem_def.1 h] at first
  exact first

theorem not_isBlank_of_mem_getLast?_trimChars {s : List Char} {c : Char}
    (h : c ∈ (trimChars s).getLast?) : isBlank c = false := by
  rw [trimChars, List.getLast?_reverse] at h
  exact not_isBlank_of_mem_head?_dropWhile h

theorem not_isBlank_of_mem_head?_trimChars {s : List Char} {c : Char}
    (h : c ∈ (trimChars s).head?) : isBlank c = false := by
  -- what is left after the end was trimmed still begins as it did before
  have start : trimChars s <+: s.dropWhile isBlank := by
    have ending := List.dropWhile_suffix isBlank (l := (s.dropWhile isBlank).reverse)
    have turned := List.reverse_prefix.2 ending
    rwa [List.reverse_reverse] at turned
  obtain ⟨cut, whole⟩ := start
  apply not_isBlank_of_mem_head?_dropWhile (s := s)
  rw [← whole, List.head?_append, Option.mem_def.1 h]
  rfl

end PipelineEditor.Text
