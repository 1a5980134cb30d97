import PipelineEditor.Text.Search

/-! Texts that hold another one, and the replacement of a single character, which goes character by
character. -/
namespace PipelineEditor.Text

theorem after?_eq_some_iff {pattern s rest : List Char} :
    after? pattern s = some rest ↔ s = pattern ++ rest := by
  induction pattern generalizing s with
  | nil => exact Option.some_inj
  | cons p ps ih =>
    cases s with
    | nil => exact ⟨nofun, nofun⟩
    | cons c cs =>
      rw [after?, List.cons_append, List.cons.injEq]
      by_cases h : p = c
      · rw [if_pos h, ih]
        exact (and_iff_right h.symm).symm
      · rw [if_neg h]
        exact ⟨nofun, fun same => absurd same.1.symm h⟩

theorem isSome_after?_iff {pattern s : List Char} :
    (after? pattern s).isSome = true ↔ pattern <+: s := by
  rw [Option.isSome_iff_exists]
  exact exists_congr fun rest => after?_eq_some_iff.trans eq_comm

theorem occurs_iff {pattern s : List Char} : occurs pattern s = true ↔ pattern <:+: s := by
  induction s with
  | nil => rw [occurs, List.isEmpty_iff, List.infix_nil]
  | cons c cs ih => rw [occurs, Bool.or_eq_true, isSome_after?_iff, ih, List.infix_cons_iff]

/-- No occurrence of a pattern goes over a character that the pattern does not have. -/
theorem infix_append_cons_iff {pattern before after : List Char} {c : Char} (h : c ∉ pattern) :
    pattern <:+: before ++ c :: after ↔ pattern <:+: before ∨ pattern <:+: after := by
  -- a pattern that starts within the first part ends there
  have within (s : List Char) : pattern <+: s ++ c :: after ↔ pattern <+: s := by
    refine ⟨fun start => ?_, fun start => start.trans (List.prefix_append _ _)⟩
    rcases List.prefix_or_prefix_of_prefix start (List.prefix_append s (c :: after)) with
      inside | ⟨rest, rfl⟩
    · exact inside
    · rw [List.prefix_append_right_inj] at start
      cases rest with
      | nil => exact ⟨[], by simp⟩
      | cons d rest =>
        obtain ⟨rfl, -⟩ := List.cons_prefix_cons.1 start
        exact absurd (List.mem_append_right s List.mem_cons_self) h
  induction before with
  | nil =>
    rw [List.nil_append, List.infix_cons_iff, List.infix_nil]
    exact or_congr ((within []).trans List.prefix_nil) Iff.rfl
  | cons d before ih =>
    rw [List.cons_append, List.infix_cons_iff, List.infix_cons_iff, ← List.cons_append, within,
      or_assoc]
    exact or_congr Iff.rfl ih

private theorem after?_singleton (c d : Char) (s : List Char) :
    after? [c] (d :: s) = if c = d then some s else none :=
  rfl

theorem replaceFrom_singleton (c : Char) (replacement s : List Char) :
    replaceFrom [c] replacement 0 s = s.flatMap fun d => if d = c then replacement else [d] := by
  induction s with
  | nil => rfl
  | cons d s ih =>
    rw [replaceFrom, after?_singleton, List.flatMap_cons]
    by_cases h : d = c
    · rw [if_pos h.symm, Option.isSome_some, if_pos rfl, if_pos h]
      exact congrArg (replacement ++ ·) ih
    · rw [if_neg (Ne.symm h), Option.isSome_none, if_neg Bool.false_ne_true, if_neg h, ih]
      rfl

end PipelineEditor.Text
