import Mathlib.Data.List.Induction

/-! Histories: rows of what was done, cut at one of their members. They grow at the end, and a longer
one is cut at its last member or where the shorter one is. -/
namespace PipelineEditor

section

variable {α : Type} {row before later : List α} {x y : α} {P : List α → α → Prop}

theorem concat_eq_cut_iff :
    row ++ [y] = before ++ x :: later ↔
      (row = before ∧ y = x ∧ later = []) ∨
        ∃ rest, later = rest ++ [y] ∧ row = before ++ x :: rest := by
  constructor
  · intro cut
    rcases List.eq_nil_or_concat later with rfl | ⟨rest, z, rfl⟩
    · obtain ⟨same, last⟩ := List.append_inj' cut rfl
      exact .inl ⟨same, List.singleton_inj.1 last, rfl⟩
    · rw [List.concat_eq_append, ← List.cons_append, ← List.append_assoc] at cut
      obtain ⟨same, last⟩ := List.append_inj' cut rfl
      obtain rfl := List.singleton_inj.1 last
      exact .inr ⟨rest, List.concat_eq_append, same⟩
  · rintro (⟨rfl, rfl, rfl⟩ | ⟨rest, rfl, rfl⟩)
    · rfl
    · simp

/-- Something holds of some member of a row and those before it. -/
def Sometime (row : List α) (P : List α → α → Prop) : Prop :=
  ∃ before x later, row = before ++ x :: later ∧ P before x

theorem Sometime.concat (past : Sometime row P) (y : α) : Sometime (row ++ [y]) P := by
  obtain ⟨before, x, later, rfl, hx⟩ := past
  exact ⟨before, x, later ++ [y], concat_eq_cut_iff.2 (.inr ⟨later, rfl, rfl⟩), hx⟩

theorem Sometime.now (last : P row y) : Sometime (row ++ [y]) P :=
  ⟨row, y, [], rfl, last⟩

end

end PipelineEditor
