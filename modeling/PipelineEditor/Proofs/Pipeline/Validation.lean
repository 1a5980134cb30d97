import PipelineEditor.Pipeline.Validation

/-! What it takes for a pipeline to be valid. -/
namespace PipelineEditor.Pipeline

/-- A pipeline that can be published: its name is valid, and its connections join stages that it
has. -/
structure Sound (p : Pipeline) : Prop where
  name : isValidName p.name = true
  stages : p.graph.stages ≠ []
  joined : ∀ c ∈ p.graph.connections,
    c.source ∈ p.graph.stages.map (·.name) ∧ c.target ∈ p.graph.stages.map (·.name)

/-! No character of a valid name is white space, so that a valid name is never a missing one. -/

private theorem isBlank_of_isNameChar {c : Char} (h : isNameChar c = true) :
    Text.isBlank c = false := by
  have ascii : ∀ n < 128, isNameChar (Char.ofNat n) = true →
      Text.isBlank (Char.ofNat n) = false := by decide
  have small : c.toNat < 128 := by
    delta isNameChar Char.isAlphanum Char.isAlpha Char.isUpper Char.isLower Char.isDigit at h
    simp only [Bool.or_eq_true, Bool.and_eq_true, decide_eq_true_eq, beq_iff_eq,
      UInt32.le_iff_toNat_le, ge_iff_le] at h
    change ((((65 ≤ c.toNat ∧ c.toNat ≤ 90) ∨ (97 ≤ c.toNat ∧ c.toNat ≤ 122)) ∨
      (48 ≤ c.toNat ∧ c.toNat ≤ 57)) ∨ c = '_') ∨ c = '-' at h
    rcases h with (((upper | lower) | digit) | rfl) | rfl
    · omega
    · omega
    · omega
    · decide
    · decide
  rw [← Char.ofNat_toNat c] at h ⊢
  exact ascii c.toNat small h

private theorem blank_of_isValidName {name : String} (h : isValidName name = true) :
    Text.blank name = false := by
  obtain ⟨nonempty, chars⟩ := Bool.and_eq_true_iff.1 h
  cases hs : name.toList with
  | nil =>
    rw [String.toList_eq_nil_iff.1 hs] at nonempty
    cases nonempty
  | cons c cs =>
    rw [hs, List.all_cons, Bool.and_eq_true] at chars
    rw [Text.blank, hs, List.all_cons, isBlank_of_isNameChar chars.1, Bool.false_and]

theorem nameProblems_eq_nil_iff (name : String) :
    nameProblems name = [] ↔ isValidName name = true := by
  unfold nameProblems
  constructor
  · intro h
    split at h
    · cases h
    · split at h
      next valid => exact valid
      · cases h
  · intro valid
    rw [if_neg (by simp [blank_of_isValidName valid]), if_pos valid]

theorem stageProblems_eq_nil_iff (g : Graph) : stageProblems g = [] ↔ g.stages ≠ [] := by
  unfold stageProblems
  cases g.stages <;> simp

theorem connectionProblems_eq_nil_iff (g : Graph) :
    connectionProblems g = [] ↔ ∀ c ∈ g.connections,
      c.source ∈ g.stages.map (·.name) ∧ c.target ∈ g.stages.map (·.name) := by
  have known (name : String) :
      (g.stages.any fun s => s.name == name) = true ↔ name ∈ g.stages.map (·.name) := by
    simp [List.any_eq_true]
  unfold connectionProblems
  rw [List.flatMap_eq_nil_iff]
  refine forall₂_congr fun c _ => ?_
  rw [List.map_eq_nil_iff, List.filter_eq_nil_iff]
  simp only [Bool.not_eq_true', Bool.not_eq_false, known, List.forall_mem_cons, List.not_mem_nil,
    false_imp_iff, implies_true, and_true]

/-- A pipeline has no problems exactly when it can be published. -/
theorem isValid_iff (p : Pipeline) : p.isValid = true ↔ p.Sound := by
  rw [isValid, problems, List.isEmpty_iff, List.append_eq_nil_iff, List.append_eq_nil_iff,
    nameProblems_eq_nil_iff, stageProblems_eq_nil_iff, connectionProblems_eq_nil_iff]
  constructor
  · rintro ⟨⟨name, stages⟩, joined⟩
    exact ⟨name, stages, joined⟩
  · rintro ⟨name, stages, joined⟩
    exact ⟨⟨name, stages⟩, joined⟩

end PipelineEditor.Pipeline
