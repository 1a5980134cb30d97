import PipelineEditor.Proofs.Text.Case
import PipelineEditor.Proofs.Text.Digits
import PipelineEditor.Settings.Loading

/-! Which values of environment variables are of use. -/
namespace PipelineEditor.Settings

/-- The text is a number in decimal digits. Zeros may stand before it, and a plus sign before these. -/
def WritesNumber (text : String) (n : Nat) : Prop :=
  ∃ k, text.toList = List.replicate k '0' ++ Text.digits n ∨
    text.toList = '+' :: (List.replicate k '0' ++ Text.digits n)

/-- A value of use for the capacity: it is a positive number of at most 64 bits. -/
def NamesCapacity (value : String) (n : Nat) : Prop :=
  WritesNumber value n ∧ 0 < n ∧ n < Number.wordBound

/-- A value of use for the scope: it is the name of one, in any case. -/
def NamesScope (value : String) : Scope → Prop
  | .user => Text.InAnyCase value "user"
  | .system => Text.InAnyCase value "system"

/-- The digits of a capacity, behind its plus sign if there is one. -/
private def capacityDigits : List Char → List Char
  | '+' :: ds => ds
  | ds => ds

private theorem capacityDigits_eq_iff {cs : List Char} {n : Nat} :
    (∃ k, capacityDigits cs = List.replicate k '0' ++ Text.digits n) ↔
      ∃ k, cs = List.replicate k '0' ++ Text.digits n ∨
        cs = '+' :: (List.replicate k '0' ++ Text.digits n) := by
  constructor
  · rintro ⟨k, run⟩
    unfold capacityDigits at run
    split at run
    · exact ⟨k, .inr (congrArg _ run)⟩
    · exact ⟨k, .inl run⟩
  · rintro ⟨k, rfl | rfl⟩
    · refine ⟨k, ?_⟩
      have run := (Text.ofDigits_eq_iff.2 ⟨k, rfl⟩ :
        List.replicate k '0' ++ Text.digits n ≠ [] ∧ _ ∧ _ = n).2.1
      unfold capacityDigits
      split
      next ds first =>
        -- a run of digits does not start with a sign
        rw [first] at run
        exact absurd (run '+' List.mem_cons_self) (by decide)
      · rfl
    · exact ⟨k, rfl⟩

theorem capacityVariable?_eq_some_iff {value : String} {n : Nat} :
    capacityVariable? value = some n ↔ NamesCapacity value n := by
  have body : capacityVariable? value =
      (if !(capacityDigits value.toList).isEmpty && (capacityDigits value.toList).all Text.isDigit &&
          0 < Text.ofDigits (capacityDigits value.toList) &&
          Text.ofDigits (capacityDigits value.toList) < Number.wordBound then
        some (Text.ofDigits (capacityDigits value.toList)) else none) := rfl
  rw [body, NamesCapacity, WritesNumber, ← capacityDigits_eq_iff, ← Text.ofDigits_eq_iff]
  generalize capacityDigits value.toList = ds
  constructor
  · intro h
    split at h
    next usable =>
      obtain rfl := Option.some.inj h
      simpa [and_assoc] using usable
    · cases h
  · rintro ⟨⟨some, all, rfl⟩, positive, small⟩
    rw [if_pos (by simpa [positive, small] using ⟨some, all⟩)]

theorem scopeVariable?_eq_some_iff {value : String} {scope : Scope} :
    scopeVariable? value = some scope ↔ NamesScope value scope := by
  have user : Text.lower value = "user" ↔ Text.InAnyCase value "user" :=
    Text.lower_eq_iff (by decide)
  have system : Text.lower value = "system" ↔ Text.InAnyCase value "system" :=
    Text.lower_eq_iff (by decide)
  unfold scopeVariable?
  by_cases hu : Text.lower value = "user"
  · rw [if_pos hu]
    cases scope with
    | user => exact ⟨fun _ => user.1 hu, fun _ => rfl⟩
    | system => exact ⟨nofun, fun h => absurd (hu.symm.trans (system.2 h)) (by decide)⟩
  · rw [if_neg hu]
    by_cases hs : Text.lower value = "system"
    · rw [if_pos hs]
      cases scope with
      | user => exact ⟨nofun, fun h => absurd (user.2 h) hu⟩
      | system => exact ⟨fun _ => system.1 hs, fun _ => rfl⟩
    · rw [if_neg hs]
      cases scope with
      | user => exact ⟨nofun, fun h => absurd (user.2 h) hu⟩
      | system => exact ⟨nofun, fun h => absurd (system.2 h) hs⟩

end PipelineEditor.Settings
