import PipelineEditor.File

/-! The texts that files hold. -/
namespace PipelineEditor.FileState

private theorem fromUTF8?_eq_some_iff {bytes : ByteArray} {text : String} :
    String.fromUTF8? bytes = some text ↔ bytes = text.toUTF8 := by
  rw [String.toUTF8_eq_toByteArray, String.fromUTF8?]
  constructor
  · intro h
    split at h
    · obtain rfl := Option.some.inj h
      rfl
    · cases h
  · rintro rfl
    have valid : text.toByteArray.IsValidUTF8 := text.isValidUTF8
    rw [dif_pos valid]
    rfl

/-- A file has a text exactly when it holds that text in UTF-8. -/
theorem text_eq_ok_iff {file : FileState} {text : String} :
    file.text = .ok text ↔ file = .content text.toUTF8 := by
  cases file with
  | missing => exact ⟨nofun, nofun⟩
  | directory => exact ⟨nofun, nofun⟩
  | content bytes =>
    rw [content.injEq, ← fromUTF8?_eq_some_iff, FileState.text]
    cases String.fromUTF8? bytes with
    | none => exact ⟨nofun, nofun⟩
    | some found => rw [Except.ok.injEq, Option.some.injEq]

end PipelineEditor.FileState
