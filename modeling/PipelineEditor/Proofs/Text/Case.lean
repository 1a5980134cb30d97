import Mathlib.Data.List.Forall2
import PipelineEditor.Proofs.Text.Search
import PipelineEditor.Text.Case

/-! Texts that are the same words but for the case of ASCII letters, and texts that hold them. -/
namespace PipelineEditor.Text

/-- The text is a word in lower case, or in upper case in any of its letters. -/
def InAnyCase (text word : String) : Prop :=
  List.Forall₂ (fun c l => c = l ∨ c = l.toUpper) text.toList word.toList

/-- A word stands somewhere in the text, in any case. -/
def Mentions (text word : String) : Prop :=
  ∃ before part after, text = before ++ part ++ after ∧ InAnyCase part word

private theorem toNat_toLower (c : Char) :
    c.toLower.toNat = if 65 ≤ c.toNat ∧ c.toNat ≤ 90 then c.toNat + 32 else c.toNat := by
  have range : (c.val ≥ 'A'.val ∧ c.val ≤ 'Z'.val) ↔ 65 ≤ c.toNat ∧ c.toNat ≤ 90 := by
    simp only [ge_iff_le, UInt32.le_iff_toNat_le]
    rfl
  unfold Char.toLower
  split
  next h =>
    rw [if_pos (range.1 h)]
    have high : c.val.toNat ≤ 90 := (range.1 h).2
    change (c.val + 32).toNat = c.val.toNat + 32
    rw [UInt32.toNat_add]
    exact Nat.mod_eq_of_lt (by change c.val.toNat + 32 < 4294967296; omega)
  next h => rw [if_neg (mt range.2 h)]

private theorem toNat_toUpper (c : Char) :
    c.toUpper.toNat = if 97 ≤ c.toNat ∧ c.toNat ≤ 122 then c.toNat - 32 else c.toNat := by
  have range : ('a'.val ≤ c.val ∧ c.val ≤ 'z'.val) ↔ 97 ≤ c.toNat ∧ c.toNat ≤ 122 := by
    simp only [UInt32.le_iff_toNat_le]
    rfl
  unfold Char.toUpper
  split
  next h =>
    rw [if_pos (range.1 h)]
    -- the difference of the cases is added modulo the size of a word
    have size := c.val.toNat_lt
    have low : 97 ≤ c.val.toNat := (range.1 h).1
    change (c.val + 4294967264).toNat = c.val.toNat - 32
    rw [UInt32.toNat_add]
    change (c.val.toNat + 4294967264) % 4294967296 = _
    omega
  next h => rw [if_neg (mt range.2 h)]

/-- Characters other than letters have no case. -/
private theorem toLower_eq_iff {c l : Char} (h : l.isUpper = false) :
    c.toLower = l ↔ c = l ∨ c = l.toUpper := by
  have small : ¬ (65 ≤ l.toNat ∧ l.toNat ≤ 90) := by
    rintro ⟨low, high⟩
    have first : 'A'.val ≤ l.val := UInt32.le_iff_toNat_le.2 low
    have last : l.val ≤ 'Z'.val := UInt32.le_iff_toNat_le.2 high
    have upper : l.isUpper = true := decide_eq_true ⟨first, last⟩
    exact Bool.noConfusion (h.symm.trans upper)
  rw [← Char.toNat_inj, ← Char.toNat_inj, ← Char.toNat_inj, toNat_toLower, toNat_toUpper]
  split <;> split <;> omega

private theorem map_toLower_eq_iff {cs ls : List Char} (h : ls.all (!·.isUpper) = true) :
    cs.map Char.toLower = ls ↔ List.Forall₂ (fun c l => c = l ∨ c = l.toUpper) cs ls := by
  induction cs generalizing ls with
  | nil => cases ls <;> simp
  | cons c cs ih =>
    cases ls with
    | nil => simp
    | cons l ls =>
      obtain ⟨first, rest⟩ := Bool.and_eq_true_iff.1 h
      rw [List.map_cons, List.cons.injEq, toLower_eq_iff (by simpa using first), ih rest,
        List.forall₂_cons]

/-- A text in lower case is a word exactly when the text is that word in any case. -/
theorem lower_eq_iff {text word : String} (h : word.toList.all (!·.isUpper) = true) :
    lower text = word ↔ InAnyCase text word := by
  rw [InAnyCase, ← map_toLower_eq_iff h, lower, ← String.toList_inj, String.toList_ofList]

/-- A text in lower case holds a word exactly when the text mentions it. -/
theorem holds_lower_iff {text word : String} (h : word.toList.all (!·.isUpper) = true) :
    holds (lower text) word = true ↔ Mentions text word := by
  rw [holds, occurs_iff, lower, String.toList_ofList, List.infix_map_iff]
  constructor
  · rintro ⟨part, ⟨before, after, whole⟩, same⟩
    refine ⟨.ofList before, .ofList part, .ofList after, ?_, ?_⟩
    · rw [← String.toList_inj]
      simpa using whole.symm
    · rw [InAnyCase, String.toList_ofList]
      exact (map_toLower_eq_iff h).1 same.symm
  · rintro ⟨before, part, after, rfl, same⟩
    refine ⟨part.toList, ⟨before.toList, after.toList, ?_⟩, ((map_toLower_eq_iff h).2 same).symm⟩
    simp

end PipelineEditor.Text
