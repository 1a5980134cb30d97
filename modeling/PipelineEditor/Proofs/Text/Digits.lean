import Mathlib.Data.List.Induction
import PipelineEditor.Text.Decimal

/-! Runs of decimal digits, alone and in a longer text. A run is read up to the first character that
is no digit; the digits of a number are read as that number, and every run is the digits of a number
behind zeros. -/
namespace PipelineEditor.Text

theorem isDigit_eq (c : Char) : isDigit c = c.isDigit :=
  rfl

theorem isDigit_of_mem_digits {n : Nat} {c : Char} (h : c ∈ digits n) : isDigit c = true := by
  rw [isDigit_eq]
  exact Nat.isDigit_of_mem_toDigits (by decide) (by decide) h

theorem digits_ne_nil (n : Nat) : digits n ≠ [] :=
  Nat.toDigits_ne_nil

theorem isDigit_digitChar (d : Fin 10) : isDigit (digitChar d) = true := by
  revert d
  decide

theorem digitOfChar_digitChar (d : Fin 10) : digitOfChar (digitChar d) = d := by
  revert d
  decide

/-- No number but zero is written with a leading zero. -/
theorem digits_eq_zero_cons {n : Nat} {ds : List Char} (h : digits n = '0' :: ds) :
    n = 0 ∧ ds = [] := by
  induction n using Nat.strongRecOn generalizing ds with
  | _ n ih =>
    rw [digits, Nat.toDigits_eq_if (by decide)] at h
    split at h
    next hn =>
      obtain ⟨hc, rfl⟩ := List.cons.inj h
      have zero : ∀ m : Fin 10, Nat.digitChar m = '0' → m = 0 := by decide
      have := zero ⟨n, hn⟩ hc
      exact ⟨congrArg Fin.val this, rfl⟩
    next hn =>
      cases hd : digits (n / 10) with
      | nil => exact absurd hd (digits_ne_nil _)
      | cons c cs =>
        rw [show Nat.toDigits 10 (n / 10) = c :: cs from hd] at h
        obtain ⟨rfl, -⟩ := List.cons.inj h
        have := (ih (n / 10) (by omega) hd).1
        omega

/-- Whether a text goes on with a digit. -/
def startsWithDigit (s : List Char) : Bool :=
  s.head?.any isDigit

/-- A run of digits is read up to its end. -/
theorem spanDigits_append {ds rest : List Char} (hd : ∀ c ∈ ds, isDigit c = true)
    (hr : startsWithDigit rest = false) : spanDigits (ds ++ rest) = (ds, rest) := by
  have stop : rest.takeWhile isDigit = [] ∧ rest.dropWhile isDigit = rest := by
    cases rest with
    | nil => exact ⟨rfl, rfl⟩
    | cons c cs =>
      have hc : isDigit c = false := by simpa [startsWithDigit] using hr
      simp [hc]
  rw [spanDigits, List.takeWhile_append_of_pos hd, List.dropWhile_append_of_pos hd, stop.1, stop.2,
    List.append_nil]

theorem spanDigits_digits (n : Nat) {rest : List Char} (hr : startsWithDigit rest = false) :
    spanDigits (digits n ++ rest) = (digits n, rest) :=
  spanDigits_append (fun _ h => isDigit_of_mem_digits h) hr

/-! Which runs a number is read from. -/

theorem digitChar_digitValue {c : Char} (h : isDigit c = true) :
    digitValue c < 10 ∧ Nat.digitChar (digitValue c) = c := by
  have bounds : 48 ≤ c.toNat ∧ c.toNat ≤ 57 := by
    simpa [isDigit, Char.le_def, UInt32.le_iff_toNat_le] using h
  have digits : ∀ n : Fin 10, Nat.digitChar n = Char.ofNat (n + 48) := by decide
  have value : digitValue c = c.toNat - 48 := rfl
  have below : c.toNat - 48 < 10 := by omega
  refine ⟨below, (digits ⟨c.toNat - 48, below⟩).trans ?_⟩
  have back : c.toNat - 48 + 48 = c.toNat := by omega
  exact (congrArg Char.ofNat back).trans (Char.ofNat_toNat c)

theorem ofDigits_concat (ds : List Char) (c : Char) :
    ofDigits (ds ++ [c]) = ofDigits ds * 10 + digitValue c := by
  rw [ofDigits, Nat.ofDigitChars_append, Nat.ofDigitChars_cons, Nat.ofDigitChars_nil, Nat.mul_comm]
  rfl

private theorem exists_zeros_append_digits {ds : List Char} (hn : ds ≠ [])
    (hd : ∀ c ∈ ds, isDigit c = true) :
    ∃ k, ds = List.replicate k '0' ++ digits (ofDigits ds) := by
  induction ds using List.reverseRecOn with
  | nil => exact absurd rfl hn
  | append_singleton ds c ih =>
    obtain ⟨below, char⟩ := digitChar_digitValue (hd c (by simp))
    have single : digits (digitValue c) = [c] := by
      rw [digits, Nat.toDigits_eq_if (by decide), if_pos below, char]
    rw [ofDigits_concat]
    by_cases first : ds = []
    · subst first
      have value : ofDigits [] * 10 + digitValue c = digitValue c := Nat.zero_add _
      exact ⟨0, by rw [value, single]; rfl⟩
    · obtain ⟨k, front⟩ := ih first fun c hc => hd c (List.mem_append_left _ hc)
      by_cases zero : ofDigits ds = 0
      · refine ⟨k + 1, ?_⟩
        rw [zero, Nat.zero_mul, Nat.zero_add, single, List.replicate_succ']
        rw [zero] at front
        exact congrArg (· ++ [c]) front
      · refine ⟨k, ?_⟩
        have quotient : (ofDigits ds * 10 + digitValue c) / 10 = ofDigits ds := by omega
        have remainder : (ofDigits ds * 10 + digitValue c) % 10 = digitValue c := by omega
        have behind : digits (ofDigits ds * 10 + digitValue c) = digits (ofDigits ds) ++ [c] := by
          rw [digits, Nat.toDigits_eq_if (by decide), if_neg (by omega), quotient, remainder, char]
          rfl
        rw [behind, ← List.append_assoc, ← front]

/-- The runs of digits that a number is read from are its digits behind any number of zeros. -/
theorem ofDigits_eq_iff {ds : List Char} {n : Nat} :
    (ds ≠ [] ∧ (∀ c ∈ ds, isDigit c = true) ∧ ofDigits ds = n) ↔
      ∃ k, ds = List.replicate k '0' ++ digits n := by
  constructor
  · rintro ⟨some, all, rfl⟩
    exact exists_zeros_append_digits some all
  · rintro ⟨k, rfl⟩
    refine ⟨List.append_ne_nil_of_right_ne_nil _ (digits_ne_nil n), fun c hc => ?_, ?_⟩
    · rcases List.mem_append.1 hc with zero | digit
      · rw [List.eq_of_mem_replicate zero]
        decide
      · exact isDigit_of_mem_digits digit
    · rw [ofDigits, Nat.ofDigitChars_append, Nat.ofDigitChars_replicate_zero, Nat.mul_zero]
      exact ofDigits_digits n

end PipelineEditor.Text
