import Mathlib.Algebra.Group.Nat.Defs
import Mathlib.Data.List.Induction
import PipelineEditor.Text.Decimal

/-! Numbers and the values of their decimal digits. A run of digits that does not start with zero is the
run of one number, and its length tells between which powers of ten the number lies. -/
namespace PipelineEditor.Text

/-- The last digit of a number comes off the end. -/
theorem digitValues_eq (n : Nat) :
    digitValues n = if n < 10 then [digitOf n] else digitValues (n / 10) ++ [digitOf n] := by
  have last : ∀ d : Fin 10, digitOfChar (Nat.digitChar d) = d := by decide
  unfold digitValues digits
  rw [Nat.toDigits_eq_if (by decide)]
  split
  next h => exact congrArg (fun d => [d]) ((last ⟨n, h⟩).trans (Fin.ext (Nat.mod_eq_of_lt h).symm))
  next h =>
    rw [List.map_append]
    exact congrArg (fun d => List.map digitOfChar (Nat.toDigits 10 (n / 10)) ++ [d])
      (last ⟨n % 10, Nat.mod_lt n (by decide)⟩)

theorem digitValues_of_lt {n : Nat} (h : n < 10) : digitValues n = [digitOf n] := by
  rw [digitValues_eq, if_pos h]

/-- A further digit comes behind the others. -/
theorem digitValues_mul_ten_add {n : Nat} (hn : n ≠ 0) (d : Fin 10) :
    digitValues (n * 10 + d) = digitValues n ++ [d] := by
  have last : digitOf (n * 10 + d) = d := Fin.ext (by simp only [digitOf]; omega)
  rw [digitValues_eq, if_neg (by omega), last, show (n * 10 + d) / 10 = n by omega]

theorem ofDigitValues_concat (ds : List (Fin 10)) (d : Fin 10) :
    ofDigitValues (ds ++ [d]) = ofDigitValues ds * 10 + d := by
  simp [ofDigitValues]

theorem ofDigitValues_append (as bs : List (Fin 10)) :
    ofDigitValues (as ++ bs) = ofDigitValues as * 10 ^ bs.length + ofDigitValues bs := by
  induction bs using List.reverseRecOn with
  | nil => simp [ofDigitValues]
  | append_singleton bs b ih =>
    rw [← List.append_assoc, ofDigitValues_concat, ofDigitValues_concat, ih, List.length_append,
      List.length_singleton, Nat.pow_succ, ← Nat.mul_assoc, Nat.add_mul, Nat.add_assoc]

theorem ofDigitValues_cons (d : Fin 10) (ds : List (Fin 10)) :
    ofDigitValues (d :: ds) = d * 10 ^ ds.length + ofDigitValues ds := by
  rw [← List.singleton_append, ofDigitValues_append]
  simp [ofDigitValues]

theorem ofDigitValues_replicate_zero (n : Nat) : ofDigitValues (List.replicate n (digitOf 0)) = 0 := by
  induction n with
  | zero => rfl
  | succ n ih => rw [List.replicate_succ, ofDigitValues_cons, ih]; simp [digitOf]

theorem ofDigitValues_lt (ds : List (Fin 10)) : ofDigitValues ds < 10 ^ ds.length := by
  induction ds with
  | nil => simp [ofDigitValues]
  | cons d ds ih =>
    rw [ofDigitValues_cons, List.length_cons, Nat.pow_succ]
    have := Nat.mul_le_mul_right (10 ^ ds.length) (show d.val ≤ 9 by omega)
    omega

theorem ofDigitValues_digitValues (n : Nat) : ofDigitValues (digitValues n) = n := by
  induction n using Nat.strongRecOn with
  | _ n ih =>
    rw [digitValues_eq]
    split
    next h => simpa [ofDigitValues, digitOf] using Nat.mod_eq_of_lt h
    next h =>
      rw [ofDigitValues_concat, ih (n / 10) (by omega)]
      simp only [digitOf]
      omega

/-- A run of digits that does not start with zero is that of the number it stands for. -/
theorem digitValues_ofDigitValues {d : Fin 10} (hd : d ≠ 0) (ds : List (Fin 10)) :
    digitValues (ofDigitValues (d :: ds)) = d :: ds := by
  have pos : 0 < d.val := Nat.pos_of_ne_zero fun h => hd (Fin.ext h)
  induction ds using List.reverseRecOn with
  | nil =>
    have single : ofDigitValues [d] = d := by simp [ofDigitValues]
    rw [single, digitValues_of_lt d.isLt]
    exact congrArg (fun d => [d]) (Fin.ext (Nat.mod_eq_of_lt d.isLt))
  | append_singleton ds b ih =>
    have ne : ofDigitValues (d :: ds) ≠ 0 := by
      rw [ofDigitValues_cons]
      have := Nat.mul_pos pos (Nat.pow_pos (by decide) : 0 < 10 ^ ds.length)
      omega
    rw [← List.cons_append, ofDigitValues_concat, digitValues_mul_ten_add ne, ih]

/-- The digits of a number other than zero do not start with zero. -/
theorem exists_digitValues_eq_cons {n : Nat} (hn : n ≠ 0) : ∃ d ds, d ≠ 0 ∧ digitValues n = d :: ds := by
  induction n using Nat.strongRecOn with
  | _ n ih =>
    rw [digitValues_eq]
    split
    next h =>
      refine ⟨digitOf n, [], fun h0 => hn ?_, rfl⟩
      have : n % 10 = 0 := congrArg Fin.val h0
      omega
    next h =>
      obtain ⟨d, ds, hd, eq⟩ := ih (n / 10) (by omega) (by omega)
      exact ⟨d, ds ++ [digitOf n], hd, by rw [eq, List.cons_append]⟩

theorem length_digitValues (n : Nat) : (digitValues n).length = (digits n).length :=
  List.length_map _

/-- A number with `k + 1` digits lies between two powers of ten. -/
theorem length_digits_eq_iff {n : Nat} (hn : n ≠ 0) (k : Nat) :
    (digits n).length = k + 1 ↔ 10 ^ k ≤ n ∧ n < 10 ^ (k + 1) := by
  obtain ⟨d, ds, hd, eq⟩ := exists_digitValues_eq_cons hn
  have pos : 0 < d.val := Nat.pos_of_ne_zero fun h => hd (Fin.ext h)
  have value : n = d * 10 ^ ds.length + ofDigitValues ds := by
    rw [← ofDigitValues_cons, ← eq, ofDigitValues_digitValues]
  have low : 10 ^ ds.length ≤ n := by
    have := Nat.mul_le_mul_right (10 ^ ds.length) pos
    omega
  have high : n < 10 ^ (ds.length + 1) := by
    rw [← ofDigitValues_digitValues n, eq]
    exact ofDigitValues_lt (d :: ds)
  rw [← length_digitValues, eq, List.length_cons, Nat.add_right_cancel_iff]
  constructor
  · rintro rfl
    exact ⟨low, high⟩
  · rintro ⟨low', high'⟩
    have below := (Nat.pow_lt_pow_iff_right (by decide : 1 < 10)).1 (Nat.lt_of_le_of_lt low high')
    have above := (Nat.pow_lt_pow_iff_right (by decide : 1 < 10)).1 (Nat.lt_of_le_of_lt low' high)
    omega

end PipelineEditor.Text
