import Mathlib.Algebra.Order.Field.Power
import Mathlib.Data.Rat.Cast.Order
import Mathlib.Tactic.FieldSimp
import Mathlib.Tactic.Linarith
import Mathlib.Tactic.Positivity
import Mathlib.Tactic.Ring
import PipelineEditor.Number.Binary

/-! Rounding to a binary format, in terms of the rational numbers that are rounded. The exponent and the
significand of the result are the only ones that fit. -/
namespace PipelineEditor.Number

/-- The rational number that a binary number is. -/
def Binary.value (b : Binary) : ℚ :=
  b.significand * 2 ^ b.exponent

theorem Binary.den_pos (b : Binary) : 0 < b.den :=
  Nat.pow_pos (by decide)

/-- A power as a quotient of powers with natural exponents, one of which is zero. -/
theorem zpow_eq_div (b : Nat) [b.AtLeastTwo] (e : ℤ) :
    (ofNat(b) : ℚ) ^ e = (Nat.pow b e.toNat : Nat) / (Nat.pow b (-e).toNat : Nat) := by
  have base : (ofNat(b) : ℚ) = b := rfl
  rw [base]
  cases e with
  | ofNat n => simp
  | negSucc n =>
    have up : (Int.negSucc n).toNat = 0 := rfl
    simp [up, zpow_negSucc]

theorem Binary.num_div_den (b : Binary) : (b.num : ℚ) / b.den = b.value := by
  rw [num, den, value, zpow_eq_div, Nat.cast_mul, mul_div_assoc]

/-- An integer nearest to a rational number; of two that are equally near, the even one. -/
structure IsNearest (q : Nat) (v : ℚ) : Prop where
  near : |(q : ℚ) - v| ≤ 1 / 2
  even : |(q : ℚ) - v| = 1 / 2 → q % 2 = 0

theorem IsNearest.unique {q r : Nat} {v : ℚ} (hq : IsNearest q v) (hr : IsNearest r v) : q = r := by
  -- of two different ones, the larger would stand a half above and the smaller a half below
  have le {q r : Nat} (hq : IsNearest q v) (hr : IsNearest r v) : q ≤ r := by
    refine Nat.le_of_not_lt fun h => ?_
    have step : (r : ℚ) + 1 ≤ q := by exact_mod_cast h
    obtain ⟨-, above⟩ := abs_le.1 hq.near
    obtain ⟨below, -⟩ := abs_le.1 hr.near
    have hv : v = r + 1 / 2 := by linarith
    have hqr : (q : ℚ) = r + 1 := by linarith
    have even := hr.even (by rw [hv, show (r : ℚ) - (r + 1 / 2) = -(1 / 2) by ring, abs_neg]; norm_num)
    have even' := hq.even (by rw [hv, hqr]; norm_num)
    have : q = r + 1 := by exact_mod_cast hqr
    omega
  exact Nat.le_antisymm (le hq hr) (le hr hq)

theorem isNearest_roundDiv (num : Nat) {den : Nat} (h : 0 < den) :
    IsNearest (roundDiv num den) (num / den) := by
  have hden : (0 : ℚ) < den := by exact_mod_cast h
  have split : (num : ℚ) = den * (num / den : Nat) + (num % den : Nat) := by
    exact_mod_cast (Nat.div_add_mod num den).symm
  have value : (num : ℚ) / den = (num / den : Nat) + (num % den : Nat) / den := by
    rw [div_eq_iff hden.ne', add_mul, div_mul_cancel₀ _ hden.ne', split]
    ring
  have rest : (0 : ℚ) ≤ (num % den : Nat) / den := by positivity
  have rest' : ((num % den : Nat) : ℚ) / den < 1 := by
    rw [div_lt_one hden]
    exact_mod_cast Nat.mod_lt num h
  unfold roundDiv
  dsimp only
  split
  next small =>
    have half : ((num % den : Nat) : ℚ) / den < 1 / 2 := by
      rw [div_lt_iff₀ hden]
      have : (2 * (num % den : Nat) : ℚ) < den := by exact_mod_cast small
      linarith
    have far : |((num / den : Nat) : ℚ) - num / den| < 1 / 2 := by
      rw [value, abs_lt]
      constructor <;> linarith
    exact ⟨far.le, fun he => absurd he far.ne⟩
  next small =>
  split
  next large =>
    have half : 1 / 2 < ((num % den : Nat) : ℚ) / den := by
      rw [lt_div_iff₀ hden]
      have : (den : ℚ) < 2 * (num % den : Nat) := by exact_mod_cast large
      linarith
    have far : |((num / den + 1 : Nat) : ℚ) - num / den| < 1 / 2 := by
      rw [value, abs_lt]
      push_cast
      constructor <;> linarith
    exact ⟨far.le, fun he => absurd he far.ne⟩
  next large =>
    have half : ((num % den : Nat) : ℚ) / den = 1 / 2 := by
      rw [div_eq_iff hden.ne']
      have : (2 * (num % den : Nat) : ℚ) = den := by exact_mod_cast (show 2 * (num % den) = den by omega)
      linarith
    have even : (num / den + num / den % 2) % 2 = 0 := by omega
    refine ⟨?_, fun _ => even⟩
    rw [value, half, abs_le]
    have parity : ((num / den % 2 : Nat) : ℚ) ≤ 1 := by
      exact_mod_cast Nat.le_of_lt_succ (Nat.mod_lt _ (by decide))
    have parity' : (0 : ℚ) ≤ ((num / den % 2 : Nat) : ℚ) := by positivity
    push_cast
    constructor <;> linarith

namespace Format

/-- The exponent of a number in a format: the number has no more digits than the format, and as many
unless the exponent is the lowest. -/
structure IsExponent (f : Format) (e : ℤ) (v : ℚ) : Prop where
  lowest : -(f.lowest : ℤ) ≤ e
  below : v < 2 ^ (e + f.width)
  above : e = -(f.lowest : ℤ) ∨ 2 ^ (e + f.width - 1) ≤ v

theorem IsExponent.unique {f : Format} {e k : ℤ} {v : ℚ} (he : f.IsExponent e v)
    (hk : f.IsExponent k v) : e = k := by
  have le {e k : ℤ} (he : f.IsExponent e v) (hk : f.IsExponent k v) : e ≤ k := by
    refine Int.le_of_not_gt fun h => ?_
    rcases he.above with low | above
    · exact absurd hk.lowest (by omega)
    · have lt := above.trans_lt hk.below
      rw [zpow_lt_zpow_iff_right₀ (by norm_num)] at lt
      omega
  exact Int.le_antisymm (le he hk) (le hk he)

private theorem log2_bounds {n : Nat} (h : n ≠ 0) :
    (2 : ℚ) ^ (n.log2 : ℤ) ≤ n ∧ (n : ℚ) < 2 ^ ((n.log2 : ℤ) + 1) := by
  constructor
  · rw [zpow_natCast]
    exact_mod_cast Nat.log2_self_le h
  · rw [← Nat.cast_one, ← Nat.cast_add, zpow_natCast]
    exact_mod_cast Nat.lt_log2_self

private theorem small_iff {num den : Nat} (hd : 0 < den) (k : ℤ) :
    (if 0 ≤ k then num < den * Nat.pow 2 k.toNat else num * Nat.pow 2 (-k).toNat < den) ↔
      (num / den : ℚ) < 2 ^ k := by
  have hden : (0 : ℚ) < den := by exact_mod_cast hd
  rw [div_lt_iff₀ hden]
  cases k with
  | ofNat n =>
    rw [if_pos (show 0 ≤ Int.ofNat n from Int.natCast_nonneg n)]
    change num < den * 2 ^ n ↔ _
    rw [Int.ofNat_eq_natCast, zpow_natCast, mul_comm]
    exact_mod_cast Iff.rfl
  | negSucc n =>
    have hpow : (0 : ℚ) < 2 ^ (n + 1) := by positivity
    rw [if_neg (show ¬0 ≤ Int.negSucc n from Int.not_le.2 (Int.negSucc_lt_zero n))]
    change num * 2 ^ (n + 1) < den ↔ _
    rw [zpow_negSucc, inv_mul_eq_div, lt_div_iff₀ hpow]
    exact_mod_cast Iff.rfl

private theorem isExponent_exponentFor (f : Format) {num den : Nat} (hn : num ≠ 0) (hd : 0 < den) :
    f.IsExponent (f.exponentFor num den) (num / den) := by
  have hden : (0 : ℚ) < den := by exact_mod_cast hd
  obtain ⟨numLow, numHigh⟩ := log2_bounds hn
  obtain ⟨denLow, denHigh⟩ := log2_bounds hd.ne'
  have two : (2 : ℚ) ≠ 0 := by norm_num
  set k : ℤ := (num.log2 : ℤ) - den.log2 with hk
  have high : (num / den : ℚ) < 2 ^ (k + 1) := by
    rw [div_lt_iff₀ hden]
    calc (num : ℚ) < 2 ^ ((num.log2 : ℤ) + 1) := numHigh
      _ = 2 ^ (k + 1) * 2 ^ (den.log2 : ℤ) := by rw [← zpow_add₀ two]; congr 1; omega
      _ ≤ 2 ^ (k + 1) * den := by gcongr
  have low : (2 : ℚ) ^ (k - 1) ≤ num / den := by
    rw [le_div_iff₀ hden]
    calc (2 : ℚ) ^ (k - 1) * den ≤ 2 ^ (k - 1) * 2 ^ ((den.log2 : ℤ) + 1) := by gcongr
      _ = 2 ^ (num.log2 : ℤ) := by rw [← zpow_add₀ two]; congr 1; omega
      _ ≤ num := numLow
  have small : _ ↔ (num / den : ℚ) < 2 ^ k := small_iff hd k
  -- `j` is the exponent of the first binary digit
  obtain ⟨j, hj, jLow, jHigh⟩ : ∃ j : ℤ, f.exponentFor num den = max (j + 1 - (f.width : ℤ)) (-(f.lowest : ℤ)) ∧
      (2 : ℚ) ^ j ≤ num / den ∧ (num / den : ℚ) < 2 ^ (j + 1) := by
    by_cases hs : (num / den : ℚ) < 2 ^ k
    · refine ⟨k - 1, ?_, low, ?_⟩
      · rw [exponentFor, ← hk, if_pos (small.2 hs), Int.sub_add_cancel]
      · rwa [Int.sub_add_cancel]
    · refine ⟨k, ?_, not_lt.1 hs, high⟩
      rw [exponentFor, ← hk, if_neg (mt small.1 hs)]
  rw [hj]
  refine ⟨le_max_right _ _, jHigh.trans_le ?_, ?_⟩
  · have := le_max_left (j + 1 - (f.width : ℤ)) (-f.lowest)
    exact zpow_le_zpow_right₀ (by norm_num) (by omega)
  · rcases max_choice (j + 1 - (f.width : ℤ)) (-f.lowest) with h | h
    · right
      rwa [h, show j + 1 - (f.width : ℤ) + f.width - 1 = j by omega]
    · exact .inl h

/-- A number is rounded to the nearest multiple of the unit that belongs to it. -/
theorem round_spec (f : Format) (num : Nat) {den : Nat} (hd : 0 < den) :
    f.IsExponent (f.round num den).exponent (num / den) ∧
      IsNearest (f.round num den).significand (num / den / 2 ^ (f.round num den).exponent) := by
  have hden : (0 : ℚ) < den := by exact_mod_cast hd
  constructor
  · by_cases hn : num = 0
    · have zero : (num / den : ℚ) = 0 := by simp [hn]
      have lowest : (f.round num den).exponent = -f.lowest := if_pos hn
      rw [zero, lowest]
      exact ⟨le_refl _, by positivity, .inl rfl⟩
    · have exponent : (f.round num den).exponent = f.exponentFor num den := if_neg hn
      rw [exponent]
      exact isExponent_exponentFor f hn hd
  · unfold round
    dsimp only
    generalize (if num = 0 then -(f.lowest : ℤ) else f.exponentFor num den) = e
    have scaled := isNearest_roundDiv (num * Nat.pow 2 (-e).toNat)
      (Nat.mul_pos hd (Nat.pow_pos (by decide) : 0 < Nat.pow 2 e.toNat))
    rw [zpow_eq_div, div_div_eq_mul_div, div_mul_eq_mul_div, div_div, ← Nat.cast_mul, ← Nat.cast_mul]
    exact scaled

/-- The exponent and the significand that fit are those of the rounded number. -/
theorem round_eq {f : Format} {num den : Nat} (hd : 0 < den) {e : ℤ} {q : Nat}
    (he : f.IsExponent e (num / den)) (hq : IsNearest q (num / den / 2 ^ e)) :
    f.round num den = ⟨q, e⟩ := by
  obtain ⟨he', hq'⟩ := f.round_spec num hd
  have exponent : (f.round num den).exponent = e := he'.unique he
  rw [exponent] at hq'
  have significand : (f.round num den).significand = q := hq'.unique hq
  rw [← exponent, ← significand]

/-- A number that has all its digits is off by less than one in the last of them. -/
theorem round_relative (f : Format) (num : Nat) {den : Nat} (hd : 0 < den)
    (normal : (2 : ℚ) ^ (-(f.lowest : ℤ) + f.width - 1) ≤ num / den) :
    |(f.round num den).value - num / den| ≤ num / den * 2 ^ (-(f.width : ℤ)) := by
  obtain ⟨he, hq⟩ := f.round_spec num hd
  set e := (f.round num den).exponent with hE
  set v : ℚ := num / den
  have two : (2 : ℚ) ≠ 0 := by norm_num
  have unit : (0 : ℚ) < 2 ^ e := by positivity
  have above : (2 : ℚ) ^ (e + f.width - 1) ≤ v := by
    rcases he.above with low | above
    · rwa [low]
    · exact above
  have value : (f.round num den).value - v = ((f.round num den).significand - v / 2 ^ e) * 2 ^ e := by
    rw [sub_mul, div_mul_cancel₀ _ unit.ne', Binary.value, ← hE]
  calc |(f.round num den).value - v|
      = |(f.round num den).significand - v / 2 ^ e| * 2 ^ e := by
        rw [value, abs_mul, abs_of_pos unit]
    _ ≤ 1 / 2 * 2 ^ e := by gcongr; exact hq.near
    _ = 2 ^ (e + f.width - 1) * 2 ^ (-(f.width : ℤ)) := by
        rw [← zpow_add₀ two, show e + f.width - 1 + -(f.width : ℤ) = e - 1 by ring,
          zpow_sub_one₀ two]
        ring
    _ ≤ v * 2 ^ (-(f.width : ℤ)) := by gcongr

/-- A number of the format is rounded to itself. -/
theorem round_exact (f : Format) {num den c : Nat} (hd : 0 < den) {k : ℤ}
    (hc : c < 2 ^ f.width) (hk : -(f.lowest : ℤ) ≤ k) (hv : (num / den : ℚ) = c * 2 ^ k) :
    (f.round num den).value = num / den := by
  obtain ⟨he, hq⟩ := f.round_spec num hd
  set e := (f.round num den).exponent with hE
  have two : (2 : ℚ) ≠ 0 := by norm_num
  have fits : e ≤ k := by
    rcases he.above with low | above
    · omega
    · have below : (num / den : ℚ) < 2 ^ ((f.width : ℤ) + k) := by
        rw [hv, zpow_add₀ two, zpow_natCast]
        have : (c : ℚ) < 2 ^ f.width := by exact_mod_cast hc
        gcongr
      have lt := above.trans_lt below
      rw [zpow_lt_zpow_iff_right₀ (by norm_num)] at lt
      omega
  have whole : (num / den : ℚ) / 2 ^ e = (c * 2 ^ (k - e).toNat : Nat) := by
    have power : (2 : ℚ) ^ (k - e).toNat = 2 ^ (k - e) := by
      rw [← zpow_natCast, Int.toNat_of_nonneg (by omega)]
    push_cast
    rw [hv, power, mul_div_assoc, zpow_sub₀ two]
  have same : (f.round num den).significand = c * 2 ^ (k - e).toNat :=
    hq.unique ⟨by rw [whole]; simp, fun h => by rw [whole] at h; norm_num at h⟩
  have unit : (2 : ℚ) ^ e ≠ 0 := zpow_ne_zero _ two
  rw [Binary.value, ← hE, same, ← whole, div_mul_cancel₀ _ unit]

end Format
end PipelineEditor.Number
