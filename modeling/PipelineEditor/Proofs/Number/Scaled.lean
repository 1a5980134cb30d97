import PipelineEditor.Number.Decimal
import PipelineEditor.Proofs.Number.Rounding

/-! How exactly a significand times a power of ten is read in 64-bit floating point. The significand is
exact, the power and then the product or the quotient are rounded. -/
namespace PipelineEditor.Number
namespace Decimal

/-- The unit that 64-bit numbers are rounded by, relative to the number. -/
private def unit : ℚ := 1 / 2 ^ 53

private theorem double_near (num : Nat) {den : Nat} (hd : 0 < den) (normal : 1 / 10 ^ 70 ≤ (num / den : ℚ)) :
    |(Format.double.round num den).value - num / den| ≤ num / den * unit := by
  have least : (2 : ℚ) ^ (-(Format.double.lowest : ℤ) + Format.double.width - 1) ≤ num / den := by
    refine (zpow_le_zpow_right₀ (by norm_num) (?_ : _ ≤ (-240 : ℤ))).trans (le_trans ?_ normal)
    · simp only [Format.double]
      omega
    · norm_num
  have := Format.double.round_relative num hd least
  simpa [Format.double, unit] using this

private theorem double_natural {t : Nat} (ht : t < 2 ^ 53) : (Format.double.round t 1).value = t := by
  have whole : ((t : Nat) / (1 : Nat) : ℚ) = t * 2 ^ (0 : ℤ) := by simp
  rw [Format.double.round_exact (by decide) ht (by decide) whole, Nat.cast_one, div_one]

/-- The powers of ten up to the 22nd are 64-bit numbers. -/
private theorem double_pow {a : Nat} (ha : a ≤ 22) : (Format.double.round (Nat.pow 10 a) 1).value = 10 ^ a := by
  have small : 5 ^ a < 2 ^ Format.double.width :=
    Nat.lt_of_le_of_lt (Nat.pow_le_pow_right (by decide) ha) (by decide)
  have power : ((Nat.pow 10 a : Nat) / (1 : Nat) : ℚ) = (5 ^ a : Nat) * 2 ^ (a : ℤ) := by
    rw [Nat.cast_one, div_one, zpow_natCast, Nat.cast_pow, ← mul_pow]
    norm_num
  rw [Format.double.round_exact (by decide) small (by simp only [Format.double]; omega) power]
  simp

private theorem double_pow_near (a : Nat) :
    |(Format.double.round (Nat.pow 10 a) 1).value - 10 ^ a| ≤ 10 ^ a * unit := by
  have one : (1 : ℚ) ≤ 10 ^ a := one_le_pow₀ (by norm_num)
  have := double_near (Nat.pow 10 a) Nat.one_pos (by simp; linarith)
  simpa using this

/-- Rounding a number that is off from another by little more than the rounding itself. -/
private theorem near_of_near {v r b : ℚ} (hv : 0 < v) (hr : |r - v| ≤ v * (3 / 2 * unit))
    (hb : |b - r| ≤ r * unit) : |b - v| < v * (1 / 2 ^ 51) := by
  have far := abs_le.1 hr
  have unit_eq : unit * 4 = 1 / 2 ^ 51 := by norm_num [unit]
  have small : (0 : ℚ) < unit ∧ unit ≤ 1 / 2 := by norm_num [unit]
  rw [← unit_eq]
  have step : r * unit ≤ v * (7 / 4) * unit := by
    refine mul_le_mul_of_nonneg_right ?_ small.1.le
    nlinarith
  calc |b - v| ≤ |b - r| + |r - v| := abs_sub_le b r v
    _ ≤ r * unit + v * (3 / 2 * unit) := add_le_add hb hr
    _ ≤ v * (7 / 4) * unit + v * (3 / 2 * unit) := by linarith
    _ < v * (unit * 4) := by nlinarith [mul_pos hv small.1]

private theorem quotient_near {t p c : ℚ} (ht : 0 < t) (hc : 0 < c) (hp : |p - c| ≤ c * unit) :
    |t / p - t / c| ≤ t / c * (3 / 2 * unit) := by
  have small : (0 : ℚ) < unit ∧ unit ≤ 1 / 3 := by norm_num [unit]
  obtain ⟨low, -⟩ := abs_le.1 hp
  have hp' : c * (2 / 3) ≤ p := by nlinarith
  have pos : 0 < p := lt_of_lt_of_le (by positivity) hp'
  have diff : t / p - t / c = t / c * ((c - p) / p) := by
    field_simp
  rw [diff, abs_mul, abs_of_pos (div_pos ht hc)]
  refine mul_le_mul_of_nonneg_left ?_ (div_pos ht hc).le
  rw [abs_div, abs_of_pos pos, div_le_iff₀ pos, abs_sub_comm]
  calc |p - c| ≤ c * unit := hp
    _ = 3 / 2 * unit * (c * (2 / 3)) := by ring
    _ ≤ 3 / 2 * unit * p := mul_le_mul_of_nonneg_left hp' (by linarith)

private theorem product_near {t p c : ℚ} (ht : 0 < t) (hc : 0 < c) (hp : |p - c| ≤ c * unit) :
    |t * p - t * c| ≤ t * c * (3 / 2 * unit) := by
  have small : (0 : ℚ) < unit := by norm_num [unit]
  rw [← mul_sub, abs_mul, abs_of_pos ht, mul_assoc]
  refine mul_le_mul_of_nonneg_left (hp.trans ?_) ht.le
  nlinarith [mul_pos hc small]

private theorem between_of_near {v r : ℚ} (hv : 0 ≤ v) (hr : |r - v| ≤ v * (3 / 2 * unit)) :
    v / 2 ≤ r ∧ r ≤ v * 2 := by
  have small : 3 / 2 * unit ≤ 1 / 2 := by norm_num [unit]
  have far := abs_le.1 (hr.trans (mul_le_mul_of_nonneg_left small hv))
  constructor <;> linarith

private theorem le_doubleBound : 2 ^ 255 ≤ doubleBound := by
  have exponent : 255 ≤ 1024 := by decide
  unfold doubleBound
  generalize 1024 = n at exponent ⊢
  exact Nat.pow_le_pow_right (by decide) exponent

/-- A number of moderate size is rounded to one below the bound. -/
private theorem double_fits (num : Nat) {den : Nat} (hd : 0 < den) (low : 1 / 2 ≤ (num / den : ℚ))
    (high : (num / den : ℚ) ≤ 100000000000000 * 10 ^ 60 * 2) :
    (Format.double.round num den).num < doubleBound * (Format.double.round num den).den := by
  have rounded := (abs_le.1 (double_near num hd (le_trans (by norm_num) low))).2
  have hden : (0 : ℚ) < (Format.double.round num den).den := by exact_mod_cast Binary.den_pos _
  have wide := le_doubleBound
  generalize doubleBound = bound at wide ⊢
  have value : (Format.double.round num den).value < bound := by
    have small : (num / den : ℚ) * unit ≤ num / den :=
      mul_le_of_le_one_right (by linarith) (by norm_num [unit])
    calc (Format.double.round num den).value ≤ 100000000000000 * 10 ^ 60 * 4 := by linarith
      _ < 2 ^ 255 := by norm_num
      _ ≤ bound := by exact_mod_cast wide
  rw [← Binary.num_div_den, div_lt_iff₀ hden] at value
  exact_mod_cast value

/-- The fraction `n / d` that is rounded last when `t * 10 ^ power` is read. It is near to that number, and is
the number itself if the power of ten is exact. -/
private structure IsOperand (t : Nat) (power : ℤ) (n d : Nat) : Prop where
  den_pos : 0 < d
  scaled : scaled t power = some (Format.double.round n d)
  near : |(n / d : ℚ) - t * 10 ^ power| ≤ t * 10 ^ power * (3 / 2 * unit)
  exact : power.natAbs ≤ 22 → (n / d : ℚ) = t * 10 ^ power

private theorem exists_quotient {t a : Nat} (ht : 0 < t) (ht' : t < 2 ^ 53) (ha : 0 < a) (ha' : a ≤ 60) :
    ∃ n d, IsOperand t (-a) n d := by
  set s := Format.double.round t 1 with hs
  set p := Format.double.round (Nat.pow 10 a) 1 with hp
  have ten : (0 : ℚ) < 10 ^ a := by positivity
  have near : |p.value - 10 ^ a| ≤ 10 ^ a * unit := double_pow_near a
  have value : ((s.num * p.den : Nat) / (s.den * p.num : Nat) : ℚ) = t / p.value := by
    push_cast
    rw [← div_div_div_eq, s.num_div_den, p.num_div_den, hs, double_natural ht']
  have number : (t : ℚ) * 10 ^ (-a : ℤ) = t / 10 ^ a := by
    rw [zpow_neg, zpow_natCast, div_eq_mul_inv]
  have nonzero : 0 < p.num := by
    refine Nat.pos_of_ne_zero fun zero => ?_
    rw [← p.num_div_den, zero, Nat.cast_zero, zero_div, zero_sub, abs_neg, abs_of_pos ten] at near
    have : unit < 1 := by norm_num [unit]
    nlinarith
  refine ⟨s.num * p.den, s.den * p.num, ?_⟩
  constructor
  case den_pos => exact Nat.mul_pos s.den_pos nonzero
  case scaled =>
    rw [Decimal.scaled, if_neg (by omega), if_pos (by omega), Int.natAbs_neg, Int.natAbs_natCast]
  case near =>
    rw [value, number]
    exact quotient_near (by exact_mod_cast ht) ten near
  case exact =>
    intro exact
    rw [value, number, hp, double_pow (by omega)]

private theorem exists_product {t a : Nat} (ht : 0 < t) (ht' : t < 100000000000000) (ha : a ≤ 60) :
    ∃ n d, IsOperand t a n d := by
  set s := Format.double.round t 1 with hs
  set p := Format.double.round (Nat.pow 10 a) 1 with hp
  have ten : (0 : ℚ) < 10 ^ a := by positivity
  have value : ((s.num * p.num : Nat) / (s.den * p.den : Nat) : ℚ) = t * p.value := by
    push_cast
    rw [← div_mul_div_comm, s.num_div_den, p.num_div_den, hs, double_natural (by omega)]
  have near : |t * p.value - t * 10 ^ a| ≤ t * 10 ^ a * (3 / 2 * unit) :=
    product_near (by exact_mod_cast ht) ten (double_pow_near a)
  refine ⟨s.num * p.num, s.den * p.den, ?_⟩
  constructor
  case den_pos => exact Nat.mul_pos s.den_pos p.den_pos
  case scaled =>
    obtain ⟨low, high⟩ := between_of_near (by positivity) near
    have least : (1 : ℚ) ≤ t := by exact_mod_cast ht
    have most : (t : ℚ) ≤ 100000000000000 := by exact_mod_cast ht'.le
    have one : (1 : ℚ) ≤ 10 ^ a := one_le_pow₀ (by norm_num)
    have top : (10 : ℚ) ^ a ≤ 10 ^ 60 := pow_le_pow_right₀ (by norm_num) ha
    have fits := double_fits (s.num * p.num) (Nat.mul_pos s.den_pos p.den_pos)
      (by rw [value]; linarith [one_le_mul_of_one_le_of_one_le least one])
      (by rw [value]; linarith [mul_le_mul most top ten.le (by norm_num)])
    rw [Decimal.scaled, if_neg (by omega), if_neg (by omega), Int.natAbs_natCast]
    exact if_pos fits
  case near =>
    rw [value, zpow_natCast]
    exact near
  case exact =>
    intro exact
    rw [value, zpow_natCast, hp, double_pow (by omega)]

/-- A short significand times a moderate power of ten is read closely. -/
theorem exists_scaled {t : Nat} (power : ℤ) (ht : 0 < t) (ht' : t < 100000000000000)
    (hp : power.natAbs ≤ 60) :
    ∃ b, scaled t power = some b ∧ |b.value - t * 10 ^ power| < t * 10 ^ power * (1 / 2 ^ 51) ∧
      (power.natAbs ≤ 22 → ∀ (c : Nat) (k : ℤ), c < 2 ^ 53 → -1074 ≤ k →
        t * 10 ^ power = (Binary.mk c k).value → b.value = t * 10 ^ power) := by
  obtain ⟨n, d, hd, eq, near, exact⟩ : ∃ n d, IsOperand t power n d := by
    obtain ⟨a, rfl | rfl⟩ := power.eq_nat_or_neg
    · exact exists_product ht ht' (by omega)
    · rcases Nat.eq_zero_or_pos a with rfl | pos
      · simpa using exists_product (a := 0) ht ht' (by decide)
      · exact exists_quotient ht (by omega) pos (by omega)
  have pos : (0 : ℚ) < t * 10 ^ power := by
    have : (0 : ℚ) < t := by exact_mod_cast ht
    positivity
  refine ⟨_, eq, near_of_near pos near (double_near n hd ?_), fun h c k hc hk hv => ?_⟩
  · refine le_trans ?_ (between_of_near pos.le near).1
    have least : (10 : ℚ) ^ (-60 : ℤ) ≤ 10 ^ power := zpow_le_zpow_right₀ (by norm_num) (by omega)
    have one : (1 : ℚ) ≤ t := by exact_mod_cast ht
    calc (1 : ℚ) / 10 ^ 70 ≤ 1 * 10 ^ (-60 : ℤ) / 2 := by norm_num
      _ ≤ t * 10 ^ power / 2 := by gcongr
  · rw [← exact h]
    exact Format.double.round_exact hd hc hk (by rw [exact h, hv, Binary.value])

end Decimal
end PipelineEditor.Number
