import PipelineEditor.Proofs.Number.Nearest
import PipelineEditor.Proofs.Number.Spelling

/-! The grid point that a 32-bit number is written as. It has at most nine digits, and it lies in the
neighbourhood of the number. -/
namespace PipelineEditor.Number
namespace Shortest

/-! The exponent of the first digit. -/

theorem firstExponent_spec {num den : Nat} (hd : 0 < den) (hx : 1 / 10 ^ 46 ≤ (num / den : ℚ)) :
    (10 : ℚ) ^ firstExponent num den ≤ num / den ∧ (num / den : ℚ) < 10 ^ (firstExponent num den + 1) := by
  have ten : (10 : ℚ) ≠ 0 := by norm_num
  have hden : (0 : ℚ) < den := by exact_mod_cast hd
  set n := num * Nat.pow 10 46 / den with hn
  have floor : (n : ℚ) ≤ num / den * 10 ^ 46 ∧ (num / den * 10 ^ 46 : ℚ) < n + 1 := by
    have eq : (num / den * 10 ^ 46 : ℚ) = (num * Nat.pow 10 46 : Nat) / den := by
      push_cast
      ring
    rw [eq, le_div_iff₀ hden, div_lt_iff₀ hden]
    constructor
    · exact_mod_cast Nat.div_mul_le_self _ den
    · exact_mod_cast Nat.lt_mul_of_div_lt (Nat.lt_succ_self n) hd
  have pos : n ≠ 0 := by
    rintro zero
    rw [zero, Nat.cast_zero, zero_add] at floor
    have : (1 : ℚ) / 10 ^ 46 * 10 ^ 46 ≤ num / den * 10 ^ 46 := by gcongr
    norm_num at this floor
    linarith
  obtain ⟨k, hk⟩ : ∃ k, (Text.digits n).length = k + 1 := by
    refine ⟨(Text.digits n).length - 1, ?_⟩
    have := List.length_pos_of_ne_nil (show Text.digits n ≠ [] from Nat.toDigits_ne_nil)
    omega
  obtain ⟨low, high⟩ := (Text.length_digits_eq_iff pos k).1 hk
  have first : firstExponent num den = k - 46 := by
    rw [firstExponent, ← hn, hk]
    omega
  have scale (j : ℤ) : (10 : ℚ) ^ (j - 46) = 10 ^ j / 10 ^ 46 := by
    rw [zpow_sub₀ ten]
    norm_num
  rw [first, show (k : ℤ) - 46 + 1 = (k + 1 : Nat) - 46 by omega, scale, scale, zpow_natCast, zpow_natCast]
  constructor
  · rw [div_le_iff₀ (by positivity)]
    exact le_trans (by exact_mod_cast low) floor.1
  · rw [lt_div_iff₀ (by positivity)]
    exact lt_of_lt_of_le floor.2 (by exact_mod_cast high)

/-! Comparisons without fractions. -/

/-- What both sides of a comparison are multiplied by. -/
private def common (i : Interval) (exponent : ℤ) : Nat :=
  i.unit.den * Nat.pow 10 (-exponent).toNat

private theorem common_pos (i : Interval) (exponent : ℤ) : (0 : ℚ) < common i exponent := by
  exact_mod_cast Nat.mul_pos i.unit.den_pos (Nat.pow_pos (by decide))

private theorem scale_fst (i : Interval) (exponent : ℤ) (count x : Nat) :
    ((scale i exponent count x).1 : ℚ) = count * 10 ^ exponent * common i exponent := by
  have pos : ((Nat.pow 10 (-exponent).toNat : Nat) : ℚ) ≠ 0 := by
    exact_mod_cast (Nat.pow_pos (by decide)).ne'
  rw [zpow_eq_div, common, scale]
  push_cast
  field_simp

private theorem scale_snd (i : Interval) (exponent : ℤ) (count x : Nat) :
    ((scale i exponent count x).2 : ℚ) = x * i.unit.value * common i exponent := by
  have pos : (i.unit.den : ℚ) ≠ 0 := by exact_mod_cast i.unit.den_pos.ne'
  rw [← Binary.num_div_den, common, scale]
  push_cast
  field_simp

/-- Comparing a grid point with `x` units is comparing the two numbers. -/
private theorem scale_le_iff (i : Interval) (g : Grid) (x : Nat) :
    ((scale i g.exponent g.count x).2 ≤ (scale i g.exponent g.count x).1 ↔ x * i.unit.value ≤ g.value) ∧
      ((scale i g.exponent g.count x).1 ≤ (scale i g.exponent g.count x).2 ↔
        g.value ≤ x * i.unit.value) := by
  have pos := common_pos i g.exponent
  rw [← Nat.cast_le (α := ℚ), ← Nat.cast_le (α := ℚ), scale_fst, scale_snd, mul_le_mul_iff_left₀ pos,
    mul_le_mul_iff_left₀ pos]
  exact ⟨Iff.rfl, Iff.rfl⟩

theorem Interval.holds_iff (i : Interval) (g : Grid) : i.holds g = true ↔ i.Contains g.value := by
  obtain ⟨low, low'⟩ := scale_le_iff i g i.low
  obtain ⟨high', high⟩ := scale_le_iff i g i.high
  have same : (scale i g.exponent g.count i.low).1 = (scale i g.exponent g.count i.high).1 := rfl
  unfold holds
  dsimp only
  cases closed : i.closed with
  | true =>
    rw [if_pos rfl, Bool.and_eq_true, decide_eq_true_eq, decide_eq_true_eq, same, high, ← same, low]
    exact ⟨fun h => ⟨h.1, h.2, fun o => by simp [closed] at o, fun o => by simp [closed] at o⟩,
      fun h => ⟨h.low, h.high⟩⟩
  | false =>
    rw [if_neg (by decide), Bool.and_eq_true, decide_eq_true_eq, decide_eq_true_eq, same,
      ← Nat.not_le, ← Nat.not_le, high', ← same, low', not_le, not_le]
    exact ⟨fun h => ⟨h.1.le, h.2.le, fun _ => h.1.ne', fun _ => h.2.ne⟩,
      fun h => ⟨lt_of_le_of_ne h.low (h.open_low closed).symm, lt_of_le_of_ne h.high (h.open_high closed)⟩⟩

/-! The points around a number. -/

/-- The grid point nearest to the middle of a neighbourhood. -/
def near (i : Interval) (exponent : ℤ) : Grid :=
  ⟨roundDiv (scale i exponent 1 i.middle).2 (scale i exponent 1 i.middle).1, exponent⟩

/-- The count of the grid point below the middle of a neighbourhood. -/
def below (i : Interval) (exponent : ℤ) : Nat :=
  (scale i exponent 1 i.middle).2 / (scale i exponent 1 i.middle).1

private theorem near_cases (num den : Nat) :
    (if 2 * (num % den) < den ∨ (2 * (num % den) = den ∧ num / den % 2 = 0) then num / den
      else num / den + 1) = roundDiv num den := by
  unfold roundDiv
  dsimp only
  split_ifs <;> omega

/-- The nearest grid point is taken if it lies in the neighbourhood, or else a neighbour of it. -/
private theorem onGrid_eq (i : Interval) (first : ℤ) (n : Nat) :
    ∃ far : Grid, far.exponent = first - n + 1 ∧
      (far.count = below i (first - n + 1) ∨ far.count = below i (first - n + 1) + 1) ∧
      onGrid i first n = if i.holds (near i (first - n + 1)) then some (near i (first - n + 1))
        else if i.holds far then some far else none := by
  unfold onGrid near
  dsimp only
  rw [← near_cases]
  split
  next => exact ⟨⟨below i (first - n + 1) + 1, first - n + 1⟩, rfl, .inr rfl, rfl⟩
  next => exact ⟨⟨below i (first - n + 1), first - n + 1⟩, rfl, .inl rfl, rfl⟩

theorem onGrid_near {i : Interval} {first : ℤ} {n : Nat}
    (h : i.Contains (near i (first - n + 1)).value) :
    onGrid i first n = some (near i (first - n + 1)) := by
  obtain ⟨far, -, -, eq⟩ := onGrid_eq i first n
  rw [eq, if_pos ((i.holds_iff _).2 h)]

theorem onGrid_some {i : Interval} {first : ℤ} {n : Nat} {g : Grid} (h : onGrid i first n = some g) :
    g.exponent = first - n + 1 ∧ i.Contains g.value ∧
      below i (first - n + 1) ≤ g.count ∧ g.count ≤ below i (first - n + 1) + 1 := by
  obtain ⟨far, exponent, count, eq⟩ := onGrid_eq i first n
  rw [eq] at h
  split at h
  next holds =>
    cases h
    refine ⟨rfl, (i.holds_iff _).1 holds, ?_⟩
    rw [near, below]
    dsimp only
    rw [← near_cases]
    split <;> omega
  next =>
    split at h
    next holds =>
      cases h
      exact ⟨exponent, (i.holds_iff _).1 holds, by omega⟩
    next => cases h

private theorem quotient_eq (i : Interval) (exponent : ℤ) :
    ((scale i exponent 1 i.middle).2 / (scale i exponent 1 i.middle).1 : ℚ) =
      i.middle * i.unit.value / 10 ^ exponent := by
  have pos := (common_pos i exponent).ne'
  have ten : (10 : ℚ) ^ exponent ≠ 0 := by positivity
  rw [scale_fst, scale_snd, Nat.cast_one, one_mul]
  field_simp

private theorem one_pos (i : Interval) (exponent : ℤ) : 0 < (scale i exponent 1 i.middle).1 := by
  have pos := common_pos i exponent
  have : (0 : ℚ) < ((scale i exponent 1 i.middle).1 : ℚ) := by
    rw [scale_fst]
    positivity
  exact_mod_cast this

/-- The nearest grid point is off by half a step at most. -/
theorem near_close (i : Interval) (exponent : ℤ) :
    |(near i exponent).value - i.middle * i.unit.value| ≤ 10 ^ exponent / 2 := by
  have step : (0 : ℚ) < 10 ^ exponent := by positivity
  have close := (isNearest_roundDiv (scale i exponent 1 i.middle).2 (one_pos i exponent)).near
  rw [quotient_eq] at close
  have eq : (near i exponent).value - i.middle * i.unit.value =
      ((near i exponent).count - i.middle * i.unit.value / 10 ^ exponent) * 10 ^ exponent := by
    rw [sub_mul, div_mul_cancel₀ _ step.ne']
    rfl
  rw [eq, abs_mul, abs_of_pos step]
  exact (mul_le_mul_of_nonneg_right close step.le).trans_eq (by ring)

theorem below_bounds (i : Interval) (exponent : ℤ) :
    below i exponent * (10 : ℚ) ^ exponent ≤ i.middle * i.unit.value ∧
      i.middle * i.unit.value < (below i exponent + 1 : Nat) * (10 : ℚ) ^ exponent := by
  have step : (0 : ℚ) < 10 ^ exponent := by positivity
  have one := one_pos i exponent
  have one' : (0 : ℚ) < ((scale i exponent 1 i.middle).1 : ℚ) := by exact_mod_cast one
  rw [← le_div_iff₀ step, ← div_lt_iff₀ step, ← quotient_eq, le_div_iff₀ one', div_lt_iff₀ one']
  constructor
  · exact_mod_cast Nat.div_mul_le_self _ _
  · exact_mod_cast Nat.lt_mul_of_div_lt (Nat.lt_succ_self _) one

section

open Single

variable {x : Single} {m : Nat} {e : ℤ}

/-- What is near to a number lies in its neighbourhood. -/
theorem contains_of_close (hp : x.Parts m e) (hm : 0 < m) {v : ℚ} (h : |v - m * 2 ^ e| < 2 ^ e / 4) :
    (interval x.magnitude).Contains v := by
  have unit : (0 : ℚ) < 2 ^ e := by positivity
  obtain ⟨t, rfl⟩ : ∃ t : ℚ, v = t * 2 ^ e := ⟨v / 2 ^ e, (div_mul_cancel₀ _ unit.ne').symm⟩
  rw [← sub_mul, abs_mul, abs_of_pos unit, div_eq_inv_mul] at h
  obtain ⟨low, high⟩ := abs_lt.1 (lt_of_mul_lt_mul_right h unit.le)
  have least : (1 : ℚ) ≤ quarters m e := by exact_mod_cast (quarters_le m e).1
  norm_num at low high
  exact (hp.contains_iff hm).2 ⟨by linarith, by linarith, fun atEnd => by rcases atEnd with h | h <;> linarith⟩

theorem middle_value (hp : x.Parts m e) :
    ((interval x.magnitude).middle : ℚ) * (interval x.magnitude).unit.value = m * 2 ^ e := by
  rw [hp.interval_eq, Binary.value, zpow_sub₀ (by norm_num)]
  push_cast
  norm_num
  ring

/-- Of a grid that is finer than the binary one, the nearest point lies in the neighbourhood. -/
private theorem near_contains (hp : x.Parts m e) (hm : 0 < m) {exponent : ℤ}
    (fine : (10 : ℚ) ^ exponent * 100 ≤ 2 ^ e * 49) :
    (interval x.magnitude).Contains (near (interval x.magnitude) exponent).value := by
  have unit : (0 : ℚ) < 2 ^ e := by positivity
  have close := near_close (interval x.magnitude) exponent
  rw [middle_value hp] at close
  exact contains_of_close hp hm (lt_of_le_of_lt close (by linarith))

/-- A grid point with `k + 1` digits that stands for a 32-bit number. On a grid that is finer than the
binary one it is the point nearest to the number. -/
structure StandsFor (g : Grid) (x : Single) (m : Nat) (e : ℤ) (k : Nat) (first : ℤ) : Prop where
  digits : k ≤ 8
  range : -45 ≤ first ∧ first ≤ 38
  exponent : g.exponent = first - k
  least : 10 ^ k ≤ g.count
  most : g.count ≤ 10 ^ (k + 1)
  contains : (interval x.magnitude).Contains g.value
  close : (10 : ℚ) ^ g.exponent * 100 ≤ 2 ^ e * 49 → |g.value - m * 2 ^ e| ≤ 10 ^ g.exponent / 2
  finest : k = 8 → (10 : ℚ) ^ g.exponent * 100 ≤ 2 ^ e * 49

private theorem standsFor_of_onGrid (hp : x.Parts m e) (hm : 0 < m) {first : ℤ} {k : Nat} {g : Grid}
    (hk : k ≤ 8) (low : (10 : ℚ) ^ first ≤ m * 2 ^ e) (high : m * 2 ^ e < (10 : ℚ) ^ (first + 1))
    (range : -45 ≤ first ∧ first ≤ 38) (finest : (10 : ℚ) ^ (first - 8) * 100 ≤ 2 ^ e * 49)
    (h : onGrid (interval x.magnitude) first (k + 1) = some g) : StandsFor g x m e k first := by
  have ten : (10 : ℚ) ≠ 0 := by norm_num
  obtain ⟨exponent, contains, above, upto⟩ := onGrid_some h
  have shift : first - ((k + 1 : Nat) : ℤ) + 1 = first - k := by omega
  have step : (0 : ℚ) < 10 ^ (first - k : ℤ) := by positivity
  rw [shift] at exponent above upto
  obtain ⟨least, most⟩ := below_bounds (interval x.magnitude) (first - k)
  rw [middle_value hp] at least most
  constructor
  case digits => exact hk
  case range => exact range
  case exponent => exact exponent
  case contains => exact contains
  case least =>
    have : ((10 ^ k : Nat) : ℚ) < (below (interval x.magnitude) (first - k) + 1 : Nat) := by
      refine lt_of_mul_lt_mul_right (lt_of_le_of_lt ?_ most) step.le
      push_cast
      rwa [← zpow_natCast, ← zpow_add₀ ten, add_sub_cancel]
    have : 10 ^ k < below (interval x.magnitude) (first - k) + 1 := by exact_mod_cast this
    omega
  case most =>
    have : (below (interval x.magnitude) (first - k) : ℚ) < ((10 ^ (k + 1) : Nat) : ℚ) := by
      refine lt_of_mul_lt_mul_right (lt_of_le_of_lt least ?_) step.le
      push_cast
      rwa [← zpow_natCast, ← zpow_add₀ ten,
        show ((k + 1 : Nat) : ℤ) + (first - k) = first + 1 by push_cast; ring]
    have : below (interval x.magnitude) (first - k) < 10 ^ (k + 1) := by exact_mod_cast this
    omega
  case close =>
    intro fine
    rw [exponent] at fine ⊢
    rw [← shift] at fine
    rw [onGrid_near (near_contains hp hm fine)] at h
    cases h
    rw [← middle_value hp, ← shift]
    exact near_close _ _
  case finest =>
    rintro rfl
    rw [exponent]
    exact finest

theorem grid_standsFor (hp : x.Parts m e) (hm : 0 < m) :
    ∃ k first, StandsFor (grid x.magnitude) x m e k first := by
  have ten : (10 : ℚ) ≠ 0 := by norm_num
  have unit : (0 : ℚ) < 2 ^ e := by positivity
  obtain ⟨first, hfirst⟩ : ∃ first, first = firstExponent x.magnitude.num x.magnitude.den := ⟨_, rfl⟩
  have value : (x.magnitude.num / x.magnitude.den : ℚ) = m * 2 ^ e := by
    rw [Binary.num_div_den, hp.magnitude, Binary.value]
  have atLeast : (2 : ℚ) ^ (-149 : ℤ) ≤ m * 2 ^ e := by
    have one : (1 : ℚ) ≤ m := by exact_mod_cast hm
    calc (2 : ℚ) ^ (-149 : ℤ) ≤ 2 ^ e := zpow_le_zpow_right₀ (by norm_num) hp.lowest
      _ ≤ m * 2 ^ e := le_mul_of_one_le_left unit.le one
  have atMost : (m : ℚ) * 2 ^ e < 16777216 * 2 ^ e := by
    have : (m : ℚ) < 16777216 := by exact_mod_cast hp.below
    exact mul_lt_mul_of_pos_right this unit
  obtain ⟨low, high⟩ := firstExponent_spec x.magnitude.den_pos
    (by rw [value]; exact le_trans (by norm_num) atLeast)
  rw [value, ← hfirst] at low high
  have finest : (10 : ℚ) ^ (first - 8) * 100 ≤ 2 ^ e * 49 := by
    rw [zpow_sub₀ ten]
    norm_num
    linarith
  have range : -45 ≤ first ∧ first ≤ 38 := by
    constructor
    · have : (10 : ℚ) ^ (-45 : ℤ) < 10 ^ (first + 1) := lt_of_le_of_lt (le_trans (by norm_num) atLeast) high
      rw [zpow_lt_zpow_iff_right₀ (by norm_num)] at this
      omega
    · have top : (2 : ℚ) ^ e ≤ 2 ^ (104 : ℤ) := zpow_le_zpow_right₀ (by norm_num) hp.highest
      have : (10 : ℚ) ^ first < 10 ^ (39 : ℤ) := by
        norm_num at top ⊢
        linarith
      rw [zpow_lt_zpow_iff_right₀ (by norm_num)] at this
      omega
  obtain ⟨k, hk, eq⟩ : ∃ k ≤ 8, onGrid (interval x.magnitude) first (k + 1) = some (grid x.magnitude) := by
    rw [grid, ← hfirst]
    cases found : (List.range 9).findSome? fun n => onGrid (interval x.magnitude) first (n + 1) with
    | some g =>
      obtain ⟨k, hk, eq⟩ := List.exists_of_findSome?_eq_some found
      exact ⟨k, by have := List.mem_range.1 hk; omega, eq⟩
    | none =>
      -- the finest grid always has a point
      have none := List.findSome?_eq_none_iff.1 found 8 (by decide)
      rw [onGrid_near (near_contains hp hm ?_)] at none
      · cases none
      · rwa [show first - ((8 + 1 : Nat) : ℤ) + 1 = first - 8 by omega]
  exact ⟨k, first, standsFor_of_onGrid hp hm hk low high range finest eq⟩

end

end Shortest
end PipelineEditor.Number
