import PipelineEditor.Number.Shortest
import PipelineEditor.Proofs.Number.Rounding

/-! The 32-bit numbers among the rational ones. Whatever lies in the neighbourhood of a finite number is
rounded to it. -/
namespace PipelineEditor.Number

namespace Single

/-- What is known of a finite number by its significand and exponent. -/
structure Parts (x : Single) (m : Nat) (e : ℤ) : Prop where
  magnitude : x.magnitude = ⟨m, e⟩
  lowest : -149 ≤ e
  highest : e ≤ 104
  below : m < 16777216
  above : e = -149 ∨ 8388608 ≤ m
  rank : (e + 149).toNat * 8388608 + m = x.rank

theorem exists_parts {x : Single} (h : x.isInfinite = false) : ∃ m e, x.Parts m e := by
  have finite : x.rank < 2139095040 := by
    have ne : x.rank ≠ 2139095040 := by simpa [isInfinite, infinityRank] using h
    have := x.rank_le
    omega
  by_cases he : x.rank / binade = 0
  · refine ⟨x.rank, -149, by simp [magnitude, he], ?_, ?_, ?_, .inl rfl, ?_⟩ <;>
      simp only [binade] at he <;> omega
  · refine ⟨binade + x.rank % binade, (x.rank / binade : Nat) - 150, by simp [magnitude, he], ?_,
      ?_, ?_, .inr ?_, ?_⟩ <;> simp only [binade] at he ⊢ <;> omega

end Single

namespace Shortest

/-- A rational number in the neighbourhood of a 32-bit number. -/
structure Interval.Contains (i : Interval) (v : ℚ) : Prop where
  low : i.low * i.unit.value ≤ v
  high : v ≤ i.high * i.unit.value
  open_low : i.closed = false → v ≠ i.low * i.unit.value
  open_high : i.closed = false → v ≠ i.high * i.unit.value

end Shortest

namespace Single

open Shortest

/-- By how many quarters of a unit the neighbourhood of a number reaches down: one just above a power of
two, two elsewhere. -/
def quarters (m : Nat) (e : ℤ) : Nat :=
  if m = binade ∧ -149 < e then 1 else 2

variable {x : Single} {m : Nat} {e : ℤ}

theorem quarters_le (m : Nat) (e : ℤ) : 1 ≤ quarters m e ∧ quarters m e ≤ 2 := by
  unfold quarters
  split <;> decide

theorem Parts.interval_eq (hp : x.Parts m e) :
    interval x.magnitude = ⟨4 * m - quarters m e, 4 * m, 4 * m + 2, m % 2 == 0, ⟨1, e - 2⟩⟩ := by
  rw [interval, hp.magnitude]
  rfl

private theorem quarter_value (e : ℤ) : (Binary.mk 1 (e - 2)).value = 2 ^ e / 4 := by
  rw [Binary.value, zpow_sub₀ (by norm_num)]
  norm_num

theorem Parts.low_value (hp : x.Parts m e) (hm : 0 < m) :
    ((interval x.magnitude).low : ℚ) * (interval x.magnitude).unit.value =
      (m - quarters m e / 4 : ℚ) * 2 ^ e := by
  have := (quarters_le m e).2
  rw [hp.interval_eq, quarter_value, Nat.cast_sub (by omega)]
  push_cast
  ring

theorem Parts.high_value (hp : x.Parts m e) :
    ((interval x.magnitude).high : ℚ) * (interval x.magnitude).unit.value = (m + 1 / 2) * 2 ^ e := by
  rw [hp.interval_eq, quarter_value]
  push_cast
  ring

/-- What lies in the neighbourhood of a number, in units of its last place. -/
theorem Parts.contains_iff (hp : x.Parts m e) (hm : 0 < m) {t : ℚ} :
    (interval x.magnitude).Contains (t * 2 ^ e) ↔
      m - quarters m e / 4 ≤ t ∧ t ≤ m + 1 / 2 ∧
        (t = m - quarters m e / 4 ∨ t = m + 1 / 2 → m % 2 = 0) := by
  have unit : (0 : ℚ) < 2 ^ e := by positivity
  have closed : (interval x.magnitude).closed = (m % 2 == 0) := by rw [hp.interval_eq]
  constructor
  · rintro ⟨low, high, openLow, openHigh⟩
    rw [hp.low_value hm] at low openLow
    rw [hp.high_value] at high openHigh
    refine ⟨le_of_mul_le_mul_right low unit, le_of_mul_le_mul_right high unit, fun atEnd => ?_⟩
    refine Decidable.byContradiction fun odd => ?_
    have notClosed : (interval x.magnitude).closed = false := by simpa [closed] using odd
    rcases atEnd with rfl | rfl
    · exact openLow notClosed rfl
    · exact openHigh notClosed rfl
  · rintro ⟨low, high, even⟩
    have odd (h : (interval x.magnitude).closed = false) : m % 2 ≠ 0 := by simpa [closed] using h
    constructor
    · rw [hp.low_value hm]
      exact mul_le_mul_of_nonneg_right low unit.le
    · rw [hp.high_value]
      exact mul_le_mul_of_nonneg_right high unit.le
    · intro h same
      rw [hp.low_value hm] at same
      exact odd h (even (.inl (mul_right_cancel₀ unit.ne' same)))
    · intro h same
      rw [hp.high_value] at same
      exact odd h (even (.inr (mul_right_cancel₀ unit.ne' same)))

private theorem nearest_of_round {num den : Nat} (negative : Bool) {b : Binary}
    (hb : Format.single.round num den = b)
    (hr : (b.exponent + 149).toNat * 8388608 + b.significand = x.rank) :
    nearest negative num den = ⟨negative, x.rank, x.rank_le⟩ := by
  have le := x.rank_le
  simp only [nearest, hb, binade, infinityRank, hr, Nat.min_eq_left le]

private theorem top_value (e : ℤ) : (2 : ℚ) ^ (e + (Format.single.width : ℤ)) = 16777216 * 2 ^ e := by
  rw [zpow_add₀ (by norm_num)]
  norm_num [Format.single]
  ring

private theorem first_value (e : ℤ) : (2 : ℚ) ^ (e + (Format.single.width : ℤ) - 1) = 8388608 * 2 ^ e := by
  rw [add_sub_assoc, zpow_add₀ (by norm_num)]
  norm_num [Format.single]
  ring

/-- A number is the nearest to what lies in its neighbourhood and has the same unit. -/
private theorem nearest_of_same_unit (hp : x.Parts m e) {num den : Nat} (hd : 0 < den) {t : ℚ}
    (ht : (num / den : ℚ) = t * 2 ^ e) (same : e = -149 ∨ 8388608 ≤ t) (low : m - 1 / 2 ≤ t)
    (high : t ≤ m + 1 / 2) (even : t = m - 1 / 2 ∨ t = m + 1 / 2 → m % 2 = 0) (negative : Bool) :
    nearest negative num den = ⟨negative, x.rank, x.rank_le⟩ := by
  have unit : (0 : ℚ) < 2 ^ e := by positivity
  have small : (m : ℚ) + 1 ≤ 16777216 := by exact_mod_cast hp.below
  have exponent : Format.single.IsExponent e (num / den) := by
    rw [ht]
    refine ⟨hp.lowest, ?_, same.imp id fun h => ?_⟩
    · rw [top_value]
      exact mul_lt_mul_of_pos_right (by linarith) unit
    · rw [first_value]
      exact mul_le_mul_of_nonneg_right h unit.le
  have significand : IsNearest m (num / den / 2 ^ e) := by
    rw [ht, mul_div_cancel_right₀ _ unit.ne']
    refine ⟨abs_le.2 ⟨by linarith, by linarith⟩, fun h => even ?_⟩
    rcases (abs_eq (by norm_num)).1 h with h | h
    · exact .inl (by linarith)
    · exact .inr (by linarith)
  exact nearest_of_round negative (Format.round_eq hd exponent significand) hp.rank

/-- A power of two is the nearest to what lies in its neighbourhood below it, where the unit is half as
large. -/
private theorem nearest_of_half_unit (hp : x.Parts 8388608 e) (he : e ≠ -149) {num den : Nat}
    (hd : 0 < den) {t : ℚ} (ht : (num / den : ℚ) = t * 2 ^ e) (below : t < 8388608)
    (low : 8388608 - 1 / 4 ≤ t) (negative : Bool) :
    nearest negative num den = ⟨negative, x.rank, x.rank_le⟩ := by
  have lowest := hp.lowest
  have half : (2 : ℚ) ^ e = 2 * 2 ^ (e - 1) := by
    rw [zpow_sub_one₀ (by norm_num)]
    ring
  have unit : (0 : ℚ) < 2 ^ (e - 1) := by positivity
  rw [half, ← mul_assoc] at ht
  have exponent : Format.single.IsExponent (e - 1) (num / den) := by
    rw [ht]
    refine ⟨by simp only [Format.single]; omega, ?_, .inr ?_⟩
    · rw [top_value]
      exact mul_lt_mul_of_pos_right (by linarith) unit
    · rw [first_value]
      exact mul_le_mul_of_nonneg_right (by linarith) unit.le
  have significand : IsNearest 16777216 (num / den / 2 ^ (e - 1)) := by
    rw [ht, mul_div_cancel_right₀ _ unit.ne']
    refine ⟨abs_le.2 ⟨?_, ?_⟩, fun _ => rfl⟩ <;> push_cast <;> linarith
  refine nearest_of_round negative (Format.round_eq hd exponent significand) ?_
  rw [← hp.rank]
  dsimp only
  omega

/-- A number is the nearest to all that lies in its neighbourhood. -/
theorem nearest_of_contains (hp : x.Parts m e) (hm : 0 < m) {num den : Nat} (hd : 0 < den)
    (h : (interval x.magnitude).Contains (num / den)) (negative : Bool) :
    nearest negative num den = ⟨negative, x.rank, x.rank_le⟩ := by
  have unit : (0 : ℚ) < 2 ^ e := by positivity
  obtain ⟨t, ht⟩ : ∃ t : ℚ, (num / den : ℚ) = t * 2 ^ e :=
    ⟨num / den / 2 ^ e, (div_mul_cancel₀ _ unit.ne').symm⟩
  rw [ht, hp.contains_iff hm] at h
  obtain ⟨low, high, even⟩ := h
  have bounds := quarters_le m e
  have most : (quarters m e : ℚ) ≤ 2 := by exact_mod_cast bounds.2
  by_cases same : e = -149 ∨ 8388608 ≤ t
  · refine nearest_of_same_unit hp hd ht same (by linarith) high (fun atEnd => even ?_) negative
    refine atEnd.imp_left fun h => ?_
    rw [le_antisymm most (by linarith : (2 : ℚ) ≤ quarters m e), h]
    norm_num
  · obtain ⟨notLowest, below⟩ := not_or.1 same
    rw [not_le] at below
    obtain rfl : m = 8388608 := by
      have upper : (m : ℚ) < 8388609 := by linarith
      have : m < 8388609 := by exact_mod_cast upper
      have := hp.above.resolve_left notLowest
      omega
    have one : quarters 8388608 e = 1 := if_pos ⟨rfl, by have := hp.lowest; omega⟩
    rw [one] at low
    exact nearest_of_half_unit hp notLowest hd ht below (by push_cast at low; linarith) negative

/-! Whole numbers. -/

/-- A number that is put together of a significand and an exponent has these. -/
private theorem magnitude_of_rank (lowest : -149 ≤ e) (below : m < 16777216)
    (above : e = -149 ∨ 8388608 ≤ m) (hr : (e + 149).toNat * 8388608 + m = x.rank) :
    x.magnitude = ⟨m, e⟩ := by
  simp only [magnitude, binade, ← hr]
  by_cases first : ((e + 149).toNat * 8388608 + m) / 8388608 = 0
  · rw [if_pos first, Binary.mk.injEq]
    omega
  · rw [if_neg first, Binary.mk.injEq]
    omega

/-- A whole number of at most 24 bits is the nearest to itself. -/
theorem nearest_whole {num den c : Nat} (hd : 0 < den) (hv : (num / den : ℚ) = c)
    (hc : c < 16777216) (negative : Bool) : (nearest negative num den).magnitude.value = c := by
  obtain ⟨he, -⟩ := Format.single.round_spec num hd
  have value : (Format.single.round num den).value = c :=
    (Format.single.round_exact hd (k := 0) hc (by decide) (by simpa using hv)).trans hv
  rw [hv] at he
  generalize hb : Format.single.round num den = b at he value
  obtain ⟨m, e⟩ := b
  have parts : (c : ℚ) = m * 2 ^ e := value.symm
  have unit : (0 : ℚ) < 2 ^ e := by positivity
  have lowest : -149 ≤ e := he.lowest
  have below : m < 16777216 := by
    have less := he.below
    rw [top_value, parts, mul_lt_mul_iff_left₀ unit] at less
    exact_mod_cast less
  have above : e = -149 ∨ 8388608 ≤ m := he.above.imp id fun least => by
    rw [first_value, parts, mul_le_mul_iff_left₀ unit] at least
    exact_mod_cast least
  have highest : e ≤ 0 := by
    rcases above with rfl | least
    · decide
    · refine Int.le_of_lt_add_one ((zpow_lt_zpow_iff_right₀ (by norm_num : (1 : ℚ) < 2)).1 ?_)
      have most : (m : ℚ) * 2 ^ e < 16777216 := parts ▸ (by exact_mod_cast hc)
      have least : (8388608 : ℚ) * 2 ^ e ≤ m * 2 ^ e :=
        mul_le_mul_of_nonneg_right (by exact_mod_cast least) unit.le
      rw [zero_add, zpow_one]
      linarith
  let x : Single := ⟨negative, (e + 149).toNat * 8388608 + m, by omega⟩
  have same : nearest negative num den = x := nearest_of_round (x := x) negative hb rfl
  rw [same, magnitude_of_rank lowest below above rfl, value]

end Single
end PipelineEditor.Number
