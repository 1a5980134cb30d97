import PipelineEditor.Proofs.Number.Grid
import PipelineEditor.Proofs.Number.Scaled
import PipelineEditor.Proofs.Number.Separation

/-! Every finite 32-bit number is read back from the decimal it is written as. The decimal lies in the
neighbourhood of the number; what is read for it in 64-bit floating point is close to it and passes no end of
the neighbourhood, because the decimal is near to the number on a fine grid and separated from the ends on a
coarse one. -/
namespace PipelineEditor.Number
namespace Shortest

open Single

variable {x : Single} {m : Nat} {e : ℤ}

/-! The ends of a neighbourhood as numbers of 25 bits. -/

/-- A number of at most 25 bits, written with all of them. -/
private theorem exists_normalized {n : Nat} (hn : 0 < n) (hn' : n < 33554432) (e : ℤ) :
    ∃ M k, 16777216 ≤ M ∧ M < 33554432 ∧ e - 24 ≤ k ∧ k ≤ e ∧ (Binary.mk M k).value = n * 2 ^ e := by
  have log : n.log2 ≤ 24 := by
    have := Nat.log2_self_le hn.ne'
    have := (Nat.pow_lt_pow_iff_right (by decide : 1 < 2)).1 (Nat.lt_of_le_of_lt this hn' : _ < 2 ^ 25)
    omega
  have split : 2 ^ n.log2 * 2 ^ (24 - n.log2) = 16777216 := by
    rw [← Nat.pow_add, Nat.add_sub_cancel' log]
  have pos : 0 < 2 ^ (24 - n.log2) := Nat.pow_pos (by decide)
  refine ⟨n * 2 ^ (24 - n.log2), e - (24 - n.log2 : Nat), ?_, ?_, by omega, by omega, ?_⟩
  · rw [← split]
    exact Nat.mul_le_mul_right _ (Nat.log2_self_le hn.ne')
  · have := Nat.mul_lt_mul_of_pos_right (Nat.lt_log2_self (n := n)) pos
    rw [Nat.pow_succ, Nat.mul_right_comm, split] at this
    omega
  · rw [Binary.value, zpow_sub₀ (by norm_num), zpow_natCast]
    push_cast
    field_simp

/-- A number of 25 bits whose unit is less than `2 ^ e`. -/
private def HasBits (e : ℤ) (w : ℚ) : Prop :=
  ∃ M k, 16777216 ≤ M ∧ M < 33554432 ∧ -1074 ≤ k ∧ k < e ∧ (Binary.mk M k).value = w

private theorem hasBits_low (hp : x.Parts m e) (hm : 0 < m) :
    HasBits e ((m - quarters m e / 4) * 2 ^ e) := by
  have lowest := hp.lowest
  have below := hp.below
  have two : (2 : ℚ) ≠ 0 := by norm_num
  by_cases h : m = binade ∧ -149 < e
  · have one : quarters m e = 1 := if_pos h
    obtain ⟨M, k, least, most, low, high, value⟩ := exists_normalized (n := 33554431) (by decide)
      (by decide) (e - 2)
    refine ⟨M, k, least, most, by omega, by omega, value.trans ?_⟩
    rw [one, h.1, binade, zpow_sub₀ two]
    norm_num
    ring
  · have two' : quarters m e = 2 := if_neg h
    obtain ⟨M, k, least, most, low, high, value⟩ := exists_normalized (n := 2 * m - 1) (by omega)
      (by omega) (e - 1)
    refine ⟨M, k, least, most, by omega, by omega, value.trans ?_⟩
    rw [two', Nat.cast_sub (by omega), zpow_sub₀ two]
    push_cast
    ring

private theorem hasBits_high (hp : x.Parts m e) : HasBits e ((m + 1 / 2) * 2 ^ e) := by
  have lowest := hp.lowest
  have below := hp.below
  obtain ⟨M, k, least, most, low, high, value⟩ := exists_normalized (n := 2 * m + 1) (by omega)
    (by omega) (e - 1)
  refine ⟨M, k, least, most, by omega, by omega, value.trans ?_⟩
  rw [zpow_sub₀ (by norm_num)]
  push_cast
  ring

/-! From a number to one read in its place. -/

/-- A number `b` that is read for `v`. -/
private def Close (v b : ℚ) : Prop :=
  |b - v| < v * (1 / 2 ^ 51)

private theorem Close.lt_of_clear {v b w : ℚ} (h : Close v b) (hw : Clear v w) :
    (w ≤ v → w < b) ∧ (v ≤ w → b < w) := by
  obtain ⟨low, high⟩ := abs_lt.1 h
  have pos : 0 < v * (1 / 2 ^ 51) := lt_of_le_of_lt (abs_nonneg _) h
  rcases hw with hw | hw <;> constructor <;> intro <;> linarith

/-- The number read lies in the neighbourhood if no end of it is passed. -/
private theorem contains_of_ends {i : Interval} {v b : ℚ} (hv : i.Contains v) (h : Close v b)
    (ends : ∀ w, w = i.low * i.unit.value ∨ w = i.high * i.unit.value → Clear v w ∨ (w = v ∧ b = v)) :
    i.Contains b := by
  have low : i.low * i.unit.value < b ∨ b = v := by
    rcases ends _ (.inl rfl) with clear | ⟨-, same⟩
    · exact .inl ((h.lt_of_clear clear).1 hv.low)
    · exact .inr same
  have high : b < i.high * i.unit.value ∨ b = v := by
    rcases ends _ (.inr rfl) with clear | ⟨-, same⟩
    · exact .inl ((h.lt_of_clear clear).2 hv.high)
    · exact .inr same
  rcases low with low | rfl
  · rcases high with high | rfl
    · exact ⟨low.le, high.le, fun _ => low.ne', fun _ => high.ne⟩
    · exact hv
  · exact hv

variable {g : Grid} {k : Nat} {first : ℤ}

/-- On a grid finer than the binary one, what is read stays near to the number. -/
private theorem contains_of_fine (hp : x.Parts m e) (hm : 0 < m) (hg : StandsFor g x m e k first)
    (fine : (10 : ℚ) ^ g.exponent * 100 ≤ 2 ^ e * 49) {b : ℚ} (hb : Close g.value b) :
    (interval x.magnitude).Contains b := by
  have unit : (0 : ℚ) < 2 ^ e := by positivity
  have near := hg.close fine
  have most : (m : ℚ) * 2 ^ e ≤ 16777216 * 2 ^ e := by
    have : (m : ℚ) ≤ 16777216 := by exact_mod_cast hp.below.le
    gcongr
  have value : g.value ≤ 16777217 * 2 ^ e := by linarith [(abs_le.1 near).2]
  refine contains_of_close hp hm ?_
  calc |b - m * 2 ^ e| ≤ |b - g.value| + |g.value - m * 2 ^ e| := abs_sub_le _ _ _
    _ < g.value * (1 / 2 ^ 51) + 10 ^ g.exponent / 2 := add_lt_add_of_lt_of_le hb near
    _ ≤ 2 ^ e / 4 := by norm_num; linarith

/-- A grid point with zeros put behind its count. -/
private def Grid.pad (g : Grid) (j : Nat) : Grid :=
  ⟨g.count * 10 ^ j, g.exponent - j⟩

private theorem Grid.pad_value (g : Grid) (j : Nat) : (g.pad j).value = g.value := by
  rw [value, value, pad, zpow_sub₀ (by norm_num), zpow_natCast]
  push_cast
  field_simp

private theorem Grid.pad_decimal {g : Grid} (hg : g.count ≠ 0) (j : Nat) (negative : Bool) :
    (g.pad j).decimal negative = g.decimal negative := by
  rw [decimal, decimal, pad, significant_mul_pow hg]

private theorem Grid.fraction_value (g : Grid) : (g.fraction.num / g.fraction.den : ℚ) = g.value := by
  rw [value, zpow_eq_div, fraction]
  push_cast
  rw [mul_div_assoc]

/-- On a coarser grid there are at most eight digits. The decimal is read right, or it keeps off the ends of
the neighbourhood that it does not lie on. -/
private theorem steady_or_clear (hg : StandsFor g x m e k first)
    (coarse : ¬(10 : ℚ) ^ g.exponent * 100 ≤ 2 ^ e * 49) {w : ℚ} (hw : HasBits e w) :
    (g.pad (7 - k)).Steady ∨ Clear g.value w ∨ (w = g.value ∧ -13 ≤ first ∧ first ≤ 20) := by
  obtain ⟨M, l, least, most, -, small, rfl⟩ := hw
  have digits : k ≤ 7 := by
    have := hg.digits
    have : k ≠ 8 := fun h => coarse (hg.finest h)
    omega
  have range := hg.range
  have exponent := hg.exponent
  have count : 10000000 ≤ g.count * 10 ^ (7 - k) ∧ g.count * 10 ^ (7 - k) ≤ 100000000 := by
    constructor
    · calc 10000000 = 10 ^ k * 10 ^ (7 - k) := by rw [← Nat.pow_add, Nat.add_sub_cancel' digits]
        _ ≤ g.count * 10 ^ (7 - k) := Nat.mul_le_mul_right _ hg.least
    · calc g.count * 10 ^ (7 - k) ≤ 10 ^ (k + 1) * 10 ^ (7 - k) := Nat.mul_le_mul_right _ hg.most
        _ = 100000000 := by rw [← Nat.pow_add, show k + 1 + (7 - k) = 8 by omega]
  have shift : (g.pad (7 - k)).exponent = first - 7 := by
    rw [Grid.pad, exponent]
    push_cast [digits]
    ring
  have separated := separation (q := (g.pad (7 - k)).exponent) (k := l) (by omega) (by omega) count.1
    count.2 least most
  rw [show Grid.mk (g.count * 10 ^ (7 - k)) (g.pad (7 - k)).exponent = g.pad (7 - k) from rfl,
    g.pad_value] at separated
  rcases separated with clear | ⟨same, low, high⟩ | steady | ⟨eight, fine⟩
  · exact .inr (.inl clear)
  · exact .inr (.inr ⟨same, by omega, by omega⟩)
  · exact .inl steady
  · -- a count of eight digits is not padded, so the grid would be fine
    exfalso
    obtain rfl : k = 7 := by
      refine Decidable.byContradiction fun h => eight ?_
      obtain ⟨j, hj⟩ : ∃ j, 7 - k = j + 1 := ⟨6 - k, by omega⟩
      rw [hj, Nat.pow_succ, ← Nat.mul_assoc, Nat.mul_mod_left]
    refine coarse ?_
    have half : (2 : ℚ) ^ l * 2 ≤ 2 ^ e := by
      rw [← zpow_add_one₀ (by norm_num)]
      exact zpow_le_zpow_right₀ (by norm_num) (by omega)
    rw [shift, ← show g.exponent = first - 7 from exponent] at fine
    linarith

/-- A number read that lies in the neighbourhood is rounded to the 32-bit number. -/
private theorem nearest_value (hp : x.Parts m e) (hm : 0 < m) {b : Binary}
    (h : (interval x.magnitude).Contains b.value) : Single.nearest x.negative b.num b.den = x := by
  rw [← b.num_div_den] at h
  exact nearest_of_contains hp hm b.den_pos h x.negative

private theorem toSingle?_of_steady (hp : x.Parts m e) (hm : 0 < m) (hg : StandsFor g x m e k first)
    {j : Nat} (steady : (g.pad j).Steady) : (g.decimal x.negative).toSingle? = some x := by
  have ne : g.count ≠ 0 := (Nat.lt_of_lt_of_le (Nat.pow_pos (by decide)) hg.least).ne'
  have contains := hg.contains
  rw [← g.pad_value j, ← Grid.fraction_value] at contains
  rw [← Grid.pad_decimal ne j, steady x.negative]
  exact congrArg some (nearest_of_contains hp hm (Nat.pow_pos (by decide)) contains x.negative)

/-- The decimal of a grid point that stands for a number is read as the number. -/
private theorem StandsFor.toSingle? (hp : x.Parts m e) (hm : 0 < m) (hg : StandsFor g x m e k first) :
    (g.decimal x.negative).toSingle? = some x := by
  have range := hg.range
  have digits := hg.digits
  have exponent := hg.exponent
  have ne : g.count ≠ 0 := (Nat.lt_of_lt_of_le (Nat.pow_pos (by decide)) hg.least).ne'
  have few : g.count < 10000000000 :=
    Nat.lt_of_le_of_lt (hg.most.trans (Nat.pow_le_pow_right (by decide) (by omega : k + 1 ≤ 9)))
      (by decide)
  obtain ⟨t, power, reads, ht, value, hpower⟩ := g.decimal_reads ne few x.negative
  have zeros : power = -1 ∨ g.exponent ≤ power ∧ power ≤ first + 1 := by
    refine hpower.imp_right fun ⟨z, hz, eq⟩ => ?_
    have := (Nat.pow_le_pow_iff_right (by decide : 1 < 10)).1 (hz.trans hg.most)
    omega
  obtain ⟨b, scaled, close, exact⟩ := Decimal.exists_scaled power (Nat.pos_of_ne_zero ht) reads.short
    (by omega)
  rw [value] at close exact
  by_cases fine : (10 : ℚ) ^ g.exponent * 100 ≤ 2 ^ e * 49
  · rw [reads.toSingle?_eq, scaled, Option.map_some,
      nearest_value hp hm (contains_of_fine hp hm hg fine close)]
  · by_cases steady : (g.pad (7 - k)).Steady
    · exact toSingle?_of_steady hp hm hg steady
    · rw [reads.toSingle?_eq, scaled, Option.map_some]
      refine congrArg some (nearest_value hp hm (contains_of_ends hg.contains close fun w hw => ?_))
      have bits : HasBits e w := by
        rw [hp.low_value hm, hp.high_value] at hw
        rcases hw with rfl | rfl
        · exact hasBits_low hp hm
        · exact hasBits_high hp
      refine ((steady_or_clear hg fine bits).resolve_left steady).imp_right fun ⟨same, low, high⟩ => ?_
      obtain ⟨M, l, -, most, least, -, rfl⟩ := bits
      exact ⟨same, exact (by omega) M l (by omega) least same.symm⟩

end Shortest

/-- Every finite 32-bit number has a decimal, which is read as the number. -/
theorem Single.exists_decimal {x : Single} (h : x.isInfinite = false) :
    ∃ d, x.toDecimal? = some d ∧ d.toSingle? = some x := by
  by_cases zero : x.rank = 0
  · obtain ⟨negative, rank, le⟩ := x
    obtain rfl : rank = 0 := zero
    refine ⟨⟨negative, 0, [Text.digitOf 0], none⟩, ?_, ?_⟩
    · simp [toDecimal?, h]
    · cases negative <;> decide +kernel +revert
  · obtain ⟨m, e, hp⟩ := exists_parts h
    have hm : 0 < m := by
      refine Nat.pos_of_ne_zero fun hm => zero ?_
      have above := hp.above
      rw [← hp.rank]
      omega
    obtain ⟨k, first, standsFor⟩ := Shortest.grid_standsFor hp hm
    refine ⟨_, ?_, standsFor.toSingle? hp hm⟩
    rw [toDecimal?, h, if_neg (by decide), if_neg zero]
    rfl

end PipelineEditor.Number
