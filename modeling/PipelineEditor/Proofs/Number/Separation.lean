import Mathlib.Tactic.NormNum
import PipelineEditor.Proofs.Number.Neighbours
import PipelineEditor.Proofs.Number.Rounding
import PipelineEditor.Proofs.Number.Spelling

/-! Decimals of at most eight digits against the binary numbers of 25 bits, among which the boundaries
between the 32-bit numbers are. A decimal that is not such a number itself stands off from it, up to a few
decimals that are looked at one by one. -/
namespace PipelineEditor.Number
namespace Shortest

/-- Numerator and denominator of the number that a grid point is. -/
def Grid.fraction (g : Grid) : Fraction :=
  ⟨g.count * Nat.pow 10 g.exponent.toNat, Nat.pow 10 (-g.exponent).toNat⟩

/-- A grid point that is read as the 32-bit number nearest to it. -/
def Grid.Steady (g : Grid) : Prop :=
  ∀ negative, (g.decimal negative).toSingle? =
    some (Single.nearest negative g.fraction.num g.fraction.den)

instance (g : Grid) : Decidable g.Steady :=
  inferInstanceAs (Decidable (∀ _, _ = _))

/-- A number `w` so far from `v` that what is read for `v` in 64-bit floating point lies on the same side. -/
def Clear (v w : ℚ) : Prop :=
  w ≤ v * (1 - 1 / 2 ^ 51) ∨ v * (1 + 1 / 2 ^ 51) ≤ w

namespace Separation

/-- The fraction that `M / s` is compared with to compare `M * 2 ^ k` and `s * 10 ^ q`. -/
def ratio (q k : ℤ) : Fraction :=
  ⟨Nat.pow 10 q.toNat * Nat.pow 2 (-k).toNat, Nat.pow 10 (-q).toNat * Nat.pow 2 k.toNat⟩

theorem ratio_den_pos (q k : ℤ) : 0 < (ratio q k).den :=
  Nat.mul_pos (Nat.pow_pos (by decide)) (Nat.pow_pos (by decide))

/-- The ratio is that of the two units, both multiplied by the same. -/
private theorem exists_factor (q k : ℤ) :
    ∃ t : ℚ, 0 < t ∧ ((ratio q k).num : ℚ) = 10 ^ q * t ∧ ((ratio q k).den : ℚ) = 2 ^ k * t := by
  have tens : (0 : ℚ) < (Nat.pow 10 (-q).toNat : Nat) := by exact_mod_cast Nat.pow_pos (by decide)
  have twos : (0 : ℚ) < (Nat.pow 2 (-k).toNat : Nat) := by exact_mod_cast Nat.pow_pos (by decide)
  refine ⟨(Nat.pow 10 (-q).toNat : Nat) * (Nat.pow 2 (-k).toNat : Nat), mul_pos tens twos, ?_, ?_⟩
  · rw [zpow_eq_div 10, ← mul_assoc, div_mul_cancel₀ _ tens.ne', ratio, Nat.cast_mul]
  · rw [zpow_eq_div 2, mul_left_comm, div_mul_cancel₀ _ twos.ne', ratio, Nat.cast_mul]

theorem ratio_value (q k : ℤ) : (ratio q k).value = 10 ^ q / 2 ^ k := by
  obtain ⟨t, pos, num, den⟩ := exists_factor q k
  rw [Fraction.value, num, den, mul_div_mul_right _ _ pos.ne']

theorem ratio_le_iff {q k : ℤ} {c d : Nat} :
    c * (ratio q k).num ≤ d * (ratio q k).den ↔ (c : ℚ) * 10 ^ q ≤ d * 2 ^ k := by
  obtain ⟨t, pos, num, den⟩ := exists_factor q k
  rw [← Nat.cast_le (α := ℚ), Nat.cast_mul, Nat.cast_mul, num, den, ← mul_assoc, ← mul_assoc,
    mul_le_mul_iff_left₀ pos]

theorem le_ratio_iff {q k : ℤ} {c d : Nat} :
    d * (ratio q k).den ≤ c * (ratio q k).num ↔ (d : ℚ) * 2 ^ k ≤ c * 10 ^ q := by
  obtain ⟨t, pos, num, den⟩ := exists_factor q k
  rw [← Nat.cast_le (α := ℚ), Nat.cast_mul, Nat.cast_mul, num, den, ← mul_assoc, ← mul_assoc,
    mul_le_mul_iff_left₀ pos]

/-- The reciprocal of the gap that `Clear` asks for. -/
def precision : Nat :=
  2251799813685248

/-- The largest number that stands clear below a fraction. -/
def lower (a : Fraction) : Fraction :=
  ⟨a.num * (precision - 1), a.den * precision⟩

/-- The least number that stands clear above a fraction. -/
def upper (a : Fraction) : Fraction :=
  ⟨a.num * (precision + 1), a.den * precision⟩

theorem lower_value (a : Fraction) : (lower a).value = a.value * (1 - 1 / 2 ^ 51) := by
  rw [Fraction.value, Fraction.value, lower]
  push_cast
  rw [mul_div_mul_comm]
  norm_num [precision]

theorem upper_value (a : Fraction) : (upper a).value = a.value * (1 + 1 / 2 ^ 51) := by
  rw [Fraction.value, Fraction.value, upper]
  push_cast
  rw [mul_div_mul_comm]
  norm_num [precision]

/-- What is asked of a fraction `f` near the ratio `a`. If it is too near, the decimals whose counts are
multiples of its denominator are read right, or they have eight digits on a fine grid. -/
def Settled (q : ℤ) (a f : Fraction) : Prop :=
  0 < f.den ∧
    (f.Le (lower a) ∨ (upper a).Le f ∨ (f.Same a ∧ -20 ≤ q ∧ q ≤ 13) ∨
      (Nat.gcd f.num f.den = 1 ∧ ∀ j < 100000000 / f.den + 1,
        10000000 ≤ j * f.den ∧ 16777216 ≤ j * f.num ∧ j * f.num < 33554432 →
          Grid.Steady ⟨j * f.den, q⟩ ∨ j * f.den % 10 ≠ 0 ∧ 50 * a.num ≤ 49 * a.den))

instance (q : ℤ) (a f : Fraction) : Decidable (Settled q a f) :=
  inferInstanceAs (Decidable (_ ∧ (_ ∨ _ ∨ _ ∨ _)))

/-- A row of adjacent fractions that reaches from well below a fraction to well above it. -/
structure Row (q : ℤ) (a : Fraction) (l : List Fraction) : Prop where
  adjacent : l.IsChain (Fraction.Adjacent 100000000)
  settled : ∀ f ∈ l, Settled q a f
  first : ∃ f ∈ l.head?, f.Le (lower a)
  last : ∃ f ∈ l.getLast?, (upper a).Le f

instance (q : ℤ) (a : Fraction) (l : List Fraction) : Decidable (Row q a l) :=
  decidable_of_iff
    (l.IsChain (Fraction.Adjacent 100000000) ∧ (∀ f ∈ l, Settled q a f) ∧
      (∃ f ∈ l.head?, f.Le (lower a)) ∧ ∃ f ∈ l.getLast?, (upper a).Le f)
    ⟨fun h => ⟨h.1, h.2.1, h.2.2.1, h.2.2.2⟩, fun h => ⟨h.adjacent, h.settled, h.first, h.last⟩⟩

def row (a : Fraction) : List Fraction :=
  Fraction.around 100000000 (fun f => decide (f.Le (lower a) ∨ (upper a).Le f)) a

/-- The least exponent with which a number of 25 bits comes near to the decimals `s * 10 ^ q`. -/
def lowest (q : ℤ) : ℤ :=
  q * 108853 / 32768 - 2

/-- Whether all exponents with which a number of 25 bits comes near to the decimals are the seven from
`lowest`. -/
def Framed (q : ℤ) : Prop :=
  33554432 * (ratio q (lowest q)).den ≤ 10000000 * (ratio q (lowest q)).num ∧
    200000000 * (ratio q (lowest q)).num ≤ 2147483648 * (ratio q (lowest q)).den

instance (q : ℤ) : Decidable (Framed q) :=
  inferInstanceAs (Decidable (_ ∧ _))

/-- The rows around all ratios that decimals of 32-bit numbers can have. -/
private theorem checked : ∀ i < 84, Framed ((i : Nat) - 52) ∧
    ∀ j < 7, Row ((i : Nat) - 52) (ratio ((i : Nat) - 52) (lowest ((i : Nat) - 52) + (j : Nat)))
      (row (ratio ((i : Nat) - 52) (lowest ((i : Nat) - 52) + (j : Nat)))) := by
  decide +kernel

variable {q : ℤ} {a f : Fraction}

private theorem lower_den_pos (ha : 0 < a.den) : 0 < (lower a).den :=
  Nat.mul_pos ha (by decide)

private theorem upper_den_pos (ha : 0 < a.den) : 0 < (upper a).den :=
  Nat.mul_pos ha (by decide)

private theorem Row.clear_or_same {l : List Fraction} (hl : Row q a l) (ha : 0 < a.den)
    (hf : 0 < f.den) (hb : f.den ≤ 100000000) :
    Clear a.value f.value ∨ ∃ g, f.Same g ∧ Settled q a g := by
  obtain ⟨first, hfirst, low⟩ := hl.first
  obtain ⟨last, hlast, high⟩ := hl.last
  cases l with
  | nil => cases hfirst
  | cons g l =>
    obtain rfl : g = first := by simpa using hfirst
    obtain rfl : (g :: l).getLast (List.cons_ne_nil g l) = last := by
      simpa [List.getLast?_eq_getLast_of_ne_nil] using hlast
    rw [Clear, ← lower_value, ← upper_value]
    rcases Fraction.le_or_same_or_ge hl.adjacent hb with before | ⟨g', hg', same⟩ | behind
    · have hg := (hl.settled g List.mem_cons_self).1
      rw [Fraction.le_iff hg (lower_den_pos ha)] at low
      rw [Fraction.le_iff hf hg] at before
      exact .inl (.inl (before.trans low))
    · exact .inr ⟨g', same, hl.settled g' (List.mem_cons_of_mem _ hg')⟩
    · have hg := (hl.settled _ (List.getLast_mem (List.cons_ne_nil g l))).1
      rw [Fraction.le_iff (upper_den_pos ha) hg] at high
      rw [Fraction.le_iff hg hf] at behind
      exact .inl (.inr (high.trans behind))

private theorem Settled.of_same {s M : Nat} {g : Fraction} (hg : Settled q a g) (ha : 0 < a.den)
    (same : (Fraction.mk M s).Same g) (hs : 10000000 ≤ s) (hs' : s ≤ 100000000) (hM : 16777216 ≤ M)
    (hM' : M < 33554432) :
    Clear a.value (Fraction.mk M s).value ∨
      ((Fraction.mk M s).value = a.value ∧ -20 ≤ q ∧ q ≤ 13) ∨
      Grid.Steady ⟨s, q⟩ ∨ (s % 10 ≠ 0 ∧ 50 * a.num ≤ 49 * a.den) := by
  obtain ⟨pos, low | high | ⟨exact, range⟩ | ⟨lowestTerms, each⟩⟩ := hg
  · left
    rw [Clear, ← lower_value, (Fraction.same_iff (by simp only; omega) pos).1 same]
    exact .inl ((Fraction.le_iff pos (lower_den_pos ha)).1 low)
  · left
    rw [Clear, ← upper_value, (Fraction.same_iff (by simp only; omega) pos).1 same]
    exact .inr ((Fraction.le_iff (upper_den_pos ha) pos).1 high)
  · right; left
    rw [(Fraction.same_iff (by simp only; omega) pos).1 same]
    exact ⟨(Fraction.same_iff pos ha).1 exact, range⟩
  · right; right
    replace same : M * g.den = g.num * s := same
    have coprime : Nat.Coprime g.num g.den := lowestTerms
    obtain ⟨j, rfl⟩ : g.den ∣ s :=
      coprime.symm.dvd_of_dvd_mul_left (same ▸ Nat.dvd_mul_left g.den M)
    have hj : M = j * g.num := by
      apply Nat.eq_of_mul_eq_mul_right pos
      rw [same]
      ring
    rw [Nat.mul_comm g.den j] at hs hs' ⊢
    have bound : j < 100000000 / g.den + 1 := Nat.lt_succ_of_le ((Nat.le_div_iff_mul_le pos).2 hs')
    exact each j bound ⟨hs, hj ▸ hM, hj ▸ hM'⟩

/-- With other exponents a number of 25 bits is less than half or more than twice the decimal. -/
private theorem Framed.clear {s M : Nat} {k : ℤ} (framed : Framed q) (hs : 10000000 ≤ s)
    (hs' : s ≤ 100000000) (hM : 16777216 ≤ M) (hM' : M < 33554432)
    (hk : k < lowest q ∨ lowest q + 7 ≤ k) : Clear (s * 10 ^ q) (M * 2 ^ k) := by
  obtain ⟨below, above⟩ := framed
  rw [le_ratio_iff] at below
  rw [ratio_le_iff] at above
  push_cast at below above
  have ten : (0 : ℚ) < 10 ^ q := by positivity
  have unit : (0 : ℚ) < 2 ^ k := by positivity
  have least : (10000000 : ℚ) ≤ s := by exact_mod_cast hs
  have most : (s : ℚ) ≤ 100000000 := by exact_mod_cast hs'
  have mLeast : (16777216 : ℚ) ≤ M := by exact_mod_cast hM
  have mMost : (M : ℚ) ≤ 33554432 := by exact_mod_cast hM'.le
  have pos : (0 : ℚ) < s * 10 ^ q := mul_pos (by linarith) ten
  rcases hk with low | high
  · have step : (2 : ℚ) ^ k * 2 ≤ 2 ^ lowest q := by
      rw [← zpow_add_one₀ (by norm_num)]
      exact zpow_le_zpow_right₀ (by norm_num) (by omega)
    have half : (M : ℚ) * 2 ^ k ≤ s * 10 ^ q / 2 := by nlinarith
    exact .inl (by linarith)
  · have step : (2 : ℚ) ^ lowest q * 2 ^ (7 : ℤ) ≤ 2 ^ k := by
      rw [← zpow_add₀ (by norm_num)]
      exact zpow_le_zpow_right₀ (by norm_num) high
    have double : s * 10 ^ q * 2 ≤ (M : ℚ) * 2 ^ k := by
      norm_num at step
      nlinarith
    exact .inr (by linarith)

end Separation

private theorem Clear.mul {v w c : ℚ} (h : Clear v w) (hc : 0 ≤ c) : Clear (v * c) (w * c) := by
  rcases h with h | h
  · exact .inl ((mul_le_mul_of_nonneg_right h hc).trans_eq (by ring))
  · exact .inr (Eq.trans_le (by ring) (mul_le_mul_of_nonneg_right h hc))

open Separation in
/-- A number of 25 bits stands off from a decimal of at most eight digits unless it is that decimal,
which then has a small exponent. The decimals that are nearer are read right, or they have eight digits
on a grid that is finer than the binary one. -/
theorem separation {s M : Nat} {q k : ℤ} (hq : -52 ≤ q) (hq' : q ≤ 31) (hs : 10000000 ≤ s)
    (hs' : s ≤ 100000000) (hM : 16777216 ≤ M) (hM' : M < 33554432) :
    Clear (Grid.mk s q).value (Binary.mk M k).value ∨
      ((Binary.mk M k).value = (Grid.mk s q).value ∧ -20 ≤ q ∧ q ≤ 13) ∨
      Grid.Steady ⟨s, q⟩ ∨ (s % 10 ≠ 0 ∧ 50 * (10 : ℚ) ^ q ≤ 49 * 2 ^ k) := by
  obtain ⟨framed, rows⟩ : Framed q ∧ ∀ j < 7, Row q (ratio q (lowest q + (j : Nat)))
      (row (ratio q (lowest q + (j : Nat)))) := by
    have h := checked (q + 52).toNat (by omega)
    rwa [show ((q + 52).toNat : ℤ) - 52 = q by omega] at h
  rw [Grid.value, Binary.value]
  dsimp only
  by_cases outside : k < lowest q ∨ lowest q + 7 ≤ k
  · exact .inl (framed.clear hs hs' hM hM' outside)
  have near := rows (k - lowest q).toNat (by omega)
  rw [show lowest q + ((k - lowest q).toNat : ℤ) = k by omega] at near
  have pos : 0 < (Fraction.mk M s).den := Nat.lt_of_lt_of_le (by decide) hs
  have sPos : (0 : ℚ) < s := by exact_mod_cast pos
  -- both sides of the comparison with the ratio, multiplied by the same
  have decimal : (ratio q k).value * (s * 2 ^ k) = s * 10 ^ q := by
    rw [ratio_value]
    field_simp
  have binary : (Fraction.mk M s).value * (s * 2 ^ k) = M * 2 ^ k := by
    rw [Fraction.value]
    field_simp
  have clear (h : Clear (ratio q k).value (Fraction.mk M s).value) : Clear (s * 10 ^ q) (M * 2 ^ k) := by
    rw [← decimal, ← binary]
    exact h.mul (by positivity)
  rcases near.clear_or_same (ratio_den_pos q k) pos hs' with far | ⟨g, same, settled⟩
  · exact .inl (clear far)
  · rcases settled.of_same (ratio_den_pos q k) same hs hs' hM hM' with far | ⟨exact, range⟩ | steady | fine
    · exact .inl (clear far)
    · rw [← decimal, ← binary, exact]
      exact .inr (.inl ⟨rfl, range⟩)
    · exact .inr (.inr (.inl steady))
    · rw [ratio_le_iff] at fine
      exact .inr (.inr (.inr (by exact_mod_cast fine)))

end Shortest
end PipelineEditor.Number
