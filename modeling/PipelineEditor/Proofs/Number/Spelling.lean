import Mathlib.Algebra.Order.Field.Power
import Mathlib.Data.List.TakeWhile
import Mathlib.Data.Rat.Cast.Order
import Mathlib.Tactic.FieldSimp
import Mathlib.Tactic.Linarith
import Mathlib.Tactic.Ring
import PipelineEditor.Number.Shortest
import PipelineEditor.Proofs.Text.DigitValues

/-! The written form of a grid point: its digits without the zeros at the end, laid out as a decimal. The
decimal is read with a significand and a power of ten that are the grid point again. -/
namespace PipelineEditor.Number

open Text

namespace Decimal

/-- Digits are taken up as long as there is room. -/
theorem absorb_eq {n : Nat} {ds : List (Fin 10)}
    (h : n * 10 ^ ds.length + ofDigitValues ds < wordBound) :
    absorb n ds = (n * 10 ^ ds.length + ofDigitValues ds, ds.length) := by
  induction ds generalizing n with
  | nil => simp [absorb, ofDigitValues]
  | cons d ds ih =>
    have shift : n * 10 ^ (d :: ds).length + ofDigitValues (d :: ds) =
        (n * 10 + d) * 10 ^ ds.length + ofDigitValues ds := by
      rw [ofDigitValues_cons, List.length_cons]
      ring
    rw [shift] at h ⊢
    have room : n * 10 + d < wordBound := by
      have := Nat.le_mul_of_pos_right (n * 10 + d.val) (Nat.pow_pos (by decide) : 0 < 10 ^ ds.length)
      omega
    rw [absorb, if_pos room, ih h, List.length_cons]

/-- A decimal whose digits all have room is read exactly. -/
theorem significand_eq {d : Decimal} {t : Nat}
    (ht : ofDigitValues (digitValues d.whole ++ d.fraction) = t) (room : t < wordBound) :
    d.significand = (t, d.exponent.getD 0 - d.fraction.length) := by
  rw [ofDigitValues_append, ofDigitValues_digitValues] at ht
  have whole : absorb 0 (digitValues d.whole) = (d.whole, (digitValues d.whole).length) := by
    have := Nat.le_mul_of_pos_right d.whole (Nat.pow_pos (by decide) : 0 < 10 ^ d.fraction.length)
    rw [absorb_eq] <;> rw [ofDigitValues_digitValues, Nat.zero_mul, Nat.zero_add]
    omega
  have fraction : absorb d.whole d.fraction = (t, d.fraction.length) := by
    rw [absorb_eq (ht ▸ room), ht]
  simp only [significand, whole, fraction, Nat.sub_self]
  congr 1
  omega

end Decimal

namespace Shortest

/-- The number that a grid point is. -/
def Grid.value (g : Grid) : ℚ :=
  g.count * 10 ^ g.exponent

/-- A grid point as it is written. -/
def Grid.decimal (g : Grid) (negative : Bool) : Decimal :=
  layOut negative (significant g).1 (significant g).2

variable {d : Fin 10} {ds : List (Fin 10)} {e : ℤ}

/-- A decimal that is read as a short significand and a power of ten, and not as a whole number. -/
structure Reads (x : Decimal) (negative : Bool) (t : Nat) (power : ℤ) : Prop where
  negative : x.negative = negative
  significand : x.significand = (t, power)
  isWord : x.isWord = false
  short : t < 100000000000000

theorem Reads.toSingle?_eq {x : Decimal} {negative : Bool} {t : Nat} {power : ℤ}
    (h : Reads x negative t power) :
    x.toSingle? = (Decimal.scaled t power).map fun b => Single.nearest negative b.num b.den := by
  simp [Decimal.toSingle?, h.isWord, h.significand, h.negative]

private theorem ofDigitValues_lt_of_length {n : Nat} (hl : ds.length ≤ n) : ofDigitValues ds < 10 ^ n :=
  Nat.lt_of_lt_of_le (ofDigitValues_lt ds) (Nat.pow_le_pow_right (by decide) hl)

/-- Digits behind the point only. -/
private theorem reads_below_one (negative : Bool) (n : Nat) (hl : ds.length ≤ 10) (hds : ds ≠ []) :
    Reads ⟨negative, 0, List.replicate n (digitOf 0) ++ ds, none⟩ negative (ofDigitValues ds)
      (-(n + ds.length : Nat)) := by
  have bound : ofDigitValues ds < 10 ^ 10 := ofDigitValues_lt_of_length hl
  have zero : digitValues 0 = [digitOf 0] := digitValues_of_lt (by decide)
  refine ⟨rfl, ?_, by simp [Decimal.isWord, hds], by omega⟩
  rw [Decimal.significand_eq (t := ofDigitValues ds)]
  · simp
  · dsimp only
    rw [zero, ← List.append_assoc, ofDigitValues_append, List.singleton_append, ← List.replicate_succ,
      ofDigitValues_replicate_zero, Nat.zero_mul, Nat.zero_add]
  · simp only [wordBound]
    omega

/-- Digits `d :: ws` before the point and `fs` behind it. -/
private theorem reads_point (negative : Bool) (hd : d ≠ 0) (ws fs : List (Fin 10)) (exponent : Option ℤ)
    (hp : fs ≠ [] ∨ exponent ≠ none) (hl : (d :: ws ++ fs).length ≤ 14) :
    Reads ⟨negative, ofDigitValues (d :: ws), fs, exponent⟩ negative (ofDigitValues (d :: ws ++ fs))
      (exponent.getD 0 - fs.length) := by
  have bound : ofDigitValues (d :: ws ++ fs) < 10 ^ 14 := ofDigitValues_lt_of_length hl
  refine ⟨rfl, ?_, ?_, bound⟩
  · rw [Decimal.significand_eq (t := ofDigitValues (d :: ws ++ fs))]
    · rw [digitValues_ofDigitValues hd]
    · simp only [wordBound]
      omega
  · cases exponent <;> cases fs <;> simp_all [Decimal.isWord]

private theorem ofDigitValues_append_zeros (n : Nat) :
    ofDigitValues (ds ++ List.replicate n (digitOf 0)) = ofDigitValues ds * 10 ^ n := by
  rw [ofDigitValues_append, ofDigitValues_replicate_zero, List.length_replicate, Nat.add_zero]

/-- What a laid out number is read as: its digits, with `p` zeros behind them. Zeros are added only when
the number is written out. -/
theorem layOut_reads (negative : Bool) (hd : d ≠ 0) (hl : ds.length ≤ 9) (e : ℤ) :
    ∃ p : Nat, Reads (layOut negative (d :: ds) e) negative (ofDigitValues (d :: ds) * 10 ^ p)
        (e - ds.length - p) ∧ (p = 0 ∨ e - ds.length - p = -1) := by
  unfold layOut
  split
  next plain =>
    split
    next below =>
      have reads := reads_below_one negative (-e - 1).toNat (by rw [List.length_cons]; omega)
        (List.cons_ne_nil d ds)
      have power : -(((-e - 1).toNat + (d :: ds).length : Nat) : ℤ) = e - ds.length - (0 : Nat) := by
        rw [List.length_cons]
        omega
      rw [power, ← Nat.mul_one (ofDigitValues (d :: ds))] at reads
      exact ⟨0, reads, .inl rfl⟩
    next notBelow =>
      obtain ⟨n, rfl⟩ : ∃ n : Nat, e = n := ⟨e.toNat, by omega⟩
      simp only [Int.toNat_natCast, List.take_succ_cons, List.drop_succ_cons, List.length_cons,
        Nat.add_sub_add_right, List.cons_append]
      by_cases hn : ds.length ≤ n
      · -- all digits stand before the point
        rw [List.drop_eq_nil_of_le hn, List.take_of_length_le hn, List.isEmpty_nil, if_pos rfl]
        have reads := reads_point negative hd (ds ++ List.replicate (n - ds.length) (digitOf 0))
          [digitOf 0] none (.inl (List.cons_ne_nil _ _)) (by simp; omega)
        have zeros : d :: (ds ++ List.replicate (n - ds.length) (digitOf 0)) ++ [digitOf 0] =
            d :: ds ++ List.replicate (n - ds.length + 1) (digitOf 0) := by
          rw [List.replicate_succ', List.cons_append, List.append_assoc, List.cons_append]
        have power : (none : Option ℤ).getD 0 - ([digitOf 0].length : Nat) =
            (n : ℤ) - ds.length - (n - ds.length + 1 : Nat) := by
          simp only [Option.getD_none, List.length_singleton]
          omega
        rw [zeros, ofDigitValues_append_zeros, power] at reads
        exact ⟨n - ds.length + 1, reads, .inr (by omega)⟩
      · -- some digits stand behind the point
        have behind : ds.drop n ≠ [] := by
          rw [ne_eq, List.drop_eq_nil_iff]
          exact hn
        rw [if_neg (by simpa using hn), show n - ds.length = 0 by omega, List.replicate_zero,
          List.append_nil]
        have reads := reads_point negative hd (ds.take n) (ds.drop n) none (.inl behind)
          (by simp only [List.cons_append, List.take_append_drop, List.length_cons]; omega)
        have power : (none : Option ℤ).getD 0 - ((ds.drop n).length : Nat) =
            (n : ℤ) - ds.length - (0 : Nat) := by
          simp only [Option.getD_none, List.length_drop]
          omega
        rw [List.cons_append, List.take_append_drop, power,
          ← Nat.mul_one (ofDigitValues (d :: ds))] at reads
        exact ⟨0, reads, .inl rfl⟩
  next scientific =>
    have reads := reads_point negative hd [] ds (some e) (.inr (Option.some_ne_none e))
      (by simp only [List.cons_append, List.nil_append, List.length_cons]; omega)
    have power : (some e).getD 0 - (ds.length : Nat) = e - ds.length - (0 : Nat) := by simp
    rw [List.cons_append, List.nil_append, power, ← Nat.mul_one (ofDigitValues (d :: ds))] at reads
    exact ⟨0, reads, .inl rfl⟩

/-- The digits of a grid point are those of its count without the zeros at the end. -/
theorem significant_spec {g : Grid} (hg : g.count ≠ 0) :
    ∃ d ds z, d ≠ 0 ∧ significant g = (d :: ds, g.exponent + ds.length + (z : Nat)) ∧
      digitValues g.count = d :: ds ++ List.replicate z (digitOf 0) := by
  obtain ⟨d, rest, hd, all⟩ := exists_digitValues_eq_cons hg
  set zeros := (digitValues g.count).reverse.takeWhile (· == digitOf 0) with hz
  set front := ((digitValues g.count).reverse.dropWhile (· == digitOf 0)).reverse with hf
  have zeros_eq : zeros = List.replicate zeros.length (digitOf 0) :=
    List.eq_replicate_iff.2 ⟨rfl, fun x hx => by simpa using List.mem_takeWhile_imp hx⟩
  have split : digitValues g.count = front ++ List.replicate zeros.length (digitOf 0) := by
    rw [← List.reverse_replicate, ← zeros_eq, hf, hz, ← List.reverse_append,
      List.takeWhile_append_dropWhile, List.reverse_reverse]
  cases front_eq : front with
  | nil =>
    rw [front_eq, List.nil_append, all] at split
    exact absurd (List.eq_of_mem_replicate (split ▸ List.mem_cons_self)) hd
  | cons d' ds =>
    rw [front_eq] at split
    obtain ⟨rfl, -⟩ := List.cons.inj (all.symm.trans split)
    refine ⟨d, ds, zeros.length, hd, ?_, split⟩
    rw [significant, ← hf, front_eq, split, List.length_append, List.length_replicate, List.length_cons]
    congr 1
    omega

/-- A grid point keeps its digits when zeros are put behind its count. -/
theorem significant_mul_pow {n : Nat} (hn : n ≠ 0) (e : ℤ) (j : Nat) :
    significant ⟨n * 10 ^ j, e - j⟩ = significant ⟨n, e⟩ := by
  induction j with
  | zero => simp
  | succ j ih =>
    have ne : n * 10 ^ j ≠ 0 := Nat.mul_ne_zero hn (Nat.pow_pos (by decide)).ne'
    have digits : digitValues (n * 10 ^ (j + 1)) = digitValues (n * 10 ^ j) ++ [digitOf 0] := by
      rw [Nat.pow_succ, ← Nat.mul_assoc, ← digitValues_mul_ten_add ne]
      rfl
    have pos : digitValues (n * 10 ^ j) ≠ [] := by
      obtain ⟨d, ds, -, eq⟩ := exists_digitValues_eq_cons ne
      rw [eq]
      exact List.cons_ne_nil d ds
    have length := List.length_pos_of_ne_nil pos
    rw [← ih, significant, significant, digits]
    simp only [List.reverse_append, List.reverse_singleton, List.singleton_append, List.dropWhile_cons,
      beq_self_eq_true, if_true, List.length_append, List.length_singleton, Prod.mk.injEq, true_and]
    omega

/-- A grid point is read as a product that is its value. The power of ten is that of the grid, raised by
the zeros at the end of the count, unless the number is written out. -/
theorem Grid.decimal_reads {g : Grid} (hg : g.count ≠ 0) (hc : g.count < 10000000000)
    (negative : Bool) :
    ∃ t power, Reads (g.decimal negative) negative t power ∧ t ≠ 0 ∧ (t : ℚ) * 10 ^ power = g.value ∧
      (power = -1 ∨ ∃ z : Nat, 10 ^ z ≤ g.count ∧ power = g.exponent + z) := by
  obtain ⟨d, ds, z, hd, eq, all⟩ := significant_spec hg
  have count : g.count = ofDigitValues (d :: ds) * 10 ^ z := by
    rw [← ofDigitValues_append_zeros, ← all, ofDigitValues_digitValues]
  have length : ds.length + z ≤ 9 := by
    have total : (digits g.count).length = ds.length + z + 1 := by
      rw [← length_digitValues, all, List.length_append, List.length_replicate, List.length_cons]
      omega
    have least := ((length_digits_eq_iff hg _).1 total).1
    have := (Nat.pow_lt_pow_iff_right (by decide : 1 < 10)).1 (Nat.lt_of_le_of_lt least hc : _ < 10 ^ 10)
    omega
  have ne : ofDigitValues (d :: ds) ≠ 0 := fun h => hg (by rw [count, h, Nat.zero_mul])
  obtain ⟨p, reads, power⟩ := layOut_reads negative hd (show ds.length ≤ 9 by omega)
    (g.exponent + ds.length + (z : Nat))
  refine ⟨_, _, by rw [Grid.decimal, eq]; exact reads, ?_, ?_, ?_⟩
  · exact Nat.mul_ne_zero ne (Nat.pow_pos (by decide) : 0 < 10 ^ p).ne'
  · have ten : (10 : ℚ) ≠ 0 := by norm_num
    rw [Grid.value, count]
    push_cast
    rw [show g.exponent + ds.length + z - ds.length - p = g.exponent + z - p by ring,
      zpow_sub₀ ten, zpow_add₀ ten, zpow_natCast, zpow_natCast]
    field_simp
  · rcases power with rfl | power
    · refine .inr ⟨z, ?_, by omega⟩
      rw [count]
      exact Nat.le_mul_of_pos_left _ (Nat.pos_of_ne_zero ne)
    · exact .inl power

end Shortest
end PipelineEditor.Number
