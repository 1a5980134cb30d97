import Mathlib.Algebra.Order.Field.Basic
import Mathlib.Data.Rat.Cast.Order
import Mathlib.Tactic.Linarith
import Mathlib.Tactic.Ring

/-! Fractions next to each other. Between two of them there is no fraction whose denominator is small,
so a short row of them tells which fractions with a small denominator lie around a number. -/
namespace PipelineEditor.Number

/-- A fraction, not necessarily in lowest terms. -/
structure Fraction where
  num : Nat
  den : Nat
deriving DecidableEq, Repr

namespace Fraction

/-- The rational number that a fraction is. -/
def value (f : Fraction) : ℚ :=
  f.num / f.den

/-- Neither fraction is more than the other. -/
def Same (f g : Fraction) : Prop :=
  f.num * g.den = g.num * f.den

/-- The first fraction is not more than the second. -/
def Le (f g : Fraction) : Prop :=
  f.num * g.den ≤ g.num * f.den

instance (f g : Fraction) : Decidable (Same f g) :=
  inferInstanceAs (Decidable (_ = _))

instance (f g : Fraction) : Decidable (Le f g) :=
  inferInstanceAs (Decidable (_ ≤ _))

/-- The second fraction follows the first, with none between them whose denominator is at most
`bound`. -/
structure Adjacent (bound : Nat) (f g : Fraction) : Prop where
  determinant : g.num * f.den = f.num * g.den + 1
  large : bound < f.den + g.den

instance (bound : Nat) (f g : Fraction) : Decidable (Adjacent bound f g) :=
  decidable_of_iff (g.num * f.den = f.num * g.den + 1 ∧ bound < f.den + g.den)
    ⟨fun h => ⟨h.1, h.2⟩, fun h => ⟨h.determinant, h.large⟩⟩

variable {bound : Nat} {f g h : Fraction}

theorem same_iff (hf : 0 < f.den) (hg : 0 < g.den) : f.Same g ↔ f.value = g.value := by
  have hf' : (f.den : ℚ) ≠ 0 := by exact_mod_cast hf.ne'
  have hg' : (g.den : ℚ) ≠ 0 := by exact_mod_cast hg.ne'
  rw [value, value, div_eq_div_iff hf' hg']
  exact_mod_cast Iff.rfl

theorem le_iff (hf : 0 < f.den) (hg : 0 < g.den) : f.Le g ↔ f.value ≤ g.value := by
  have hf' : (0 : ℚ) < f.den := by exact_mod_cast hf
  have hg' : (0 : ℚ) < g.den := by exact_mod_cast hg
  rw [value, value, div_le_div_iff₀ hf' hg']
  exact_mod_cast Iff.rfl

theorem Adjacent.le_or_le (hfg : Adjacent bound f g) (hh : h.den ≤ bound) : h.Le f ∨ g.Le h := by
  refine Decidable.or_iff_not_imp_left.2 fun above => Decidable.byContradiction fun below => ?_
  simp only [Le, Nat.not_le] at above below
  have large := hfg.large
  -- each of the two gaps counts for one denominator at least
  have left : g.den * (f.num * h.den + 1) ≤ g.den * (h.num * f.den) := Nat.mul_le_mul_left _ above
  have right : f.den * (h.num * g.den + 1) ≤ f.den * (g.num * h.den) := Nat.mul_le_mul_left _ below
  have whole : h.den * (g.num * f.den) = h.den * (f.num * g.den) + h.den := by
    rw [hfg.determinant]
    ring
  linarith

/-- A fraction with a small denominator lies before a row of adjacent ones, or it is one of them, or it
lies behind. -/
theorem le_or_same_or_ge {l : List Fraction} (hl : (f :: l).IsChain (Adjacent bound))
    (hh : h.den ≤ bound) :
    h.Le f ∨ (∃ g ∈ l, h.Same g) ∨ ((f :: l).getLast (List.cons_ne_nil f l)).Le h := by
  induction l generalizing f with
  | nil => exact (Nat.le_total (h.num * f.den) (f.num * h.den)).imp_right .inr
  | cons g l ih =>
    obtain ⟨hfg, hl⟩ := List.isChain_cons_cons.1 hl
    rcases hfg.le_or_le hh with below | above
    · exact .inl below
    · right
      rcases ih hl with upto | ⟨g', hg', same⟩ | behind
      · exact .inl ⟨g, List.mem_cons_self, Nat.le_antisymm upto above⟩
      · exact .inl ⟨g', List.mem_cons_of_mem _ hg', same⟩
      · exact .inr behind

/-- The fraction before `f`, when `g` follows it. -/
def before (bound : Nat) (f g : Fraction) : Fraction :=
  let j := (bound + g.den) / f.den
  ⟨j * f.num - g.num, j * f.den - g.den⟩

/-- The fraction after `g`, when it follows `f`. -/
def after (bound : Nat) (f g : Fraction) : Fraction :=
  let j := (bound + f.den) / g.den
  ⟨j * g.num - f.num, j * g.den - f.den⟩

/-- The adjacent fractions around a number, from two that have it between them. In each round the lower
one comes up as far as it can, then the upper one comes down. -/
def narrow (bound : Nat) (a : Fraction) : Nat → Fraction → Fraction → Fraction × Fraction
  | 0, f, g => (f, g)
  | rounds + 1, f, g =>
    if bound < f.den + g.den then (f, g)
    else
      let up := min ((a.num * f.den - f.num * a.den) / (g.num * a.den - a.num * g.den))
        ((bound - f.den) / g.den)
      let f : Fraction := ⟨f.num + up * g.num, f.den + up * g.den⟩
      let rest := a.num * f.den - f.num * a.den
      let room := (bound - g.den) / f.den
      let down := if rest = 0 then room else min ((g.num * a.den - a.num * g.den - 1) / rest) room
      narrow bound a rounds f ⟨g.num + down * f.num, g.den + down * f.den⟩

/-- Puts fractions before `f` until one satisfies `stop`. -/
def extendDown (bound : Nat) (stop : Fraction → Bool) :
    Nat → Fraction → Fraction → List Fraction → List Fraction
  | 0, _, _, l => l
  | n + 1, f, g, l =>
    if stop f then l
    else
      let e := before bound f g
      extendDown bound stop n e f (e :: l)

/-- The fractions after `g`, until one satisfies `stop`. -/
def extendUp (bound : Nat) (stop : Fraction → Bool) : Nat → Fraction → Fraction → List Fraction
  | 0, _, _ => []
  | n + 1, f, g =>
    if stop g then []
    else
      let h := after bound f g
      h :: extendUp bound stop n g h

/-- A row of adjacent fractions around a number, up to the first on each side that satisfies `stop`. -/
def around (bound : Nat) (stop : Fraction → Bool) (a : Fraction) : List Fraction :=
  let first := a.num / a.den
  let (f, g) := narrow bound a 40 ⟨first, 1⟩ ⟨first + 1, 1⟩
  extendDown bound stop 20 f g (f :: g :: extendUp bound stop 20 f g)

example : around 7 (fun f => f.den ≤ 3) ⟨2, 7⟩ = [⟨0, 1⟩, ⟨1, 7⟩, ⟨1, 6⟩, ⟨1, 5⟩, ⟨1, 4⟩, ⟨2, 7⟩, ⟨1, 3⟩] := by
  decide +kernel

end Fraction
end PipelineEditor.Number
