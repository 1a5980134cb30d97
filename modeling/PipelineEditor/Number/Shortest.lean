import PipelineEditor.Number.Decimal

/-! The fewest decimal digits that stand for a 32-bit number, and how they are laid out. -/
namespace PipelineEditor.Number
namespace Shortest

/-- The numbers that round to a given one, as multiples of `unit`: those between `low` and `high`,
with both ends when `closed`. -/
structure Interval where
  low : Nat
  middle : Nat
  high : Nat
  closed : Bool
  unit : Binary

/-- The neighbourhood of a finite number reaches halfway to the numbers beside it. Below a power of
two the numbers lie twice as close. -/
def interval (b : Binary) : Interval :=
  let m := b.significand
  let below := if m = Single.binade ∧ -149 < b.exponent then 1 else 2
  ⟨4 * m - below, 4 * m, 4 * m + 2, m % 2 == 0, ⟨1, b.exponent - 2⟩⟩

/-- The decimal exponent of the first digit of a positive number of the 32-bit range. -/
def firstExponent (num den : Nat) : Int :=
  (Text.digits (num * Nat.pow 10 46 / den)).length - 47

/-- A point of a decimal grid: a count times ten to the exponent. -/
structure Grid where
  count : Nat
  exponent : Int
deriving DecidableEq, Repr

/-- Both sides of a comparison between a grid point and `x` units, without fractions. -/
def scale (i : Interval) (exponent : Int) (count x : Nat) : Nat × Nat :=
  (count * Nat.pow 10 exponent.toNat * i.unit.den, x * i.unit.num * Nat.pow 10 (-exponent).toNat)

/-- Whether a point of a decimal grid rounds to the number. -/
def Interval.holds (i : Interval) (g : Grid) : Bool :=
  let (p, low) := scale i g.exponent g.count i.low
  let (_, high) := scale i g.exponent g.count i.high
  if i.closed then low ≤ p && p ≤ high else low < p && p < high

/-- The point with `n` digits that stands for the number: of the two grid points around it the
nearer one that rounds to it, and the even one if both are equally near. -/
def onGrid (i : Interval) (first : Int) (n : Nat) : Option Grid :=
  let exponent := first - n + 1
  let (one, middle) := scale i exponent 1 i.middle
  let below := middle / one
  let down : Grid := ⟨below, exponent⟩
  let up : Grid := ⟨below + 1, exponent⟩
  let rest := 2 * (middle % one)
  let (near, far) :=
    if rest < one ∨ (rest = one ∧ below % 2 = 0) then (down, up) else (up, down)
  if i.holds near then some near else if i.holds far then some far else none

/-- Nine digits tell all 32-bit numbers apart, so one of the grids has a point. -/
def grid (b : Binary) : Grid :=
  let i := interval b
  let first := firstExponent b.num b.den
  ((List.range 9).findSome? fun n => onGrid i first (n + 1)).getD ⟨0, 0⟩

/-- The digits of a grid point without trailing zeros, and the decimal exponent of the first. -/
def significant (g : Grid) : List (Fin 10) × Int :=
  let all := Text.digitValues g.count
  ((all.reverse.dropWhile (· == Text.digitOf 0)).reverse, g.exponent + (all.length - 1 : Nat))

/-- Exponents from -6 to 12 are written out, with at least one digit after the point; all others
as a power of ten, with one digit before the point. -/
def layOut (negative : Bool) (ds : List (Fin 10)) (exponent : Int) : Decimal :=
  if -6 ≤ exponent ∧ exponent ≤ 12 then
    if exponent < 0 then ⟨negative, 0, List.replicate (-exponent - 1).toNat (Text.digitOf 0) ++ ds, none⟩
    else
      let places := exponent.toNat + 1
      let whole := ds.take places ++ List.replicate (places - ds.length) (Text.digitOf 0)
      let fraction := ds.drop places
      ⟨negative, Text.ofDigitValues whole, if fraction.isEmpty then [Text.digitOf 0] else fraction, none⟩
  else ⟨negative, Text.ofDigitValues (ds.take 1), ds.drop 1, some exponent⟩

end Shortest

/-- The decimal that a finite number is written as; infinity has none. -/
def Single.toDecimal? (x : Single) : Option Decimal :=
  if x.isInfinite then none
  else if x.rank = 0 then some ⟨x.negative, 0, [Text.digitOf 0], none⟩
  else
    let (ds, e) := Shortest.significant (Shortest.grid x.magnitude)
    some (Shortest.layOut x.negative ds e)

end PipelineEditor.Number
