import PipelineEditor.Number.Single
import PipelineEditor.Number.Word

/-! Decimal numbers as they are written, and the readings of them as integers and as 32-bit numbers. -/
namespace PipelineEditor.Number

/-- A number as written: a sign, a whole part, the digits after the point, and a power of ten. The
point is written when there are digits after it, the exponent when there is one. -/
structure Decimal where
  negative : Bool
  whole : Nat
  fraction : List (Fin 10)
  exponent : Option Int
deriving DecidableEq, Repr

namespace Decimal

/-- The decimal of a whole number. -/
def ofInt (i : Int) : Decimal :=
  ⟨i < 0, i.natAbs, [], none⟩

/-- Read as a 64-bit signed integer. A fraction, an exponent and a minus sign before zero are not
part of an integer. -/
def toInt64? (d : Decimal) : Option Int64 :=
  if d.fraction ≠ [] ∨ d.exponent ≠ none ∨ (d.negative ∧ d.whole = 0) then none
  else int64? (if d.negative then -d.whole else d.whole)

/-- Appends digits to a significand for as long as it fits into 64 bits; answers the significand and
the number of digits taken up. -/
def absorb (significand : Nat) : List (Fin 10) → Nat × Nat
  | [] => (significand, 0)
  | d :: ds =>
    if significand * 10 + d < wordBound then
      let (s, n) := absorb (significand * 10 + d) ds
      (s, n + 1)
    else (significand, 0)

/-- The significand of at most 64 bits that a number is read with, and the power of ten it is
multiplied by. Whole digits without room raise the power, later digits of the fraction are lost. -/
def significand (d : Decimal) : Nat × Int :=
  let digits := Text.digitValues d.whole
  let (s, taken) := absorb 0 digits
  let (t, places) := absorb s d.fraction
  (t, ((digits.length - taken : Nat) : Int) - places + d.exponent.getD 0)

/-- The least number that is too large for 64-bit floating point. -/
def doubleBound : Nat :=
  Nat.pow 2 1024

/-- A significand times a power of ten in 64-bit floating point: significand and power are rounded
first, then their product or quotient. `none` when the result is too large. Powers beyond 308 leave
only zero or too large a number, as far as a 32-bit reader of the result can tell. -/
def scaled (significand : Nat) (power : Int) : Option Binary :=
  let s := Format.double.round significand 1
  let p := Format.double.round (Nat.pow 10 power.natAbs) 1
  if 308 < power.natAbs then
    if significand = 0 ∨ power < 0 then some ⟨0, 0⟩ else none
  else if power < 0 then some (Format.double.round (s.num * p.den) (s.den * p.num))
  else
    let product := Format.double.round (s.num * p.num) (s.den * p.den)
    if product.num < doubleBound * product.den then some product else none

/-- Whether the number is written as an integer that fits 64 bits, signed if it has a sign. -/
def isWord (d : Decimal) : Bool :=
  d.fraction.isEmpty && d.exponent.isNone &&
    (if d.negative then 0 < d.whole && d.whole ≤ wordBound / 2 else d.whole < wordBound)

/-- Read as a 32-bit number: integers of 64 bits are rounded once, all other numbers to 64-bit
floating point first. A number beyond the 64-bit range is not read, one beyond the 32-bit range
becomes infinity. -/
def toSingle? (d : Decimal) : Option Single :=
  if d.isWord then some (Single.nearest d.negative d.whole 1)
  else
    let (s, power) := d.significand
    (scaled s power).map fun b => Single.nearest d.negative b.num b.den

end Decimal
end PipelineEditor.Number
