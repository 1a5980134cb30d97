/-! Rounding of fractions to binary floating point: to the nearest number of the format, and to the
one with the even significand when two are equally near. Everything is exact arithmetic on `Nat`. -/
namespace PipelineEditor.Number

/-- The quotient rounded to the nearest integer, a half going to the even neighbour. -/
def roundDiv (num den : Nat) : Nat :=
  let q := num / den
  let r := num % den
  if 2 * r < den then q else if den < 2 * r then q + 1 else q + q % 2

/-- A non-negative binary number: the significand times two to the exponent. -/
structure Binary where
  significand : Nat
  exponent : Int
deriving DecidableEq, Repr

namespace Binary

/-- Numerator of the number written as a fraction over `den`. -/
def num (b : Binary) : Nat :=
  b.significand * Nat.pow 2 b.exponent.toNat

/-- Denominator belonging to `num`. -/
def den (b : Binary) : Nat :=
  Nat.pow 2 (-b.exponent).toNat

end Binary

/-- A binary format: significands of `width` bits, and no exponent below `-lowest`. The upper end of
the exponents is left to the user of the format. -/
structure Format where
  width : Nat
  lowest : Nat

namespace Format

/-- The 64-bit format. -/
def double : Format := ⟨53, 1074⟩

/-- The 32-bit format. -/
def single : Format := ⟨24, 149⟩

/-- The least exponent at which the quotient fits into `width` bits. -/
def exponentFor (f : Format) (num den : Nat) : Int :=
  let k : Int := (num.log2 : Int) - den.log2
  let small := if 0 ≤ k then num < den * Nat.pow 2 k.toNat else num * Nat.pow 2 (-k).toNat < den
  max (if small then k - f.width else k + 1 - f.width) (-f.lowest)

/-- The number of the format nearest to `num / den`. -/
def round (f : Format) (num den : Nat) : Binary :=
  let e := if num = 0 then -(f.lowest : Int) else f.exponentFor num den
  ⟨roundDiv (num * Nat.pow 2 (-e).toNat) (den * Nat.pow 2 e.toNat), e⟩

end Format

example : Format.single.round 1 3 = ⟨11184811, -25⟩ := by decide
example : Format.double.round 9007199254740993 1 = ⟨4503599627370496, 1⟩ := by decide

end PipelineEditor.Number
