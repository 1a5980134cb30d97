import PipelineEditor.Number.Binary
import PipelineEditor.Text.Decimal

/-! The 32-bit floating-point numbers without NaN, by sign and rank. The rank counts the
non-negative numbers from zero upwards, so equal numbers have equal representations. -/
namespace PipelineEditor.Number

/-- A 32-bit number. Rank 0 is zero and the highest rank is infinity. -/
structure Single where
  negative : Bool
  rank : Nat
  rank_le : rank ≤ 2139095040 := by omega
deriving DecidableEq, Repr

namespace Single

/-- How many numbers have one exponent: significands have 23 bits behind the first. -/
def binade : Nat := 8388608

/-- The rank of infinity: 255 exponents lie below it. -/
def infinityRank : Nat := 2139095040

def zero : Single := ⟨false, 0, by omega⟩

def isInfinite (x : Single) : Bool :=
  x.rank == infinityRank

/-- The number nearest to `num / den`, with the given sign; infinity when that lies beyond the
format. -/
def nearest (negative : Bool) (num den : Nat) : Single :=
  let b := Format.single.round num den
  ⟨negative, min ((b.exponent + 149).toNat * binade + b.significand) infinityRank, Nat.min_le_right _ _⟩

/-- The magnitude of a finite number. -/
def magnitude (x : Single) : Binary :=
  let e : Nat := x.rank / binade
  if e = 0 then ⟨x.rank, -149⟩ else ⟨binade + x.rank % binade, (e : Int) - 150⟩

/-- The nearest number to a natural number. -/
def ofNat (n : Nat) : Single :=
  nearest false n 1

example : (ofNat 200).rank = 1128792064 := by decide +kernel
example : (ofNat 200).magnitude = ⟨13107200, -16⟩ := by decide +kernel

end Single
end PipelineEditor.Number
