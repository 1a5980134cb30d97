/-! Integers of 64 bits. -/
namespace PipelineEditor.Number

/-- The unsigned 64-bit integers lie below it. -/
def wordBound : Nat := 18446744073709551616

/-- The 64-bit signed integer of a value, if it is in range. -/
def int64? (i : Int) : Option Int64 :=
  if -9223372036854775808 ≤ i ∧ i ≤ 9223372036854775807 then some (Int64.ofInt i) else none

/-- The integers in range are those of some 64-bit integer. -/
theorem int64?_eq_some_iff {i : Int} {n : Int64} : int64? i = some n ↔ n.toInt = i := by
  unfold int64?
  constructor
  · intro h
    split at h
    next hi =>
      cases h
      exact Int64.toInt_ofInt_of_le hi.1 (by omega)
    next => cases h
  · rintro rfl
    have hl := Int64.le_toInt n
    have hu := Int64.toInt_lt n
    rw [if_pos ⟨by omega, by omega⟩, Int64.ofInt_toInt]

end PipelineEditor.Number
