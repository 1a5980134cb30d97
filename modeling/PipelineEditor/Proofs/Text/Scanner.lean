import PipelineEditor.Proofs.Text.Digits
import PipelineEditor.Text.Scanner

/-! What scanners take off the front of a text. Scanners in a row are run one at a time. -/
namespace PipelineEditor.Text

theorem isBlank_of_isDigit {c : Char} (h : isDigit c = true) : isBlank c = false := by
  have ascii : ∀ n < 58, isDigit (Char.ofNat n) = true → isBlank (Char.ofNat n) = false := by decide
  have small : c.toNat < 58 := by
    simp only [isDigit, Bool.and_eq_true, decide_eq_true_eq] at h
    exact Nat.lt_succ_of_le h.2
  rw [← Char.ofNat_toNat c] at h ⊢
  exact ascii c.toNat small h

namespace Scanner

variable {α β : Type}

/-- What a scanner takes off a text is out of the way of the scanner behind it. -/
theorem run_bind_of {x : Scanner α} {f : α → Scanner β} {s t : List Char} {a : α}
    (h : x.run s = some (a, t)) : (x >>= f).run s = (f a).run t := by
  rw [StateT.run_bind, h]
  rfl

theorem run_get (s : List Char) : (get : Scanner (List Char)).run s = some (s, s) :=
  rfl

theorem run_set (s t : List Char) : (set t : Scanner PUnit).run s = some (⟨⟩, t) :=
  rfl

theorem run_blanks {s : List Char} (h : s.head?.any isBlank = false) :
    blanks.run s = some ((), s) := by
  have kept : s.dropWhile isBlank = s := by
    cases s with
    | nil => rfl
    | cons c s => rw [List.dropWhile_cons_of_neg (by simpa using h)]
  exact congrArg (fun t => some ((), t)) kept

theorem run_oneOf {p : Char → Bool} {c : Char} (h : p c = true) (s : List Char) :
    (oneOf p).run (c :: s) = some (c, s) := by
  rw [oneOf, run_bind_of (run_get _)]
  simp only [h, if_true]
  rfl

theorem run_char (c : Char) (s : List Char) : (char c).run (c :: s) = some ((), s) := by
  have here : (oneOf fun x => x == c).run (c :: s) = some (c, s) := run_oneOf (beq_self_eq_true c) s
  rw [char, run_bind_of here]
  rfl

/-- Digits are taken up to the limit, or to the end of the run. -/
theorem run_digitsUpTo {limit : Nat} {ds rest : List Char}
    (hd : ∀ c ∈ ds, isDigit c = true) (hn : ds ≠ []) (hl : ds.length ≤ limit)
    (stop : ds.length = limit ∨ startsWithDigit rest = false) :
    (digitsUpTo limit).run (ds ++ rest) = some (ds, rest) := by
  have taken : ((ds ++ rest).take limit).takeWhile isDigit = ds := by
    rcases stop with rfl | stop
    · rw [List.take_left, ← List.append_nil ds, List.takeWhile_append_of_pos hd]
      rfl
    · have last : (rest.take (limit - ds.length)).takeWhile isDigit = [] := by
        cases rest with
        | nil => simp
        | cons c cs =>
          have hc : isDigit c = false := by simpa [startsWithDigit] using stop
          cases limit - ds.length <;> simp [hc]
      rw [List.take_append, List.take_of_length_le hl, List.takeWhile_append_of_pos hd, last,
        List.append_nil]
  have nonempty : ds.isEmpty = false := by simpa using hn
  rw [digitsUpTo, run_bind_of (run_get _)]
  simp only [taken, nonempty, Bool.false_eq_true, if_false]
  change some (ds, (ds ++ rest).drop ds.length) = _
  rw [List.drop_left]

end Scanner
end PipelineEditor.Text
