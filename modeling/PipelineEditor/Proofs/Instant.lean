import PipelineEditor.Instant
import PipelineEditor.Proofs.Text.Scanner

/-! Texts of instants. The text of an instant that the calendar and the clock have is read back as
that instant. -/
namespace PipelineEditor.Instant

open Text Text.Scanner

private theorem isDigit_of_mem_padded {width n : Nat} {c : Char} (h : c ∈ padded width n) :
    isDigit c = true := by
  rcases List.mem_append.1 h with h | h
  · rw [List.eq_of_mem_replicate h]
    rfl
  · exact isDigit_of_mem_digits h

private theorem ofDigits_padded (width n : Nat) : ofDigits (padded width n) = n := by
  have zeros (k : Nat) : Nat.ofDigitChars 10 (List.replicate k '0') 0 = 0 := by
    induction k with
    | zero => rfl
    | succ k ih => rw [List.replicate_succ, Nat.ofDigitChars_cons]; exact ih
  rw [padded, ofDigits, Nat.ofDigitChars_append, zeros]
  exact ofDigits_digits n

private theorem padded_cons (width n : Nat) :
    ∃ c cs, padded width n = c :: cs ∧ isDigit c = true := by
  cases hp : padded width n with
  | nil => exact absurd hp (List.append_ne_nil_of_right_ne_nil _ (digits_ne_nil n))
  | cons c cs => exact ⟨c, cs, rfl, isDigit_of_mem_padded (hp ▸ List.mem_cons_self)⟩

/-- A number that has room is written with exactly as many digits as are asked for. -/
private theorem padded_length {width n : Nat} (hw : 0 < width) (hn : n < Nat.pow 10 width) :
    (padded width n).length = width := by
  have fits : (digits n).length ≤ width := (Nat.length_toDigits_le_iff (by decide) hw).2 hn
  rw [padded, List.length_append, List.length_replicate]
  omega

private theorem padded_not_blank (width n : Nat) (rest : List Char) :
    (padded width n ++ rest).head?.any isBlank = false := by
  obtain ⟨c, cs, hp, hc⟩ := padded_cons width n
  simpa [hp] using isBlank_of_isDigit hc

/-- The digits of a number are taken and stand for the number. -/
private theorem run_padded {limit width n : Nat} (hl : (padded width n).length ≤ limit)
    {rest : List Char} (stop : (padded width n).length = limit ∨ startsWithDigit rest = false) :
    (digitsUpTo limit).run (padded width n ++ rest) = some (padded width n, rest) := by
  refine run_digitsUpTo (fun _ => isDigit_of_mem_padded) ?_ hl stop
  obtain ⟨c, cs, hp, -⟩ := padded_cons width n
  simp [hp]

private theorem run_pair {n : Nat} (hn : n < 100) (rest : List Char) :
    pair.run (padded 2 n ++ rest) = some (n, rest) := by
  have two : (padded 2 n).length = 2 := padded_length (by decide) hn
  rw [pair, run_bind_of (run_blanks (padded_not_blank 2 n rest)), StateT.run_map,
    run_padded (Nat.le_of_eq two) (.inl two)]
  exact congrArg (fun n => some (n, rest)) (ofDigits_padded 2 n)

private theorem run_year (y : Int) (rest : List Char) :
    year.run (yearText y ++ '-' :: rest) = some (y, '-' :: rest) := by
  have value : ofDigits (padded 4 y.natAbs) = y.natAbs := ofDigits_padded 4 _
  have whole : (digitsUpTo (padded 4 y.natAbs ++ '-' :: rest).length).run
      (padded 4 y.natAbs ++ '-' :: rest) = some (padded 4 y.natAbs, '-' :: rest) :=
    run_padded (by simp) (.inr rfl)
  by_cases plain : 0 ≤ y ∧ y ≤ 9999
  · have small : y.natAbs < 10000 := by omega
    have four : (padded 4 y.natAbs).length = 4 := padded_length (by decide) small
    have taken : (digitsUpTo 4).run (padded 4 y.natAbs ++ '-' :: rest) =
        some (padded 4 y.natAbs, '-' :: rest) := run_padded (Nat.le_of_eq four) (.inl four)
    have abs : (y.natAbs : Int) = y := by omega
    obtain ⟨c, cs, hp, hc⟩ := padded_cons 4 y.natAbs
    rw [year, yearText, if_pos plain, run_bind_of (run_blanks (padded_not_blank 4 _ _))]
    rw [hp, List.cons_append] at taken ⊢
    rw [run_bind_of (run_get _)]
    split
    next he =>
      obtain ⟨rfl, -⟩ := List.cons.inj he
      cases hc
    next he =>
      obtain ⟨rfl, -⟩ := List.cons.inj he
      cases hc
    next =>
      rw [run_bind_of taken, ← hp, value, abs]
      rfl
  · rw [year, yearText, if_neg plain]
    by_cases negative : y < 0
    · have abs : -(y.natAbs : Int) = y := by omega
      rw [if_pos negative, run_bind_of (run_blanks rfl), run_bind_of (run_get _)]
      simp only [List.cons_append]
      rw [run_bind_of (run_set _ _), run_bind_of whole, value, abs]
      rfl
    · have abs : (y.natAbs : Int) = y := by omega
      rw [if_neg negative, run_bind_of (run_blanks rfl), run_bind_of (run_get _)]
      simp only [List.cons_append]
      rw [run_bind_of (run_set _ _), run_bind_of whole, value, abs]
      rfl

private theorem run_fraction_padded {places n m : Nat} (hp : 0 < places) (h9 : places ≤ 9)
    (hn : n < Nat.pow 10 places) (hm : n * Nat.pow 10 (9 - places) = m) (rest : List Char) :
    fraction.run ('.' :: padded places n ++ 'Z' :: rest) = some (m, 'Z' :: rest) := by
  have length : (padded places n).length = places := padded_length hp hn
  have taken : (digitsUpTo (padded places n ++ 'Z' :: rest).length).run
      (padded places n ++ 'Z' :: rest) = some (padded places n, 'Z' :: rest) :=
    run_padded (by simp) (.inr rfl)
  have kept : (padded places n).take 9 = padded places n := List.take_of_length_le (by omega)
  rw [fraction, run_bind_of (run_get _)]
  simp only [List.cons_append]
  rw [run_bind_of (run_set _ _), run_bind_of taken]
  simp only [kept, length, ofDigits_padded, hm]
  rfl

private theorem run_fraction {n : Nat} (hn : n < 1000000000) (rest : List Char) :
    fraction.run (fractionText n ++ 'Z' :: rest) = some (n, 'Z' :: rest) := by
  unfold fractionText
  split
  next h =>
    subst h
    rfl
  next =>
    split
    next h =>
      have small : n / 1000000 < 1000 := by omega
      have back : n / 1000000 * 1000000 = n := by omega
      exact run_fraction_padded (by decide) (by decide) small back rest
    next =>
      split
      next h =>
        have small : n / 1000 < 1000000 := by omega
        have back : n / 1000 * 1000 = n := by omega
        exact run_fraction_padded (by decide) (by decide) small back rest
      next => exact run_fraction_padded (by decide) (by decide) hn (Nat.mul_one n) rest

/-- The instants that the calendar and the clock have. -/
structure Valid (t : Instant) : Prop where
  date : Date.of? t.date.year t.date.month t.date.day = some t.date
  minute : t.minute < dayMinutes
  second : t.second ≤ 60
  nanosecond : t.nanosecond < 1000000000

private theorem bounds_of_date {year : Int} {month day : Nat} {d : Date}
    (h : Date.of? year month day = some d) :
    Date.inRange year = true ∧ month < 100 ∧ day < 100 := by
  unfold Date.of? at h
  split at h
  next hc =>
    have longest : Date.monthLength year month ≤ 31 := by
      unfold Date.monthLength
      split
      · split <;> decide
      · split <;> decide
    exact ⟨hc.1, by omega, by omega⟩
  · cases h

/-- A clock in UTC shows the instant. -/
private theorem ofLocal?_utc {t : Instant} (h : t.Valid) : ofLocal? t 0 = some t := by
  have range := (bounds_of_date h.date).1
  have before : ¬ (t.minute : Int) - 0 < 0 := by omega
  have after : ¬ (dayMinutes : Int) ≤ (t.minute : Int) - 0 := by
    have := h.minute
    omega
  have minute : ((t.minute : Int) - 0).toNat = t.minute := by omega
  unfold ofLocal?
  simp only [before, after, minute, if_false]
  exact if_pos ⟨by decide, range⟩

/-- The text of an instant is read as that instant. -/
theorem parse?_text {t : Instant} (h : t.Valid) : parse? t.text = some t := by
  obtain ⟨-, month, day⟩ := bounds_of_date h.date
  have hour : t.minute / 60 < 24 := by
    have := h.minute
    unfold dayMinutes at this
    omega
  have minute : t.minute % 60 < 60 := Nat.mod_lt _ (by decide)
  have clock : t.minute / 60 * 60 + t.minute % 60 = t.minute := Nat.div_add_mod' _ _
  have form : t.text.toList = yearText t.date.year ++ '-' :: (padded 2 t.date.month ++
      '-' :: (padded 2 t.date.day ++ 'T' :: (padded 2 (t.minute / 60) ++
      ':' :: (padded 2 (t.minute % 60) ++ ':' :: (padded 2 t.second ++
      (fractionText t.nanosecond ++ ['Z'])))))) := by
    rw [text, String.toList_ofList]
    simp only [List.append_assoc, List.cons_append]
  have read : dateTime.run t.text.toList = some (t, []) := by
    rw [form, dateTime, run_bind_of (run_year _ _), run_bind_of (run_blanks rfl),
      run_bind_of (run_char _ _), run_bind_of (run_pair month _), run_bind_of (run_blanks rfl),
      run_bind_of (run_char _ _), run_bind_of (run_pair day _), run_bind_of (run_oneOf rfl _),
      run_bind_of (run_pair (by omega) _), run_bind_of (run_blanks rfl),
      run_bind_of (run_char _ _), run_bind_of (run_pair (by omega) _), run_bind_of (run_blanks rfl),
      run_bind_of (run_char _ _),
      run_bind_of (run_pair (Nat.lt_of_le_of_lt h.second (by decide)) _),
      run_bind_of (run_fraction h.nanosecond []), run_bind_of (run_blanks rfl),
      run_bind_of (a := 0) (t := []) rfl, run_bind_of (run_blanks rfl), h.date, clock]
    have known : ((t.minute / 60 ≤ 23 : Bool) && (t.minute % 60 ≤ 59 : Bool) &&
        (t.second ≤ 60 : Bool)) = true := by
      simp [Nat.le_of_lt_succ hour, Nat.le_of_lt_succ minute, h.second]
    rw [run_bind_of (a := t.date) (t := []) rfl, known, run_bind_of (a := ⟨⟩) (t := []) rfl,
      ofLocal?_utc h]
    rfl
  rw [parse?, whole?, read]

end PipelineEditor.Instant
