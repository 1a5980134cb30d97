import PipelineEditor.Proofs.Json.Grammar
import PipelineEditor.Proofs.Text.Digits

/-! Numbers are read as what they stand for, whatever follows them but more of a number. -/
namespace PipelineEditor.Json

/-- Whether a number that is read up to here goes on. -/
def continuesNumber : List Char → Bool
  | [] => false
  | c :: _ => Text.isDigit c || c = '.' || c = 'e' || c = 'E'

private theorem not_digit_of_end {rest : List Char} (h : continuesNumber rest = false) :
    Text.startsWithDigit rest = false := by
  cases rest with
  | nil => rfl
  | cons c cs =>
    simp only [continuesNumber, Bool.or_eq_false_iff] at h
    simpa [Text.startsWithDigit] using h.1.1.1

private theorem not_point_of_end {rest : List Char} (h : continuesNumber rest = false) :
    rest.head? ≠ some '.' := by
  cases rest with
  | nil => simp
  | cons c cs =>
    simp only [continuesNumber, Bool.or_eq_false_iff, decide_eq_false_iff_not] at h
    simpa using h.1.1.2

private theorem whole_digits (n : Nat) {rest : List Char}
    (h : Text.startsWithDigit rest = false) : whole? (Text.digits n ++ rest) = some (n, rest) := by
  have value : Text.ofDigits (Text.digits n) = n := Text.ofDigits_digits n
  simp only [whole?, Text.spanDigits_digits n h]
  split
  next hd => exact absurd hd (Text.digits_ne_nil n)
  next hd => rw [(Text.digits_eq_zero_cons hd).1]
  next ds hne hd => exact absurd (Text.digits_eq_zero_cons hd).2 fun h => hne (h ▸ rfl)
  next => rw [value]

private theorem fraction_fractionText (ds : List (Fin 10)) {rest : List Char}
    (hd : Text.startsWithDigit rest = false) (hp : rest.head? ≠ some '.') :
    fraction? (fractionText ds ++ rest) = some (ds, rest) := by
  cases ds with
  | nil =>
    unfold fractionText fraction?
    split
    next s h => exact absurd (congrArg List.head? h) hp
    · rfl
  | cons d ds =>
    have all : ∀ c ∈ (d :: ds).map Text.digitChar, Text.isDigit c = true := by
      intro c hc
      obtain ⟨e, -, rfl⟩ := List.mem_map.1 hc
      exact Text.isDigit_digitChar e
    have back : ((d :: ds).map Text.digitChar).map Text.digitOfChar = d :: ds := by
      rw [List.map_map]
      exact List.map_id'' Text.digitOfChar_digitChar _
    simp only [fractionText, List.cons_append, fraction?, Text.spanDigits_append all hd, back]
    rfl

private theorem exponent_digits {mark : Char} (hm : mark = 'e' ∨ mark = 'E') {s ds rest : List Char}
    {negative : Bool} (hs : sign s = (negative, ds ++ rest)) (hn : ds ≠ [])
    (hd : ∀ c ∈ ds, Text.isDigit c = true) (hr : Text.startsWithDigit rest = false) :
    exponent? (mark :: s) =
      some (some (if negative then -(Text.ofDigits ds : Int) else Text.ofDigits ds), rest) := by
  have nonempty : ds.isEmpty = false := by simpa using hn
  simp only [exponent?, if_pos hm, hs, Text.spanDigits_append hd hr, nonempty, Bool.false_eq_true,
    if_false]

private theorem sign_of_digits {ds : List Char} (hn : ds ≠ [])
    (hd : ∀ c ∈ ds, Text.isDigit c = true) (rest : List Char) :
    sign (ds ++ rest) = (false, ds ++ rest) := by
  cases ds with
  | nil => exact absurd rfl hn
  | cons c cs =>
    have hc := hd c List.mem_cons_self
    rw [List.cons_append]
    unfold sign
    split
    next h =>
      obtain ⟨rfl, -⟩ := List.cons.inj h
      exact absurd hc (by decide)
    next h =>
      obtain ⟨rfl, -⟩ := List.cons.inj h
      exact absurd hc (by decide)
    · rfl

private theorem exponent_lexeme {e : Option Int} {s rest : List Char} (hs : ExponentLexeme e s)
    (h : continuesNumber rest = false) : exponent? (s ++ rest) = some (e, rest) := by
  have hr := not_digit_of_end h
  cases hs with
  | absent =>
    cases rest with
    | nil => rfl
    | cons c cs =>
      have hc : ¬(c = 'e' ∨ c = 'E') := by
        simp only [continuesNumber, Bool.or_eq_false_iff, decide_eq_false_iff_not] at h
        exact not_or.2 ⟨h.1.2, h.2⟩
      exact if_neg hc
  | @positive mark _ ds hm hs hn hd =>
    rcases hs with rfl | rfl
    · exact exponent_digits hm (sign_of_digits hn hd rest) hn hd hr
    · have plus : sign ('+' :: (ds ++ rest)) = (false, ds ++ rest) := rfl
      exact exponent_digits hm plus hn hd hr
  | @negative mark ds hm hn hd =>
    have minus : sign ('-' :: (ds ++ rest)) = (true, ds ++ rest) := rfl
    exact exponent_digits hm minus hn hd hr

private theorem number_of_digit {c : Char} (hc : Text.isDigit c = true) (s : List Char) :
    number? (c :: s) = unsigned? false (c :: s) := by
  unfold number?
  split
  next h =>
    obtain ⟨rfl, -⟩ := List.cons.inj h
    exact absurd hc (by decide)
  · rfl

/-- A number starts with a minus sign or a digit. -/
theorem numberLexeme_head {d : Number.Decimal} {s : List Char} (hs : NumberLexeme d s) :
    ∃ c rest, s = c :: rest ∧ (c = '-' ∨ Text.isDigit c = true) := by
  obtain ⟨e, -, rfl⟩ := hs
  simp only [List.append_assoc]
  cases d.negative with
  | true => exact ⟨'-', _, rfl, .inl rfl⟩
  | false =>
    cases hw : Text.digits d.whole with
    | nil => exact absurd hw (Text.digits_ne_nil _)
    | cons c cs =>
      exact ⟨c, _, rfl, .inr (Text.isDigit_of_mem_digits (hw ▸ List.mem_cons_self))⟩

/-- A number is read as what it stands for. -/
theorem number_lexeme {d : Number.Decimal} {s rest : List Char} (hs : NumberLexeme d s)
    (h : continuesNumber rest = false) : number? (s ++ rest) = some (d, rest) := by
  obtain ⟨e, he, rfl⟩ := hs
  have hd := not_digit_of_end h
  have exponent := exponent_lexeme he h
  have before : Text.startsWithDigit (e ++ rest) = false ∧ (e ++ rest).head? ≠ some '.' := by
    generalize d.exponent = power at he
    cases he with
    | absent => exact ⟨hd, not_point_of_end h⟩
    | positive hm => rcases hm with rfl | rfl <;> exact ⟨rfl, by simp⟩
    | negative hm => rcases hm with rfl | rfl <;> exact ⟨rfl, by simp⟩
  have fraction : fraction? (fractionText d.fraction ++ (e ++ rest)) =
      some (d.fraction, e ++ rest) := by
    exact fraction_fractionText d.fraction before.1 before.2
  have whole : whole? (Text.digits d.whole ++ (fractionText d.fraction ++ (e ++ rest))) =
      some (d.whole, fractionText d.fraction ++ (e ++ rest)) := by
    apply whole_digits
    cases d.fraction with
    | nil => exact before.1
    | cons f fs => rfl
  have all : unsigned? d.negative (Text.digits d.whole ++
      (fractionText d.fraction ++ (e ++ rest))) = some (d, rest) := by
    simp [unsigned?, whole, fraction, exponent]
  simp only [List.append_assoc]
  cases hn : d.negative with
  | true =>
    rw [hn] at all
    exact all
  | false =>
    rw [hn] at all
    cases hw : Text.digits d.whole with
    | nil => exact absurd hw (Text.digits_ne_nil _)
    | cons c cs =>
      have hc : Text.isDigit c = true :=
        Text.isDigit_of_mem_digits (hw ▸ List.mem_cons_self)
      rw [hw] at all
      exact (number_of_digit hc _).trans all

/-- The digits that a number is written with stand for it. -/
theorem numberText_lexeme (d : Number.Decimal) : NumberLexeme d (numberText d) := by
  refine ⟨exponentText d.exponent, ?_, rfl⟩
  cases d.exponent with
  | none => exact .absent
  | some e =>
    have digits : ∀ c ∈ Text.digits e.natAbs, Text.isDigit c = true :=
      fun c hc => Text.isDigit_of_mem_digits hc
    have value : (Text.ofDigits (Text.digits e.natAbs) : Int) = e.natAbs :=
      congrArg Int.ofNat (Text.ofDigits_digits _)
    by_cases he : e < 0
    · have back : e = -(Text.ofDigits (Text.digits e.natAbs) : Int) := by omega
      rw [exponentText, if_pos he]
      refine Eq.mp ?_ (ExponentLexeme.negative (.inl rfl) (Text.digits_ne_nil e.natAbs) digits)
      rw [← back]
    · have back : e = Text.ofDigits (Text.digits e.natAbs) := by omega
      rw [exponentText, if_neg he]
      refine Eq.mp ?_ (ExponentLexeme.positive (.inl rfl) (.inr rfl)
        (Text.digits_ne_nil e.natAbs) digits)
      rw [← back]
      rfl

end PipelineEditor.Json
