import PipelineEditor.Number.Decimal

/-! JSON numbers: their grammar, and the text of a decimal. -/
namespace PipelineEditor.Json

/-- A fraction with its point. -/
def fractionText : List (Fin 10) → List Char
  | [] => []
  | ds => '.' :: ds.map Text.digitChar

/-- A power of ten, with the sign always written. -/
def exponentText : Option Int → List Char
  | none => []
  | some e => 'e' :: (if e < 0 then '-' else '+') :: Text.digits e.natAbs

/-- The text of a number. -/
def numberText (d : Number.Decimal) : List Char :=
  (if d.negative then ['-'] else []) ++ Text.digits d.whole ++ fractionText d.fraction ++
    exponentText d.exponent

/-- A whole part: the digit 0, or digits that start with another one. -/
def whole? (s : List Char) : Option (Nat × List Char) :=
  let (ds, rest) := Text.spanDigits s
  match ds with
  | [] => none
  | ['0'] => some (0, rest)
  | '0' :: _ => none
  | ds => some (Text.ofDigits ds, rest)

/-- A fraction, if a point follows: at least one digit. -/
def fraction? : List Char → Option (List (Fin 10) × List Char)
  | '.' :: s =>
    let (ds, rest) := Text.spanDigits s
    if ds.isEmpty then none
    else some (ds.map Text.digitOfChar, rest)
  | s => some ([], s)

/-- A sign that may be left out. -/
def sign : List Char → Bool × List Char
  | '-' :: s => (true, s)
  | '+' :: s => (false, s)
  | s => (false, s)

/-- A power of ten, if an `e` of either case follows. -/
def exponent? : List Char → Option (Option Int × List Char)
  | c :: s =>
    if c = 'e' ∨ c = 'E' then
      let (negative, s) := sign s
      let (ds, rest) := Text.spanDigits s
      if ds.isEmpty then none
      else
        let n : Int := Text.ofDigits ds
        some (some (if negative then -n else n), rest)
    else some (none, c :: s)
  | [] => some (none, [])

/-- A number without its sign. -/
def unsigned? (negative : Bool) (s : List Char) : Option (Number.Decimal × List Char) := do
  let (whole, s) ← whole? s
  let (fraction, s) ← fraction? s
  let (exponent, s) ← exponent? s
  return (⟨negative, whole, fraction, exponent⟩, s)

/-- A number at the start of a text. -/
def number? : List Char → Option (Number.Decimal × List Char)
  | '-' :: s => unsigned? true s
  | s => unsigned? false s

private theorem spanDigits_length (s : List Char) :
    (Text.spanDigits s).1.length + (Text.spanDigits s).2.length = s.length := by
  rw [← List.length_append]
  exact congrArg List.length List.takeWhile_append_dropWhile

private theorem sign_length (s : List Char) : (sign s).2.length ≤ s.length := by
  unfold sign; split <;> simp

private theorem whole_length {s : List Char} {n : Nat} {after : List Char}
    (h : whole? s = some (n, after)) : after.length < s.length := by
  have hl := spanDigits_length s
  unfold whole? at h
  split at h
  next ds rest hs =>
    simp only [hs] at hl
    cases ds with
    | nil => simp at h
    | cons d ds => split at h <;> simp_all <;> omega

private theorem fraction_length {s : List Char} {ds : List (Fin 10)} {after : List Char}
    (h : fraction? s = some (ds, after)) : after.length ≤ s.length := by
  unfold fraction? at h
  split at h
  next s =>
    have hl := spanDigits_length s
    grind
  next => grind

private theorem exponent_length {s : List Char} {e : Option Int} {after : List Char}
    (h : exponent? s = some (e, after)) : after.length ≤ s.length := by
  unfold exponent? at h
  split at h
  next c s =>
    have hs := sign_length s
    have hl := spanDigits_length (sign s).2
    grind
  next => grind

private theorem unsigned_length {negative : Bool} {s : List Char} {d : Number.Decimal}
    {after : List Char} (h : unsigned? negative s = some (d, after)) :
    after.length < s.length := by
  simp only [unsigned?, Option.bind_eq_bind, Option.pure_def, Option.bind_eq_some_iff] at h
  obtain ⟨⟨n, s1⟩, h1, ⟨ds, s2⟩, h2, ⟨e, s3⟩, h3, h4⟩ := h
  have := whole_length h1
  have := fraction_length h2
  have := exponent_length h3
  simp only [Option.some.injEq, Prod.mk.injEq] at h4
  grind

/-- A number has at least one character. -/
theorem number_length {s : List Char} {d : Number.Decimal} {after : List Char}
    (h : number? s = some (d, after)) : after.length < s.length := by
  unfold number? at h
  split at h
  next s =>
    have := unsigned_length h
    simp only [List.length_cons]; omega
  next => exact unsigned_length h

end PipelineEditor.Json
