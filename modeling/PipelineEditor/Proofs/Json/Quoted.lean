import PipelineEditor.Proofs.Json.Grammar

/-! Texts between quotes are read as what their parts stand for, and a text that is written stands
for itself. -/
namespace PipelineEditor.Json

/-! Reading. -/

private theorem parts_part {p : Part} {w : List Char} (h : PartLexeme p w) (s : List Char) :
    parts (w ++ s) = (parts s).map fun (ps, after) => (p :: ps, after) := by
  cases h with
  | plain hq hb hs =>
    rw [List.singleton_append, parts]
    · simp [hs, hb]
    · exact hq
    · exact fun _ _ _ _ _ h => absurd h hb
    · exact fun _ _ h => absurd h hb
  | @short e c h =>
    have hu : e ≠ 'u' := by
      rintro rfl
      simp [shortEscape?] at h
    rw [List.cons_append, List.singleton_append, parts]
    · rw [h]
    · exact fun _ _ _ _ _ he => absurd he hu
  | unit h =>
    simp only [List.cons_append, List.nil_append]
    rw [parts, h]

private theorem parts_parts {ps : List Part} {s : List Char} (h : PartsLexeme ps s)
    (rest : List Char) : parts (s ++ '"' :: rest) = some (ps, rest) := by
  induction h with
  | nil => rfl
  | cons hp hs ih =>
    rw [List.append_assoc, parts_part hp, ih]
    rfl

/-- A text is read up to its closing quote, and its parts stand for it. -/
theorem parts_lexeme {t : Option String} {s : List Char} (h : TextLexeme t s) (rest : List Char) :
    ∃ body ps, s ++ rest = '"' :: body ∧ parts body = some (ps, rest) ∧
      (decode ps).map String.ofList = t := by
  obtain ⟨ps, body, hps, rfl, rfl⟩ := h
  refine ⟨body ++ '"' :: rest, ps, ?_, parts_parts hps rest, rfl⟩
  simp

/-! Writing. Every character, escaped or not, is one part that stands for it. -/

/-- A part stands for a character that is written as `w`. -/
structure Spells (w : List Char) (p : Part) (c : Char) : Prop where
  lexeme : PartLexeme p w
  stands : ∀ ps, decode (p :: ps) = (decode ps).map (c :: ·)

private theorem decode_unit {n : Nat} (h : n < 0xd800) (ps : List Part) :
    decode (.unit n :: ps) = (decode ps).map (Char.ofNat n :: ·) := by
  cases ps with
  | nil => simp [decode, Nat.not_le.2 h]
  | cons p ps =>
    cases p with
    | char c => simp [decode, Nat.not_le.2 h]
    | unit m => simp [decode, Nat.not_le.2 h]

private theorem spells_short {e c : Char} (h : shortEscape? e = some c) :
    Spells ['\\', e] (.char c) c :=
  ⟨.short h, fun _ => rfl⟩

private theorem unit_control : ∀ n < 32,
    unit? '0' '0' (Nat.digitChar (n / 16)) (Nat.digitChar (n % 16)) = some n := by
  decide

private theorem spells_control {c : Char} (h : c < ' ') :
    Spells ['\\', 'u', '0', '0', Nat.digitChar (c.toNat / 16), Nat.digitChar (c.toNat % 16)]
      (.unit c.toNat) c := by
  have small : c.toNat < 32 := h
  refine ⟨.unit (unit_control c.toNat small), fun ps => ?_⟩
  rw [decode_unit (by omega), Char.ofNat_toNat]

private theorem exists_spells (c : Char) : ∃ p, Spells ((escape? c).getD [c]) p c := by
  unfold escape?
  split
  next h => exact ⟨.char c, spells_short (by subst h; rfl)⟩
  next quote =>
  split
  next h => exact ⟨.char c, spells_short (by subst h; rfl)⟩
  next backslash =>
  split
  next h => exact ⟨.char c, spells_short (by subst h; rfl)⟩
  split
  next h => exact ⟨.char c, spells_short (by subst h; rfl)⟩
  split
  next h => exact ⟨.char c, spells_short (by subst h; rfl)⟩
  split
  next h => exact ⟨.char c, spells_short (by subst h; rfl)⟩
  split
  next h => exact ⟨.char c, spells_short (by subst h; rfl)⟩
  split
  next h => exact ⟨_, spells_control h⟩
  next plain => exact ⟨.char c, .plain quote backslash plain, fun _ => rfl⟩

private theorem escaped_lexeme (s : List Char) :
    ∃ ps, PartsLexeme ps (s.flatMap fun c => (escape? c).getD [c]) ∧ decode ps = some s := by
  induction s with
  | nil => exact ⟨[], .nil, rfl⟩
  | cons c s ih =>
    obtain ⟨ps, lexeme, stands⟩ := ih
    obtain ⟨p, hp⟩ := exists_spells c
    refine ⟨p :: ps, ?_, ?_⟩
    · rw [List.flatMap_cons]
      exact .cons hp.lexeme lexeme
    · rw [hp.stands, stands]
      rfl

/-- A quoted text stands for that text. -/
theorem quote_lexeme (s : String) : TextLexeme (some s) (quote s) := by
  obtain ⟨ps, lexeme, stands⟩ := escaped_lexeme s.toList
  refine ⟨ps, _, lexeme, rfl, ?_⟩
  rw [stands, Option.map_some, String.ofList_toList]

/-- A lone surrogate stands for no text. -/
theorem surrogate_lexeme : TextLexeme none ['"', '\\', 'u', 'd', '8', '0', '0', '"'] := by
  have unit : unit? 'd' '8' '0' '0' = some 0xd800 := by decide
  exact ⟨[.unit 0xd800], _, .cons (.unit unit) .nil, rfl, rfl⟩

end PipelineEditor.Json
