import PipelineEditor.Json.Basic
import PipelineEditor.Json.Numeral
import PipelineEditor.Json.Quoted

/-! The tokens of JSON texts. Splitting ends at the first character that no token can start or go on
with, which is itself a token. -/
namespace PipelineEditor.Json

/-- The tokens of a JSON text. -/
inductive Token
  | beginList
  | endList
  | beginObject
  | endObject
  | comma
  | colon
  | null
  | bool (value : Bool)
  | number (value : Number.Decimal)
  | text (value : Option String)
  | fault
deriving DecidableEq, Repr

/-- The white space of JSON. -/
def isSpace (c : Char) : Bool :=
  c == ' ' || c == '\t' || c == '\n' || c == '\r'

/-- The token that starts with a character, and what follows it. -/
def lexeme? (c : Char) (rest : List Char) : Option (Token × List Char) :=
  match c, rest with
  | '[', s => some (.beginList, s)
  | ']', s => some (.endList, s)
  | '{', s => some (.beginObject, s)
  | '}', s => some (.endObject, s)
  | ',', s => some (.comma, s)
  | ':', s => some (.colon, s)
  | '"', s => (parts s).map fun (ps, after) => (.text ((decode ps).map String.ofList), after)
  | 'n', 'u' :: 'l' :: 'l' :: s => some (.null, s)
  | 't', 'r' :: 'u' :: 'e' :: s => some (.bool true, s)
  | 'f', 'a' :: 'l' :: 's' :: 'e' :: s => some (.bool false, s)
  | c, s => (number? (c :: s)).map fun (d, after) => (.number d, after)

/-- A token takes at least its first character. -/
theorem lexeme_length {c : Char} {rest after : List Char} {t : Token}
    (h : lexeme? c rest = some (t, after)) : after.length ≤ rest.length := by
  unfold lexeme? at h
  split at h
  case h_7 s =>
    obtain ⟨⟨ps, r⟩, hp, he⟩ := Option.map_eq_some_iff.1 h
    simp only [Prod.mk.injEq] at he
    have := parts_length (he.2 ▸ hp)
    omega
  case h_11 c s _ _ _ _ _ _ _ _ _ _ =>
    obtain ⟨⟨d, r⟩, hp, he⟩ := Option.map_eq_some_iff.1 h
    simp only [Prod.mk.injEq] at he
    have := number_length (he.2 ▸ hp)
    simp only [List.length_cons] at this; omega
  all_goals simp at h; grind

/-- The tokens of a text. -/
def tokens : List Char → List Token
  | [] => []
  | c :: rest =>
    if isSpace c then tokens rest
    else
      match h : lexeme? c rest with
      | some (t, after) =>
        have := lexeme_length h
        t :: tokens after
      | none => [.fault]
termination_by s => s.length

end PipelineEditor.Json
