import PipelineEditor.Json.Token

/-! The grammar of JSON texts: what each token may look like, and texts as rows of tokens with white
space wherever one likes. -/
namespace PipelineEditor.Json

/-- A power of ten: a mark of either case, a sign that may be left out before a power that is not
negative, and digits, with any number of zeros in front. -/
inductive ExponentLexeme : Option Int → List Char → Prop
  | absent : ExponentLexeme none []
  | positive {mark : Char} {sign ds : List Char} (hm : mark = 'e' ∨ mark = 'E')
    (hs : sign = [] ∨ sign = ['+']) (hn : ds ≠ []) (hd : ∀ c ∈ ds, Text.isDigit c = true) :
    ExponentLexeme (some (Text.ofDigits ds)) (mark :: sign ++ ds)
  | negative {mark : Char} {ds : List Char} (hm : mark = 'e' ∨ mark = 'E') (hn : ds ≠ [])
    (hd : ∀ c ∈ ds, Text.isDigit c = true) :
    ExponentLexeme (some (-(Text.ofDigits ds : Int))) (mark :: '-' :: ds)

/-- A number: the whole part has no zeros in front. -/
def NumberLexeme (d : Number.Decimal) (s : List Char) : Prop :=
  ∃ exponent, ExponentLexeme d.exponent exponent ∧
    s = (if d.negative then ['-'] else []) ++ Text.digits d.whole ++ fractionText d.fraction ++
      exponent

/-- One part of a text: a character as it is, unless it has to be escaped, or an escape. -/
inductive PartLexeme : Part → List Char → Prop
  | plain {c : Char} (hq : c ≠ '"') (hb : c ≠ '\\') (hs : ¬c < ' ') : PartLexeme (.char c) [c]
  | short {e c : Char} (h : shortEscape? e = some c) : PartLexeme (.char c) ['\\', e]
  | unit {a b c d : Char} {n : Nat} (h : unit? a b c d = some n) :
    PartLexeme (.unit n) ['\\', 'u', a, b, c, d]

/-- Parts one after the other. -/
inductive PartsLexeme : List Part → List Char → Prop
  | nil : PartsLexeme [] []
  | cons {p : Part} {ps : List Part} {w s : List Char} (hp : PartLexeme p w)
    (hs : PartsLexeme ps s) : PartsLexeme (p :: ps) (w ++ s)

/-- A text between its quotes. -/
def TextLexeme (t : Option String) (s : List Char) : Prop :=
  ∃ ps body, PartsLexeme ps body ∧ s = '"' :: body ++ ['"'] ∧ t = (decode ps).map String.ofList

/-- What a token may look like. -/
def Token.Lexeme : Token → List Char → Prop
  | .beginList, s => s = ['[']
  | .endList, s => s = [']']
  | .beginObject, s => s = ['{']
  | .endObject, s => s = ['}']
  | .comma, s => s = [',']
  | .colon, s => s = [':']
  | .null, s => s = "null".toList
  | .bool true, s => s = "true".toList
  | .bool false, s => s = "false".toList
  | .number d, s => NumberLexeme d s
  | .text t, s => TextLexeme t s
  | .fault, _ => False

/-- White space and nothing else. -/
def Blank (s : List Char) : Prop :=
  ∀ c ∈ s, isSpace c = true

/-- A row of tokens with white space before, between and behind them. -/
inductive Laid : List Token → List Char → Prop
  | nil {w : List Char} (hw : Blank w) : Laid [] w
  | cons {t : Token} {ts : List Token} {w l s : List Char} (hw : Blank w) (hl : t.Lexeme l)
    (hs : Laid ts s) : Laid (t :: ts) (w ++ l ++ s)

end PipelineEditor.Json
