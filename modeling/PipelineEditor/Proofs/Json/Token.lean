import PipelineEditor.Json.Render
import PipelineEditor.Proofs.Json.Numeral
import PipelineEditor.Proofs.Json.Quoted

/-! The tokens of a text are those that it lays out, whatever the white space between them: no token
of a value but a number runs on, and none that starts with a digit follows a number. -/
namespace PipelineEditor.Json

mutual

/-- The tokens of an intact value. -/
def spell : Json → List Token
  | .null => [.null]
  | .bool b => [.bool b]
  | .number d => [.number d]
  | .text s => [.text s]
  | .list [] _ => [.beginList, .endList]
  | .list (v :: vs) _ => .beginList :: (spell v ++ spellItems vs ++ [.endList])
  | .object [] _ => [.beginObject, .endObject]
  | .object ((k, v) :: ms) _ =>
    .beginObject :: .text k :: .colon :: (spell v ++ spellMembers ms ++ [.endObject])
  | .fault => []

/-- The tokens of the items after the first. -/
def spellItems : List Json → List Token
  | [] => []
  | v :: vs => .comma :: (spell v ++ spellItems vs)

/-- The tokens of the members after the first. -/
def spellMembers : List (Option String × Json) → List Token
  | [] => []
  | (k, v) :: ms => .comma :: .text k :: .colon :: (spell v ++ spellMembers ms)

end

/-- The spacing puts nothing but white space between tokens. -/
structure Spacing.Blank (l : Spacing) : Prop where
  line : ∀ depth, Json.Blank (l.line depth)
  gap : Json.Blank l.gap

theorem compact_blank : Spacing.compact.Blank :=
  ⟨fun _ _ h => (List.not_mem_nil h).elim, fun _ h => (List.not_mem_nil h).elim⟩

theorem pretty_blank : Spacing.pretty.Blank := by
  constructor
  · intro depth c hc
    rcases List.mem_cons.1 hc with rfl | hc
    · rfl
    · rw [List.eq_of_mem_replicate hc]
      rfl
  · intro c hc
    rw [List.mem_singleton.1 hc]
    rfl

/-! Reading. -/

private theorem tokens_blank {w : List Char} (h : Blank w) (rest : List Char) :
    tokens (w ++ rest) = tokens rest := by
  induction w with
  | nil => rfl
  | cons c w ih =>
    rw [List.cons_append, tokens, if_pos (h c List.mem_cons_self)]
    exact ih fun d hd => h d (List.mem_cons_of_mem c hd)

private theorem tokens_lexeme {c : Char} {rest after : List Char} {t : Token}
    (hc : isSpace c = false) (h : lexeme? c rest = some (t, after)) :
    tokens (c :: rest) = t :: tokens after := by
  rw [tokens, if_neg (by simp [hc])]
  split
  next t' after' h' =>
    rw [h] at h'
    obtain ⟨rfl, rfl⟩ := Prod.mk.inj (Option.some.inj h')
    rfl
  next h' =>
    rw [h] at h'
    cases h'

private theorem lexeme_number {c : Char} (h : c = '-' ∨ Text.isDigit c = true) (s : List Char) :
    lexeme? c s = (number? (c :: s)).map fun (d, after) => (.number d, after) := by
  unfold lexeme?
  split
  case h_11 => rfl
  all_goals exact absurd h (by decide)

private theorem isSpace_of_isDigit {c : Char} (h : Text.isDigit c = true) : isSpace c = false := by
  simp only [isSpace, Bool.or_eq_false_iff, beq_eq_false_iff_ne]
  refine ⟨⟨⟨?_, ?_⟩, ?_⟩, ?_⟩ <;> (rintro rfl; revert h; decide)

private theorem tokens_number {d : Number.Decimal} {s rest : List Char} (hs : NumberLexeme d s)
    (h : continuesNumber rest = false) : tokens (s ++ rest) = .number d :: tokens rest := by
  have read := number_lexeme hs h
  obtain ⟨c, s, rfl, hc⟩ := numberLexeme_head hs
  rw [List.cons_append] at read ⊢
  apply tokens_lexeme
  · rcases hc with rfl | hc
    · rfl
    · exact isSpace_of_isDigit hc
  · rw [lexeme_number hc, read]
    rfl

private theorem tokens_text {t : Option String} {s : List Char} (hs : TextLexeme t s)
    (rest : List Char) : tokens (s ++ rest) = .text t :: tokens rest := by
  obtain ⟨body, ps, hb, read, stands⟩ := parts_lexeme hs rest
  rw [hb]
  apply tokens_lexeme rfl
  rw [lexeme?, read, ← stands]
  rfl

private theorem tokens_token {t : Token} {s rest : List Char} (hs : t.Lexeme s)
    (h : ∀ d, t = .number d → continuesNumber rest = false) :
    tokens (s ++ rest) = t :: tokens rest := by
  cases t with
  | number d => exact tokens_number hs (h d rfl)
  | text t => exact tokens_text hs rest
  | fault => cases hs
  | null =>
    obtain rfl : s = ['n', 'u', 'l', 'l'] := hs.trans (by decide)
    exact tokens_lexeme rfl rfl
  | bool b =>
    cases b with
    | true =>
      obtain rfl : s = ['t', 'r', 'u', 'e'] := Eq.trans hs (by decide)
      exact tokens_lexeme rfl rfl
    | false =>
      obtain rfl : s = ['f', 'a', 'l', 's', 'e'] := Eq.trans hs (by decide)
      exact tokens_lexeme rfl rfl
  | _ =>
    cases hs
    exact tokens_lexeme rfl rfl

/-- Whether the first token is a number. -/
def startsWithNumber : List Token → Bool
  | .number _ :: _ => true
  | _ => false

/-- No number stands directly before another one. -/
def Apart : List Token → Prop
  | [] => True
  | .number _ :: ts => startsWithNumber ts = false ∧ Apart ts
  | _ :: ts => Apart ts

/-- White space and tokens other than numbers end a number. -/
private theorem ends_number {ts : List Token} {s : List Char} (h : Laid ts s)
    (ht : startsWithNumber ts = false) : continuesNumber s = false := by
  have space {w : List Char} (hw : Blank w) (rest : List Char)
      (hr : continuesNumber rest = false) : continuesNumber (w ++ rest) = false := by
    cases w with
    | nil => exact hr
    | cons c w =>
      have hc := hw c List.mem_cons_self
      simp only [isSpace, Bool.or_eq_true, beq_iff_eq] at hc
      rcases hc with ((rfl | rfl) | rfl) | rfl <;> rfl
  cases h with
  | nil hw =>
    have blank := space hw [] rfl
    rwa [List.append_nil] at blank
  | @cons t ts w l s hw hl hs =>
    rw [List.append_assoc]
    apply space hw
    cases t with
    | number d => cases ht
    | text t =>
      obtain ⟨body, ps, hb, -, -⟩ := parts_lexeme hl s
      rw [hb]
      rfl
    | fault => cases hl
    | null =>
      obtain rfl : l = ['n', 'u', 'l', 'l'] := Eq.trans hl (by decide)
      rfl
    | bool b =>
      cases b with
      | true =>
        obtain rfl : l = ['t', 'r', 'u', 'e'] := Eq.trans hl (by decide)
        rfl
      | false =>
        obtain rfl : l = ['f', 'a', 'l', 's', 'e'] := Eq.trans hl (by decide)
        rfl
    | _ =>
      cases hl
      rfl

/-- The tokens of a text are those that it lays out. -/
theorem tokens_laid {ts : List Token} {s : List Char} (h : Laid ts s) (ha : Apart ts) :
    tokens s = ts := by
  induction h with
  | nil hw =>
    have blank := tokens_blank hw []
    rw [List.append_nil] at blank
    rw [blank, tokens]
  | @cons t ts w l s hw hl hs ih =>
    have next : Apart ts ∧ ∀ d, t = .number d → startsWithNumber ts = false := by
      cases t with
      | number d => exact ⟨ha.2, fun _ _ => ha.1⟩
      | _ => exact ⟨ha, fun d hd => Token.noConfusion hd⟩
    have ends : ∀ d, t = .number d → continuesNumber s = false :=
      fun d hd => ends_number hs (next.2 d hd)
    rw [List.append_assoc, tokens_blank hw, tokens_token hl ends, ih next.1]

/-! The tokens of a value. Behind each of its numbers there is a comma or a bracket, or the end. -/

mutual

private theorem apart_spell : ∀ (v : Json) (ts : List Token), startsWithNumber ts = false →
    Apart ts → Apart (spell v ++ ts)
  | .null, _, _, h | .bool _, _, _, h | .text _, _, _, h => h
  | .number _, _, hn, h => ⟨hn, h⟩
  | .list [] _, _, _, h | .object [] _, _, _, h => h
  | .list (v :: vs) _, ts, _, h => by
    rw [spell]
    simp only [List.cons_append, List.append_assoc, List.nil_append]
    obtain ⟨starts, apart⟩ := apart_spellItems vs (.endList :: ts) rfl h
    exact apart_spell v _ starts apart
  | .object ((k, v) :: ms) _, ts, _, h => by
    rw [spell]
    simp only [List.cons_append, List.append_assoc, List.nil_append]
    obtain ⟨starts, apart⟩ := apart_spellMembers ms (.endObject :: ts) rfl h
    exact apart_spell v _ starts apart
  | .fault, _, _, h => h

private theorem apart_spellItems : ∀ (vs : List Json) (ts : List Token),
    startsWithNumber ts = false → Apart ts →
      startsWithNumber (spellItems vs ++ ts) = false ∧ Apart (spellItems vs ++ ts)
  | [], _, hn, h => ⟨hn, h⟩
  | v :: vs, ts, hn, h => by
    rw [spellItems]
    simp only [List.cons_append, List.append_assoc]
    obtain ⟨starts, apart⟩ := apart_spellItems vs ts hn h
    exact ⟨rfl, apart_spell v _ starts apart⟩

private theorem apart_spellMembers : ∀ (ms : List (Option String × Json)) (ts : List Token),
    startsWithNumber ts = false → Apart ts →
      startsWithNumber (spellMembers ms ++ ts) = false ∧ Apart (spellMembers ms ++ ts)
  | [], _, hn, h => ⟨hn, h⟩
  | (k, v) :: ms, ts, hn, h => by
    rw [spellMembers]
    simp only [List.cons_append, List.append_assoc]
    obtain ⟨starts, apart⟩ := apart_spellMembers ms ts hn h
    exact ⟨rfl, apart_spell v _ starts apart⟩

end

/-- A text that lays out the tokens of a value has those tokens. -/
theorem tokens_spelling {v : Json} {s : List Char} (h : Laid (spell v) s) : tokens s = spell v := by
  apply tokens_laid h
  have apart := apart_spell v [] rfl trivial
  rwa [List.append_nil] at apart

/-! Written values lay out their tokens. -/

private theorem Laid.behind {ts : List Token} {w s : List Char} (hw : Blank w) (h : Laid ts s) :
    Laid ts (w ++ s) := by
  have both {x : List Char} (hx : Blank x) : Blank (w ++ x) := fun c hc =>
    (List.mem_append.1 hc).elim (hw c) (hx c)
  cases h with
  | nil hx => exact .nil (both hx)
  | cons hx hl hs =>
    rw [List.append_assoc, ← List.append_assoc, ← List.append_assoc]
    exact .cons (both hx) hl hs

private theorem Laid.first {t : Token} {ts : List Token} {l s : List Char} (hl : t.Lexeme l)
    (h : Laid ts s) : Laid (t :: ts) (l ++ s) :=
  .cons (w := []) (fun _ h => (List.not_mem_nil h).elim) hl h

private theorem textOf_lexeme (t : Option String) : TextLexeme t (textOf t) := by
  cases t with
  | none =>
    have chars : textOf none = ['"', '\\', 'u', 'd', '8', '0', '0', '"'] := by decide
    rw [chars]
    exact surrogate_lexeme
  | some s => exact quote_lexeme s

variable {l : Spacing}

mutual

private theorem laid_write (hl : l.Blank) (depth : Nat) : ∀ (v : Json) {ts : List Token}
    {rest : List Char}, v.intact = true → Laid ts rest →
      Laid (spell v ++ ts) (write l depth v ++ rest)
  | .null, _, _, _, h => by
    rw [write, spell]
    exact .first rfl h
  | .bool true, _, _, _, h => by
    rw [write, spell]
    exact .first rfl h
  | .bool false, _, _, _, h => by
    rw [write, spell]
    exact .first rfl h
  | .number d, _, _, _, h => by
    rw [write, spell]
    exact .first (numberText_lexeme d) h
  | .text t, _, _, _, h => by
    rw [write, spell]
    exact .first (textOf_lexeme t) h
  | .list [] closed, ts, rest, hi, h => by
    obtain rfl : closed = true := (Bool.and_eq_true_iff.1 hi).1
    rw [write, spell]
    exact .first (l := ['[']) rfl (.first (l := [']']) rfl h)
  | .list (v :: vs) closed, ts, rest, hi, h => by
    obtain ⟨rfl, hvs⟩ := Bool.and_eq_true_iff.1 hi
    obtain ⟨hv, hvs⟩ := Bool.and_eq_true_iff.1 hvs
    have close : Laid (.endList :: ts) (l.line depth ++ (']' :: rest)) :=
      .behind (hl.line depth) (.first (l := [']']) rfl h)
    have items := laid_write hl (depth + 1) v hv (laid_writeItems hl (depth + 1) vs hvs close)
    rw [write, spell]
    simp only [List.cons_append, List.append_assoc, ending, if_true, List.nil_append]
    exact .first (l := ['[']) rfl (.behind (hl.line _) items)
  | .object [] closed, ts, rest, hi, h => by
    obtain rfl : closed = true := (Bool.and_eq_true_iff.1 hi).1
    rw [write, spell]
    exact .first (l := ['{']) rfl (.first (l := ['}']) rfl h)
  | .object ((k, v) :: ms) closed, ts, rest, hi, h => by
    obtain ⟨rfl, hms⟩ := Bool.and_eq_true_iff.1 hi
    obtain ⟨hv, hms⟩ := Bool.and_eq_true_iff.1 hms
    have close : Laid (.endObject :: ts) (l.line depth ++ ('}' :: rest)) :=
      .behind (hl.line depth) (.first (l := ['}']) rfl h)
    have value := laid_write hl (depth + 1) v hv (laid_writeMembers hl (depth + 1) ms hms close)
    rw [write, spell]
    simp only [List.cons_append, List.append_assoc, ending, if_true, List.nil_append]
    refine .first (l := ['{']) rfl (.behind (hl.line _) (.first (textOf_lexeme k) ?_))
    exact .first (l := [':']) rfl (.behind hl.gap value)
  | .fault, _, _, hi, _ => by cases hi

private theorem laid_writeItems (hl : l.Blank) (depth : Nat) : ∀ (vs : List Json)
    {ts : List Token} {rest : List Char}, itemsIntact vs = true → Laid ts rest →
      Laid (spellItems vs ++ ts) (writeItems l depth vs ++ rest)
  | [], _, _, _, h => h
  | v :: vs, ts, rest, hi, h => by
    obtain ⟨hv, hvs⟩ := Bool.and_eq_true_iff.1 hi
    have items := laid_write hl depth v hv (laid_writeItems hl depth vs hvs h)
    rw [writeItems, spellItems]
    simp only [List.cons_append, List.append_assoc]
    exact .first (l := [',']) rfl (.behind (hl.line _) items)

private theorem laid_writeMembers (hl : l.Blank) (depth : Nat) :
    ∀ (ms : List (Option String × Json)) {ts : List Token} {rest : List Char},
      membersIntact ms = true → Laid ts rest →
        Laid (spellMembers ms ++ ts) (writeMembers l depth ms ++ rest)
  | [], _, _, _, h => h
  | (k, v) :: ms, ts, rest, hi, h => by
    obtain ⟨hv, hms⟩ := Bool.and_eq_true_iff.1 hi
    have value := laid_write hl depth v hv (laid_writeMembers hl depth ms hms h)
    rw [writeMembers, spellMembers]
    simp only [List.cons_append, List.append_assoc]
    refine .first (l := [',']) rfl (.behind (hl.line _) (.first (textOf_lexeme k) ?_))
    exact .first (l := [':']) rfl (.behind hl.gap value)

end

/-- A written value lays out its tokens. -/
theorem write_laid (hl : l.Blank) (depth : Nat) {v : Json} (h : v.intact = true) :
    Laid (spell v) (write l depth v) := by
  have laid := laid_write hl depth v h (.nil (w := []) fun _ h => (List.not_mem_nil h).elim)
  rwa [List.append_nil, List.append_nil] at laid

end PipelineEditor.Json
