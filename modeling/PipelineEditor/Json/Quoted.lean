/-! JSON texts between quotes: reading them part by part, and writing them with escapes. -/
namespace PipelineEditor.Json

/-- The value of a hexadecimal digit of either case. -/
def hexValue? (c : Char) : Option Nat :=
  if '0' ≤ c ∧ c ≤ '9' then some (c.toNat - '0'.toNat)
  else if 'a' ≤ c ∧ c ≤ 'f' then some (c.toNat - 'a'.toNat + 10)
  else if 'A' ≤ c ∧ c ≤ 'F' then some (c.toNat - 'A'.toNat + 10)
  else none

/-- The code unit named by four hexadecimal digits. -/
def unit? (a b c d : Char) : Option Nat := do
  let a ← hexValue? a
  let b ← hexValue? b
  let c ← hexValue? c
  let d ← hexValue? d
  return ((a * 16 + b) * 16 + c) * 16 + d

/-- One part of a text between its quotes: a character, or a code unit given by its number. -/
inductive Part
  | char (c : Char)
  | unit (n : Nat)
deriving DecidableEq, Repr

/-- The character of an escape of one letter. -/
def shortEscape? : Char → Option Char
  | '"' => some '"'
  | '\\' => some '\\'
  | '/' => some '/'
  | 'b' => some '\x08'
  | 'f' => some '\x0c'
  | 'n' => some '\n'
  | 'r' => some '\r'
  | 't' => some '\t'
  | _ => none

/-- The parts of a text up to its closing quote, and what follows the quote. -/
def parts : List Char → Option (List Part × List Char)
  | '"' :: rest => some ([], rest)
  | '\\' :: 'u' :: a :: b :: c :: d :: rest =>
    match unit? a b c d with
    | some n => (parts rest).map fun (ps, after) => (.unit n :: ps, after)
    | none => none
  | '\\' :: e :: rest =>
    match shortEscape? e with
    | some c => (parts rest).map fun (ps, after) => (.char c :: ps, after)
    | none => none
  | c :: rest =>
    if c < ' ' ∨ c = '\\' then none
    else (parts rest).map fun (ps, after) => (.char c :: ps, after)
  | [] => none

/-- The characters that parts stand for. Two units that are a surrogate pair are one character; any
other surrogate is none. -/
def decode : List Part → Option (List Char)
  | [] => some []
  | .char c :: ps => (decode ps).map (c :: ·)
  | .unit n :: .unit m :: ps =>
    if 0xd800 ≤ n ∧ n < 0xdc00 ∧ 0xdc00 ≤ m ∧ m < 0xe000 then
      (decode ps).map (Char.ofNat (0x10000 + (n - 0xd800) * 0x400 + (m - 0xdc00)) :: ·)
    else if 0xd800 ≤ n ∧ n < 0xe000 then none
    else (decode (.unit m :: ps)).map (Char.ofNat n :: ·)
  | .unit n :: ps =>
    if 0xd800 ≤ n ∧ n < 0xe000 then none else (decode ps).map (Char.ofNat n :: ·)

/-- The escape of a character that is not written as it is. -/
def escape? (c : Char) : Option (List Char) :=
  if c = '"' then some ['\\', '"']
  else if c = '\\' then some ['\\', '\\']
  else if c = '\x08' then some ['\\', 'b']
  else if c = '\x0c' then some ['\\', 'f']
  else if c = '\n' then some ['\\', 'n']
  else if c = '\r' then some ['\\', 'r']
  else if c = '\t' then some ['\\', 't']
  else if c < ' ' then
    some ['\\', 'u', '0', '0', Nat.digitChar (c.toNat / 16), Nat.digitChar (c.toNat % 16)]
  else none

/-- A text between quotes. Quotes, backslashes and control characters are escaped, all else is
written as it is. -/
def quote (s : String) : List Char :=
  '"' :: (s.toList.flatMap fun c => (escape? c).getD [c]) ++ ['"']

/-- Reading a text takes at least its closing quote. -/
theorem parts_length {s : List Char} {ps : List Part} {after : List Char}
    (h : parts s = some (ps, after)) : after.length < s.length := by
  fun_induction parts s generalizing ps with
  | case1 => simp_all
  | case2 a b c d rest n _ ih =>
    obtain ⟨⟨qs, t⟩, hq, he⟩ := Option.map_eq_some_iff.1 h
    simp only [Prod.mk.injEq] at he
    have := ih (he.2 ▸ hq)
    simp only [List.length_cons]; omega
  | case3 => simp at h
  | case4 e rest _ c _ ih =>
    obtain ⟨⟨qs, t⟩, hq, he⟩ := Option.map_eq_some_iff.1 h
    simp only [Prod.mk.injEq] at he
    have := ih (he.2 ▸ hq)
    simp only [List.length_cons]; omega
  | case5 => simp at h
  | case6 => simp at h
  | case7 c rest _ _ _ _ ih =>
    obtain ⟨⟨qs, t⟩, hq, he⟩ := Option.map_eq_some_iff.1 h
    simp only [Prod.mk.injEq] at he
    have := ih (he.2 ▸ hq)
    simp only [List.length_cons]; omega
  | case8 => simp at h

end PipelineEditor.Json
