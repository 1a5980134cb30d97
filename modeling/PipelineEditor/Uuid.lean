import PipelineEditor.Json.Quoted

/-! UUIDs, their accepted spellings and the one they are written in. -/
namespace PipelineEditor

/-- A UUID, as its 32 hexadecimal digits. -/
structure Uuid where
  digits : List (Fin 16)
  length_eq : digits.length = 32
deriving DecidableEq

namespace Uuid

/-- The UUID of 32 digits of either case. -/
def ofHex? (s : List Char) : Option Uuid :=
  let digits := (s.filterMap Json.hexValue?).map (Fin.ofNat 16)
  if h : digits.length = 32 then if s.length = 32 then some ⟨digits, h⟩ else none else none

/-- The digits of a text with hyphens behind the 8th, 12th, 16th and 20th of them. -/
def ofHyphenated? (s : List Char) : Option Uuid :=
  let hyphens := [8, 13, 18, 23]
  if s.length = 36 ∧ hyphens.all (fun i => s[i]? == some '-') then
    ofHex? (s.take 8 ++ (s.drop 9).take 4 ++ (s.drop 14).take 4 ++ (s.drop 19).take 4 ++ s.drop 24)
  else none

/-- Reads 32 digits, or hyphenated ones, which may stand in braces or behind `urn:uuid:`. -/
def parse? (text : String) : Option Uuid :=
  let s := text.toList
  let urn := "urn:uuid:".toList
  if s.length = 32 then ofHex? s
  else if s.length = 38 ∧ s.head? = some '\x7b' ∧ s.getLast? = some '\x7d' then
    ofHyphenated? (s.drop 1).dropLast
  else if s.length = 45 ∧ s.take 9 = urn then ofHyphenated? (s.drop 9)
  else ofHyphenated? s

/-- The hyphenated spelling in lower case. -/
def text (u : Uuid) : String :=
  let s := u.digits.map fun d => Nat.digitChar d.val
  String.ofList (s.take 8 ++ '-' :: (s.drop 8).take 4 ++ '-' :: (s.drop 12).take 4 ++
    '-' :: (s.drop 16).take 4 ++ '-' :: s.drop 20)

end Uuid
end PipelineEditor
