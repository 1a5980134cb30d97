import PipelineEditor.Text.Blank
import PipelineEditor.Text.Decimal

/-! Scanners: readers that take characters off the front of a text, or fail. -/
namespace PipelineEditor.Text

/-- A scanner takes characters off the front of a text or fails. -/
abbrev Scanner := StateT (List Char) Option

namespace Scanner

/-- The value of a text that a scanner takes to its end. -/
def whole? {α : Type} (x : Scanner α) (s : List Char) : Option α :=
  match x.run s with
  | some (a, []) => some a
  | _ => none

/-- The next character, which stays where it is. -/
def peek : Scanner (Option Char) := do
  return (← get).head?

/-- Takes one character that satisfies a condition. -/
def oneOf (p : Char → Bool) : Scanner Char := do
  match ← get with
  | c :: rest =>
    if p c then
      set rest
      return c
    else failure
  | [] => failure

/-- Takes one given character. -/
def char (wanted : Char) : Scanner Unit := do
  let _ ← oneOf (· == wanted)

/-- Takes given characters. -/
def literal : List Char → Scanner Unit
  | [] => return ()
  | c :: cs => do
    char c
    literal cs

/-- Takes characters for as long as they satisfy a condition. -/
def takeWhile (p : Char → Bool) : Scanner (List Char) := do
  let s ← get
  set (s.dropWhile p)
  return s.takeWhile p

/-- Passes over characters for as long as they satisfy a condition. -/
def skipWhile (p : Char → Bool) : Scanner Unit :=
  modify fun s => s.dropWhile p

/-- Takes one or more characters that satisfy a condition. -/
def oneOrMore (p : Char → Bool) : Scanner (List Char) := do
  let cs ← takeWhile p
  if cs.isEmpty then failure else return cs

/-- Takes one or more digits, no more than a limit. -/
def digitsUpTo (limit : Nat) : Scanner (List Char) := do
  let s ← get
  let ds := (s.take limit).takeWhile isDigit
  if ds.isEmpty then failure
  set (s.drop ds.length)
  return ds

/-- Takes a given number of digits and gives their value. -/
def digitsExactly (count : Nat) : Scanner Nat := do
  let ds ← digitsUpTo count
  if ds.length = count then return ofDigits ds else failure

/-- Passes over white space. -/
def blanks : Scanner Unit :=
  skipWhile isBlank

end Scanner
end PipelineEditor.Text
