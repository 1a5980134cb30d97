import PipelineEditor.Instant
import PipelineEditor.Number.Word
import PipelineEditor.Toml.Text

/-! TOML numbers and dates. -/
namespace PipelineEditor.Toml

open Text (Scanner)
open Text.Scanner

/-- The digits behind the first one of a number; underscores may stand between two digits. -/
def moreDigits (p : Char → Bool) : List Char → List Char × List Char
  | '_' :: c :: s =>
    if p c then
      let (ds, rest) := moreDigits p s
      (c :: ds, rest)
    else ([], '_' :: c :: s)
  | c :: s =>
    if p c then
      let (ds, rest) := moreDigits p s
      (c :: ds, rest)
    else ([], c :: s)
  | [] => ([], [])

/-- Takes digits of a kind. -/
def digits (p : Char → Bool) : Scanner (List Char) := do
  let first ← oneOf p
  let (ds, rest) := moreDigits p (← get)
  set rest
  return first :: ds

/-- Takes a sign that may be left out: whether it is a minus. -/
def minus : Scanner Bool := do
  match ← optional (oneOf fun c => c == '+' || c == '-') with
  | some c => return c == '-'
  | none => return false

/-- Takes the whole part of a decimal number: the digit 0, or digits that start with another one. -/
def wholePart : Scanner (List Char) := do
  match ← peek with
  | some '0' =>
    char '0'
    return ['0']
  | _ => digits Text.isDigit

/-- An integer of 64 bits. -/
def word? (i : Int) : Option Int :=
  (Number.int64? i).map Int64.toInt

/-- Takes an integer: decimal with a sign, or hexadecimal, octal or binary without. -/
def integer : Scanner Int := do
  let based (base : Nat) (p : Char → Bool) : Scanner Int := do
    modify fun s => s.drop 2
    let ds ← digits p
    liftM (word? (ds.foldl (fun n c => n * base + (Json.hexValue? c).getD 0) 0 : Nat))
  match (← get).take 2 with
  | ['0', 'x'] => based 16 fun c => (Json.hexValue? c).isSome
  | ['0', 'o'] => based 8 fun c => '0' ≤ c && c ≤ '7'
  | ['0', 'b'] => based 2 fun c => c == '0' || c == '1'
  | _ => do
    let negative ← minus
    let n : Int := Text.ofDigits (← wholePart)
    liftM (word? (if negative then -n else n))

/-- The least significand of 309 digits that rounds to infinity in 64-bit floating point. -/
def doubleLimit : Nat :=
  Nat.pow 2 1024 - Nat.pow 2 970

/-- Whether `n` times ten to a power rounds to infinity in 64-bit floating point. The number of digits
settles it unless it is close. -/
def overflows (n : Nat) (power : Int) : Bool :=
  let size : Int := power + (Text.digits n).length
  if n = 0 ∨ size < 300 then false
  else if 320 < size then true
  else doubleLimit * Nat.pow 10 (-power).toNat ≤ n * Nat.pow 10 power.toNat

/-- Takes a power of ten. -/
def power : Scanner Int := do
  let _ ← oneOf fun c => c == 'e' || c == 'E'
  let negative ← minus
  let n : Int := Text.ofDigits (← digits Text.isDigit)
  return if negative then -n else n

/-- Takes a number with a fraction, a power of ten, or both. A positive one must not be too large. -/
def decimal : Scanner Unit := do
  let negative ← minus
  let whole ← wholePart
  let places ← optional do
    char '.'
    digits Text.isDigit
  let exponent ← optional power
  guard (places.isSome || exponent.isSome)
  let places := places.getD []
  let n := Text.ofDigits (whole ++ places)
  guard (negative || !overflows n (exponent.getD 0 - places.length))

/-- Takes infinity or not-a-number, with or without a sign. -/
def special : Scanner Unit := do
  let _ ← minus
  literal ['i', 'n', 'f'] <|> literal ['n', 'a', 'n']

/-- Takes a time of day. -/
def timeOfDay : Scanner Unit := do
  let hour ← digitsExactly 2
  char ':'
  let minute ← digitsExactly 2
  char ':'
  let second ← digitsExactly 2
  guard (hour ≤ 23 && minute ≤ 59 && second ≤ 60)
  let _ ← optional do
    char '.'
    oneOrMore Text.isDigit

/-- Takes an offset from UTC. -/
def offset : Scanner Unit :=
  (do let _ ← oneOf fun c => c == 'Z' || c == 'z') <|> do
    let _ ← oneOf fun c => c == '+' || c == '-'
    let hour ← digitsExactly 2
    char ':'
    let minute ← digitsExactly 2
    guard (hour ≤ 23 && minute ≤ 59)

/-- Takes a date, which may be followed by a time of day and an offset, or a time of day. -/
def date : Scanner Unit :=
  (do
    let year ← digitsExactly 4
    char '-'
    let month ← digitsExactly 2
    char '-'
    let day ← digitsExactly 2
    guard (Date.of? year month day).isSome
    let _ ← optional do
      let _ ← oneOf fun c => c == 'T' || c == 't' || c == ' '
      timeOfDay
      let _ ← optional offset) <|> timeOfDay

end PipelineEditor.Toml
