/-! Natural numbers as runs of ASCII decimal digits, most significant first. -/
namespace PipelineEditor.Text

/-- The ASCII digits. -/
def isDigit (c : Char) : Bool :=
  '0' ≤ c && c ≤ '9'

/-- The value of one digit. -/
def digitValue (c : Char) : Nat :=
  c.toNat - '0'.toNat

/-- The digits of a number, without leading zeros; zero is the digit 0. -/
def digits (n : Nat) : List Char :=
  Nat.toDigits 10 n

/-- The number that a run of digits stands for. -/
def ofDigits (s : List Char) : Nat :=
  Nat.ofDigitChars 10 s 0

theorem ofDigits_digits (n : Nat) : ofDigits (digits n) = n :=
  Nat.ofDigitChars_toDigits (by decide) (by decide)

/-- A number below ten as a digit; of a larger one the last digit. -/
def digitOf (n : Nat) : Fin 10 :=
  ⟨n % 10, Nat.mod_lt n (by decide)⟩

/-- The digit that a character stands for. -/
def digitOfChar (c : Char) : Fin 10 :=
  digitOf (digitValue c)

/-- The digits of a number as values. -/
def digitValues (n : Nat) : List (Fin 10) :=
  (digits n).map digitOfChar

/-- The number that a list of digit values stands for. -/
def ofDigitValues (ds : List (Fin 10)) : Nat :=
  ds.foldl (fun n d => n * 10 + d.val) 0

/-- The character of a digit value. -/
def digitChar (d : Fin 10) : Char :=
  Char.ofNat ('0'.toNat + d)

/-- The longest run of digits a text starts with, and what follows it. -/
def spanDigits (s : List Char) : List Char × List Char :=
  (s.takeWhile isDigit, s.dropWhile isDigit)

/-- The decimal text of a whole number, with a minus sign below zero. -/
def ofInt (i : Int) : String :=
  if i < 0 then "-" ++ String.ofList (digits i.natAbs) else String.ofList (digits i.natAbs)

/-- The decimal text of a natural number. -/
def ofNat (n : Nat) : String :=
  String.ofList (digits n)

end PipelineEditor.Text
