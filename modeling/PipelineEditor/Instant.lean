import PipelineEditor.Text.Scanner

/-! Points in time, in UTC and to the nanosecond, and their RFC 3339 texts. -/
namespace PipelineEditor

/-- A day of the Gregorian calendar, carried on before its start. -/
structure Date where
  year : Int
  month : Nat
  day : Nat
deriving DecidableEq, Repr

namespace Date

def isLeap (year : Int) : Bool :=
  year % 4 = 0 && (year % 100 ≠ 0 || year % 400 = 0)

/-- The number of days of a month. -/
def monthLength (year : Int) (month : Nat) : Nat :=
  if month = 2 then if isLeap year then 29 else 28
  else if month = 4 ∨ month = 6 ∨ month = 9 ∨ month = 11 then 30 else 31

/-- The years that can be told apart. -/
def inRange (year : Int) : Bool :=
  -262143 ≤ year && year ≤ 262142

/-- A date that exists. -/
def of? (year : Int) (month day : Nat) : Option Date :=
  if inRange year ∧ 1 ≤ month ∧ month ≤ 12 ∧ 1 ≤ day ∧ day ≤ monthLength year month then
    some ⟨year, month, day⟩
  else none

/-- The day after. -/
def next (d : Date) : Date :=
  if d.day < monthLength d.year d.month then ⟨d.year, d.month, d.day + 1⟩
  else if d.month < 12 then ⟨d.year, d.month + 1, 1⟩
  else ⟨d.year + 1, 1, 1⟩

/-- The day before. -/
def previous (d : Date) : Date :=
  if 1 < d.day then ⟨d.year, d.month, d.day - 1⟩
  else if 1 < d.month then ⟨d.year, d.month - 1, monthLength d.year (d.month - 1)⟩
  else ⟨d.year - 1, 12, 31⟩

end Date

/-- A point in time: a date, the minute of its day, a second up to 60 and a nanosecond. -/
structure Instant where
  date : Date
  minute : Nat
  second : Nat
  nanosecond : Nat
deriving DecidableEq, Repr

namespace Instant

/-- The minutes of a day. -/
def dayMinutes : Nat := 1440

/-- The instant in UTC of a clock that is `offset` minutes ahead. -/
def ofLocal? (clock : Instant) (offset : Int) : Option Instant :=
  let minute : Int := clock.minute - offset
  let moved : Instant :=
    if minute < 0 then
      ⟨clock.date.previous, (minute + dayMinutes).toNat, clock.second, clock.nanosecond⟩
    else if dayMinutes ≤ minute then
      ⟨clock.date.next, (minute - dayMinutes).toNat, clock.second, clock.nanosecond⟩
    else ⟨clock.date, minute.toNat, clock.second, clock.nanosecond⟩
  if offset.natAbs < dayMinutes ∧ Date.inRange moved.date.year then some moved else none

/-! Reading. -/

open Text (Scanner)
open Text.Scanner

/-- Takes a number of one or two digits behind white space. -/
def pair : Scanner Nat := do
  blanks
  Text.ofDigits <$> digitsUpTo 2

/-- Takes a year: up to four digits, or a sign and any number of them. -/
def year : Scanner Int := do
  blanks
  let s ← get
  match s with
  | '-' :: rest =>
    set rest
    return -(Text.ofDigits (← digitsUpTo rest.length))
  | '+' :: rest =>
    set rest
    return Text.ofDigits (← digitsUpTo rest.length)
  | _ => return Text.ofDigits (← digitsUpTo 4)

/-- Takes a fraction of a second in nanoseconds, if a point follows; digits after the ninth are
passed over. -/
def fraction : Scanner Nat := do
  match ← get with
  | '.' :: rest =>
    set rest
    let ds ← digitsUpTo rest.length
    let kept := ds.take 9
    return Text.ofDigits kept * Nat.pow 10 (9 - kept.length)
  | _ => return 0

/-- Takes an offset from UTC in minutes: `Z` or `UTC` of any case, or a sign, hours and minutes,
between which colons and white space may stand. -/
def offset : Scanner Int := do
  let s ← get
  if (s.take 3).map Char.toLower = ['u', 't', 'c'] then
    set (s.drop 3)
    return 0
  match s with
  | c :: rest =>
    set rest
    if c = 'Z' ∨ c = 'z' then return 0
    else if c = '+' ∨ c = '-' ∨ c = '\u2212' then
      let hours ← digitsExactly 2
      skipWhile fun c => c == ':' || Text.isBlank c
      let minutes ← digitsExactly 2
      guard (minutes < 60)
      let total : Int := hours * 60 + minutes
      return if c = '+' then total else -total
    else failure
  | [] => failure

/-- Takes a date, a time of day and an offset, and gives the instant in UTC. -/
def dateTime : Scanner Instant := do
  let y ← year
  blanks; char '-'
  let month ← pair
  blanks; char '-'
  let day ← pair
  let _ ← oneOf fun c => c == 'T' || c == 't' || c == ' '
  let hour ← pair
  blanks; char ':'
  let minute ← pair
  blanks; char ':'
  let second ← pair
  let nanosecond ← fraction
  blanks
  let ahead ← offset
  blanks
  let date ← liftM (Date.of? y month day)
  guard (hour ≤ 23 && minute ≤ 59 && second ≤ 60)
  liftM (ofLocal? ⟨date, hour * 60 + minute, second, nanosecond⟩ ahead)

/-- The instant that a text names, if it holds nothing else. -/
def parse? (text : String) : Option Instant :=
  dateTime.whole? text.toList

/-! Writing. -/

/-- A number with at least `width` digits. -/
def padded (width n : Nat) : List Char :=
  let ds := Text.digits n
  List.replicate (width - ds.length) '0' ++ ds

/-- A year has four digits, or a sign and at least four when it is outside 0 to 9999. -/
def yearText (year : Int) : List Char :=
  if 0 ≤ year ∧ year ≤ 9999 then padded 4 year.natAbs
  else (if year < 0 then '-' else '+') :: padded 4 year.natAbs

/-- Nanoseconds have as many digits out of 0, 3, 6 and 9 as they need. -/
def fractionText (nanosecond : Nat) : List Char :=
  if nanosecond = 0 then []
  else if nanosecond % 1000000 = 0 then '.' :: padded 3 (nanosecond / 1000000)
  else if nanosecond % 1000 = 0 then '.' :: padded 6 (nanosecond / 1000)
  else '.' :: padded 9 nanosecond

/-- The text of an instant, in UTC. -/
def text (t : Instant) : String :=
  String.ofList (yearText t.date.year ++ '-' :: padded 2 t.date.month ++ '-' :: padded 2 t.date.day ++
    'T' :: padded 2 (t.minute / 60) ++ ':' :: padded 2 (t.minute % 60) ++ ':' :: padded 2 t.second ++
    fractionText t.nanosecond ++ ['Z'])

end Instant
end PipelineEditor
