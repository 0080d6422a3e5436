import Picklist.Reader
import Picklist.Text

/-!
# Dates and times of TOML

A moment is a date, a time of day, or both, and then perhaps a distance from universal time.

* `Moment.text`: the text that stands for a moment in documents.
* `moment`: reads one; dates must be on the calendar.
-/

namespace Picklist.Toml

open Reader

/-! ## 1. Moments -/

/-- A day of the calendar. -/
structure Date where
  year : Nat
  month : Nat
  day : Nat
deriving DecidableEq

/-- A time of day. -/
structure Time where
  hour : Nat
  minute : Nat
  second : Nat
  nanosecond : Nat
deriving DecidableEq

/-- The distance from universal time. -/
inductive Offset where
  | universal
  | minutes (m : Int)
deriving DecidableEq

/-- A date, a time, or a date and a time with an optional offset. -/
inductive Moment where
  | date (d : Date)
  | time (t : Time)
  | dateTime (d : Date) (t : Time) (offset : Option Offset)
deriving DecidableEq

/-- Whether February has 29 days. -/
def isLeapYear (year : Nat) : Bool := year % 4 = 0 && (year % 100 ≠ 0 || year % 400 = 0)

/-- The number of days of a month. -/
def daysOf (year month : Nat) : Nat :=
  if month = 2 then (if isLeapYear year then 29 else 28)
  else if month = 4 ∨ month = 6 ∨ month = 9 ∨ month = 11 then 30
  else 31

/-- Whether the calendar has the day. -/
def Date.isValid (d : Date) : Bool :=
  1 ≤ d.month && d.month ≤ 12 && 1 ≤ d.day && d.day ≤ daysOf d.year d.month

/-- Whether a day has the time; a minute can have a leap second. -/
def Time.isValid (t : Time) : Bool := t.hour ≤ 23 && t.minute ≤ 59 && t.second ≤ 60

/-! ## 2. Text -/

/-- A number with zeros in front, up to the width. -/
def padded (width n : Nat) : List Char :=
  let digits := Nat.toDigits 10 n
  List.replicate (width - digits.length) '0' ++ digits

/-- The text of a date. -/
def Date.text (d : Date) : List Char :=
  padded 4 d.year ++ '-' :: padded 2 d.month ++ '-' :: padded 2 d.day

/-- The text of a time; the fraction of a second has no zeros at its end. -/
def Time.text (t : Time) : List Char :=
  padded 2 t.hour ++ ':' :: padded 2 t.minute ++ ':' :: padded 2 t.second ++
    if t.nanosecond = 0 then []
    else '.' :: ((padded 9 t.nanosecond).reverse.dropWhile (· == '0')).reverse

/-- The text of an offset. -/
def Offset.text : Offset → List Char
  | .universal => ['Z']
  | .minutes m =>
    (if m < 0 then '-' else '+') :: padded 2 (m.natAbs / 60) ++ ':' :: padded 2 (m.natAbs % 60)

/-- The text of a moment. -/
def Moment.text : Moment → List Char
  | .date d => d.text
  | .time t => t.text
  | .dateTime d t offset => d.text ++ 'T' :: t.text ++ offset.elim [] Offset.text

/-! ## 3. Reading -/

/-- A number of exactly so many digits. -/
def fixed (width : Nat) : Reader Char Nat := fun input =>
  let front := input.take width
  if front.length = width then (Text.numeral? 10 front).map (·, input.drop width) else none

/-- A day of the calendar. -/
def date : Reader Char Date := do
  let year ← fixed 4
  expect '-'
  let month ← fixed 2
  expect '-'
  let d : Date := ⟨year, month, ← fixed 2⟩
  if d.isValid then return d else refuse

/-- The fraction of a second after its point, in nanoseconds; further digits are cut off. -/
def nanoseconds : Reader Char Nat := do
  let digits := (← takeSome Char.isDigit).take 9
  require (Text.numeral? 10 (digits ++ List.replicate (9 - digits.length) '0'))

/-- A time of day. -/
def time : Reader Char Time := do
  let hour ← fixed 2
  expect ':'
  let minute ← fixed 2
  expect ':'
  let second ← fixed 2
  let fraction ← if ← accept '.' then nanoseconds else pure 0
  let t : Time := ⟨hour, minute, second, fraction⟩
  if t.isValid then return t else refuse

/-- A distance from universal time in hours and minutes, after its sign. -/
def distance : Reader Char Nat := do
  let hour ← fixed 2
  expect ':'
  let minute ← fixed 2
  if hour ≤ 23 && minute ≤ 59 then return hour * 60 + minute else refuse

/-- An offset, if there is one. -/
def offset : Reader Char (Option Offset) := do
  match ← peek with
  | some 'Z' => let _ ← next; return some .universal
  | some 'z' => let _ ← next; return some .universal
  | some '+' => let _ ← next; return some (.minutes (← distance))
  | some '-' => let _ ← next; return some (.minutes (-((← distance : Nat) : Int)))
  | _ => return none

/-- What goes with a date: a separator, a time, and perhaps an offset. -/
def timeOfDate : Reader Char (Time × Option Offset) := do
  let separator ← next
  if separator = 'T' || separator = 't' || separator = ' ' then return (← time, ← offset)
  else refuse

/-- A moment; a blank after a date belongs to it only where a time follows. -/
def moment : Reader Char Moment := do
  match ← attempt date with
  | some d =>
    match ← attempt timeOfDate with
    | some (t, o) => return .dateTime d t o
    | none => return .date d
  | none => return .time (← time)

end Picklist.Toml
