import ProcessEngine.Text.Blank

/-!
# Instants

Points of time in UTC to the nanosecond.  `Instant.text` writes one as
RFC 3339 with the fewest groups of three fraction digits that are exact, and
`Instant.parse?` reads RFC 3339 with any offset.

Dates follow the Gregorian calendar in both directions; `daysOfDate` counts
from 1970-01-01, with years counted from March so that the leap day is the
last day of its year.
-/

namespace ProcessEngine

/-- Seconds since 1970-01-01T00:00:00Z and nanoseconds into the second.  During
a leap second the nanoseconds go on past `10 ^ 9`. -/
structure Instant where
  second : Int
  nano : Nat
deriving Repr, DecidableEq

namespace Instant

/-- The instant some milliseconds after the epoch. -/
def ofMillis (ms : Int) : Instant := ⟨ms.fdiv 1000, (ms.fmod 1000).toNat * 1000000⟩

/-- The instant some milliseconds later. -/
def addMillis (t : Instant) (ms : Int) : Instant :=
  let nanos : Int := t.nano + ms.fmod 1000 * 1000000
  ⟨t.second + ms.fdiv 1000 + nanos / 1000000000, (nanos % 1000000000).toNat⟩

/-- Whether one instant comes before another. -/
def before (a b : Instant) : Bool :=
  decide (a.second < b.second) || (a.second == b.second && decide (a.nano < b.nano))

end Instant

/-- A day of the calendar. -/
structure Date where
  year : Int
  month : Nat
  day : Nat
deriving Repr, DecidableEq

/-- The days from 1970-01-01 to a date. -/
def daysOfDate (d : Date) : Int :=
  let year : Int := if d.month ≤ 2 then d.year - 1 else d.year
  let era := year.fdiv 400
  let yearOfEra := year.fmod 400
  let monthFromMarch := (d.month + 9) % 12
  let dayOfYear : Int := (153 * monthFromMarch + 2) / 5 + (d.day - 1 : Nat)
  let dayOfEra := yearOfEra * 365 + yearOfEra / 4 - yearOfEra / 100 + dayOfYear
  era * 146097 + dayOfEra - 719468

/-- The date some days after 1970-01-01. -/
def dateOfDays (n : Int) : Date :=
  let days := n + 719468
  let era := days.fdiv 146097
  let dayOfEra := (days.fmod 146097).toNat
  let yearOfEra :=
    (dayOfEra - dayOfEra / 1460 + dayOfEra / 36524 - dayOfEra / 146096) / 365
  let dayOfYear := dayOfEra - (365 * yearOfEra + yearOfEra / 4 - yearOfEra / 100)
  let monthFromMarch := (5 * dayOfYear + 2) / 153
  let day := dayOfYear - (153 * monthFromMarch + 2) / 5 + 1
  let month := if monthFromMarch < 10 then monthFromMarch + 3 else monthFromMarch - 9
  let year : Int := yearOfEra + era * 400
  ⟨if month ≤ 2 then year + 1 else year, month, day⟩

/-- Whether a year has a leap day. -/
def isLeapYear (year : Int) : Bool :=
  year % 4 == 0 && (year % 100 != 0 || year % 400 == 0)

/-- The number of days of a month. -/
def daysInMonth (year : Int) (month : Nat) : Nat :=
  if month = 2 then (if isLeapYear year then 29 else 28)
  else if month ∈ [4, 6, 9, 11] then 30
  else 31

/-- A number in decimal with leading zeros up to a width. -/
def padded (width n : Nat) : String :=
  let digits := toString n
  String.ofList (List.replicate (width - digits.length) '0') ++ digits

/-- A year: four digits, with a sign outside 0 to 9999. -/
def yearText (year : Int) : String :=
  if 0 ≤ year ∧ year ≤ 9999 then padded 4 year.toNat
  else (if year < 0 then "-" else "+") ++ padded 4 year.natAbs

/-- A fraction of a second with three, six or nine digits, or none if it is
zero. -/
def fractionText (nano : Nat) : String :=
  if nano = 0 then ""
  else if nano % 1000000 = 0 then "." ++ padded 3 (nano / 1000000)
  else if nano % 1000 = 0 then "." ++ padded 6 (nano / 1000)
  else "." ++ padded 9 nano

namespace Instant

/-- The instant in RFC 3339, in UTC with `Z`. -/
def text (t : Instant) : String :=
  let date := dateOfDays (t.second.fdiv 86400)
  let inDay := (t.second.fmod 86400).toNat
  let leap := t.nano / 1000000000
  yearText date.year ++ "-" ++ padded 2 date.month ++ "-" ++ padded 2 date.day ++ "T" ++
    padded 2 (inDay / 3600) ++ ":" ++ padded 2 (inDay / 60 % 60) ++ ":" ++
    padded 2 (inDay % 60 + leap) ++ fractionText (t.nano % 1000000000) ++ "Z"

/-! ## Reading -/

/-- The text after its leading blanks. -/
def skipBlank (cs : List Char) : List Char := cs.dropWhile Text.isBlank

/-- A number of at least one and at most `most` digits. -/
def readNat (most : Nat) (cs : List Char) : Option (Nat × List Char) :=
  let ds := (cs.take most).takeWhile Text.isDigit
  if ds.isEmpty then none else some (Text.natOfDigits ds, cs.drop ds.length)

/-- A number after blanks. -/
def readField (most : Nat) (cs : List Char) : Option (Nat × List Char) :=
  readNat most (skipBlank cs)

/-- A year after blanks: up to four digits, or any number of them after a
sign. -/
def readYear (cs : List Char) : Option (Int × List Char) :=
  match skipBlank cs with
  | '-' :: rest => (readNat rest.length rest).map fun (n, rest) => (-(n : Int), rest)
  | '+' :: rest => (readNat rest.length rest).map fun (n, rest) => (n, rest)
  | rest => (readNat 4 rest).map fun (n, rest) => (n, rest)

/-- A separator after blanks. -/
def readMark (mark : Char) (cs : List Char) : Option (List Char) :=
  match skipBlank cs with
  | c :: rest => if c = mark then some rest else none
  | [] => none

/-- A fraction after its point, in nanoseconds; digits past the ninth are
dropped. -/
def readFraction (cs : List Char) : Option (Nat × List Char) :=
  match cs with
  | '.' :: rest =>
    let ds := rest.takeWhile Text.isDigit
    if ds.isEmpty then none
    else
      let kept := ds.take 9
      some (Text.natOfDigits kept * 10 ^ (9 - kept.length), rest.drop ds.length)
  | _ => some (0, cs)

/-- Two digits. -/
def readPair (cs : List Char) : Option (Nat × List Char) :=
  match cs with
  | a :: b :: rest =>
    if Text.isDigit a && Text.isDigit b then
      some (10 * Text.digitValue a + Text.digitValue b, rest)
    else none
  | _ => none

/-- Hours and minutes of an offset after its sign, in seconds. -/
def readOffsetSize (cs : List Char) : Option (Nat × List Char) := do
  let (hours, rest) ← readPair cs
  let (minutes, rest) ← readPair (rest.dropWhile fun c => c == ':' || Text.isBlank c)
  if minutes < 60 ∧ hours < 24 then some (hours * 3600 + minutes * 60, rest) else none

/-- The offset from UTC in seconds. -/
def readOffset (cs : List Char) : Option (Int × List Char) :=
  match cs with
  | 'Z' :: rest => some (0, rest)
  | 'z' :: rest => some (0, rest)
  | '+' :: rest => (readOffsetSize rest).map fun (n, rest) => (n, rest)
  | '-' :: rest => (readOffsetSize rest).map fun (n, rest) => (-(n : Int), rest)
  | '\u2212' :: rest => (readOffsetSize rest).map fun (n, rest) => (-(n : Int), rest)
  | a :: b :: c :: rest =>
    if a.toUpper = 'U' ∧ b.toUpper = 'T' ∧ c.toUpper = 'C' then some (0, rest) else none
  | _ => none

/-- The years that a date can have. -/
def yearInRange (year : Int) : Bool := decide (-262143 ≤ year ∧ year ≤ 262142)

/-- The instant that a text gives in RFC 3339.  Both the date it gives and the
one in UTC have to be in range. -/
def parse? (text : String) : Option Instant := do
  let (year, rest) ← readYear text.toList
  let rest ← readMark '-' rest
  let (month, rest) ← readField 2 rest
  let rest ← readMark '-' rest
  let (day, rest) ← readField 2 rest
  let rest ←
    match rest with
    | c :: rest => if c = 'T' ∨ c = 't' ∨ c = ' ' then some rest else none
    | [] => none
  let (hour, rest) ← readField 2 rest
  let rest ← readMark ':' rest
  let (minute, rest) ← readField 2 rest
  let rest ← readMark ':' rest
  let (second, rest) ← readField 2 rest
  let (nano, rest) ← readFraction rest
  let (offset, rest) ← readOffset (skipBlank rest)
  if (skipBlank rest).isEmpty && yearInRange year && decide (1 ≤ month ∧ month ≤ 12)
      && decide (1 ≤ day ∧ day ≤ daysInMonth year month) && decide (hour < 24)
      && decide (minute < 60) && decide (second ≤ 60) then
    let leap := if second = 60 then 1 else 0
    let inDay : Int := hour * 3600 + minute * 60 + (second - leap : Nat)
    let total := daysOfDate ⟨year, month, day⟩ * 86400 + inDay - offset
    if yearInRange (dateOfDays (total.fdiv 86400)).year then
      some ⟨total, nano + leap * 1000000000⟩
    else none
  else none

end Instant

end ProcessEngine
