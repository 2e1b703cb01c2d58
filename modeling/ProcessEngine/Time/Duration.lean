import ProcessEngine.Json.Reader
import ProcessEngine.Time.Instant

/-!
# Durations

ISO 8601 durations `P[nY][nM][nW][nD][T[nH][nM][nS]]`, where `n` may have a
fraction.  `Duration.parse` gives the components as they are written and
`Duration.millis` their length, with years of 365 and months of 30 days.
-/

namespace ProcessEngine

/-- A written number: `digits / 10 ^ places`. -/
structure Amount where
  digits : Nat
  places : Nat
deriving Repr, DecidableEq

/-- The nearest float. -/
def Amount.toFloat (a : Amount) : Float := Float.ofScientific a.digits true a.places

/-- The components after the time designator. -/
structure ClockPart where
  hours : Option Amount
  minutes : Option Amount
  seconds : Option Amount
deriving Repr, DecidableEq

/-- The components of a duration. -/
structure Duration where
  years : Option Amount
  months : Option Amount
  weeks : Option Amount
  days : Option Amount
  clock : Option ClockPart
deriving Repr, DecidableEq

/-- Why a text gives no duration. -/
inductive DurationError where
  | notIso (text : String)
  | bareTime
  | noComponents
  | outOfRange (text : String)
deriving Repr, DecidableEq

/-- The text of a duration error. -/
def DurationError.message : DurationError → String
  | notIso text => "'" ++ text ++ "' is not an ISO-8601 duration"
  | bareTime => "time designator 'T' without components"
  | noComponents => "duration has no components"
  | outOfRange text => "duration '" ++ text ++ "' is out of range"

namespace Duration

/-- A number and the designator after it, or nothing at all. -/
def readAmount (designator : Char) (cs : List Char) : Option Amount × List Char :=
  let (whole, rest) := Json.readDigits cs
  let (fraction, rest) :=
    match rest with
    | c :: after =>
      if c = '.' ∨ c = ',' then
        let (fraction, after) := Json.readDigits after
        if fraction.isEmpty then ([], rest) else (fraction, after)
      else ([], rest)
    | [] => ([], [])
  match rest with
  | c :: rest =>
    if c = designator ∧ !whole.isEmpty then
      (some ⟨Text.natOfDigits (whole ++ fraction), fraction.length⟩, rest)
    else (none, cs)
  | [] => (none, cs)

/-- The components after the time designator. -/
def readClock (cs : List Char) : ClockPart × List Char :=
  let (hours, cs) := readAmount 'H' cs
  let (minutes, cs) := readAmount 'M' cs
  let (seconds, cs) := readAmount 'S' cs
  (⟨hours, minutes, seconds⟩, cs)

/-- All components of a duration; `none` if the text has not that form. -/
def read? : List Char → Option Duration
  | 'P' :: cs =>
    let (years, cs) := readAmount 'Y' cs
    let (months, cs) := readAmount 'M' cs
    let (weeks, cs) := readAmount 'W' cs
    let (days, cs) := readAmount 'D' cs
    match cs with
    | [] => some ⟨years, months, weeks, days, none⟩
    | 'T' :: cs =>
      match readClock cs with
      | (clock, []) => some ⟨years, months, weeks, days, some clock⟩
      | _ => none
    | _ => none
  | _ => none

/-- The components that a text without outer blanks gives; at least one has to
be there, and at least one after a time designator. -/
def parse (text : String) : Except DurationError Duration :=
  match read? text.toList with
  | none => .error (.notIso text)
  | some d =>
    match d.clock with
    | some ⟨none, none, none⟩ => .error .bareTime
    | some _ => .ok d
    | none =>
      if d.years.isNone && d.months.isNone && d.weeks.isNone && d.days.isNone then
        .error .noComponents
      else .ok d

/-- The float of a component, zero where it is absent. -/
def part (a : Option Amount) : Float := (a.map Amount.toFloat).getD 0.0

/-- The milliseconds of a second. -/
def secondMillis : Float := 1000.0

/-- The milliseconds of a minute. -/
def minuteMillis : Float := 60.0 * secondMillis

/-- The milliseconds of an hour. -/
def hourMillis : Float := 60.0 * minuteMillis

/-- The milliseconds of a day. -/
def dayMillis : Float := 24.0 * hourMillis

/-- The length in milliseconds, summed from the years to the seconds. -/
def weight (d : Duration) : Float :=
  let clock := d.clock.getD ⟨none, none, none⟩
  part d.years * 365.0 * dayMillis + part d.months * 30.0 * dayMillis +
    part d.weeks * 7.0 * dayMillis + part d.days * dayMillis +
    part clock.hours * hourMillis + part clock.minutes * minuteMillis +
    part clock.seconds * secondMillis

/-- The whole number nearest to a float that is not negative; a half rounds up. -/
def nearest (x : Float) : Nat :=
  let whole := x.toUInt64
  if 0.5 ≤ x - whole.toFloat then whole.toNat + 1 else whole.toNat

/-- The whole milliseconds of a duration text; a half rounds up, and anything
above `10 ^ 15` is refused. -/
def millis (text : String) : Except DurationError Int :=
  let text := Text.trim text
  match parse text with
  | .error e => .error e
  | .ok d =>
    let ms := d.weight
    if ms.isNaN || ms.isInf || decide (1.0e15 < ms) then .error (.outOfRange text)
    else .ok (nearest ms)

end Duration

/-- A timer fires strictly after its due time. -/
def isDue (now dueAt : Instant) : Bool := dueAt.before now

end ProcessEngine
