import Mathlib.Data.List.TakeWhile
import ProcessEngine.Time.Duration

/-!
# Durations as they are written

A written duration is `P`, then up to four numbers with the designators `Y`,
`M`, `W` and `D` in this order, and maybe `T` with up to three numbers behind it
for `H`, `M` and `S`.  A number is a row of digits, or two of them with a point
or a comma between.

The reader asks for one designator after the other.  It takes the number in
front of it and gives it back where another designator follows, so a component
is either read or passed over as a whole (`readAmount_component`, `Passed`).

Main statement: `millis_eq`, which says for each text what becomes of it.
-/

namespace ProcessEngine

namespace Text

theorem natOfDigits_append (cs ds : List Char) :
    natOfDigits (cs ++ ds) = natOfDigits cs * 10 ^ ds.length + natOfDigits ds := by
  have hfold (n : Nat) : ds.foldl (fun n c => 10 * n + digitValue c) n =
      n * 10 ^ ds.length + natOfDigits ds := by
    unfold natOfDigits
    induction ds generalizing n with
    | nil => simp
    | cons d ds ih =>
        simp only [List.foldl_cons, List.length_cons, ih (10 * n + digitValue d),
          ih (10 * 0 + digitValue d), Nat.pow_succ]
        grind
  rw [natOfDigits, List.foldl_append, hfold]
  rfl

end Text

namespace Duration

/-! ## The written form -/

/-- One or more digits. -/
structure Digits where
  chars : List Char
  ne_nil : chars ≠ []
  isDigit : ∀ c ∈ chars, Text.isDigit c = true

/-- What may stand in front of a fraction. -/
inductive DecimalMark where
  | point
  | comma
deriving Repr, DecidableEq

/-- The character of a decimal mark. -/
def DecimalMark.char : DecimalMark → Char
  | point => '.'
  | comma => ','

/-- A number as it is written. -/
structure Numeral where
  whole : Digits
  fraction : Option (DecimalMark × Digits)

/-- The characters of a number. -/
def Numeral.chars (n : Numeral) : List Char :=
  match n.fraction with
  | none => n.whole.chars
  | some (mark, digits) => n.whole.chars ++ mark.char :: digits.chars

/-- The number that is written. -/
def Numeral.amount (n : Numeral) : Amount :=
  match n.fraction with
  | none => ⟨Text.natOfDigits n.whole.chars, 0⟩
  | some (_, digits) =>
    ⟨Text.natOfDigits n.whole.chars * 10 ^ digits.chars.length + Text.natOfDigits digits.chars,
      digits.chars.length⟩

/-- A component with its designator, or nothing where it is absent. -/
def component (designator : Char) : Option Numeral → List Char
  | none => []
  | some n => n.chars ++ [designator]

/-- The components behind the time designator as they are written. -/
@[ext]
structure WrittenClock where
  hours : Option Numeral
  minutes : Option Numeral
  seconds : Option Numeral

/-- A duration as it is written. -/
@[ext]
structure Written where
  years : Option Numeral
  months : Option Numeral
  weeks : Option Numeral
  days : Option Numeral
  clock : Option WrittenClock

/-- The characters behind the time designator. -/
def WrittenClock.chars (c : WrittenClock) : List Char :=
  component 'H' c.hours ++ component 'M' c.minutes ++ component 'S' c.seconds

/-- The characters of a duration. -/
def Written.chars (w : Written) : List Char :=
  ['P'] ++ component 'Y' w.years ++ component 'M' w.months ++ component 'W' w.weeks ++
    component 'D' w.days ++ (w.clock.map fun c => 'T' :: c.chars).getD []

/-- The components that are written, each under its own designator. -/
def Written.duration (w : Written) : Duration where
  years := w.years.map Numeral.amount
  months := w.months.map Numeral.amount
  weeks := w.weeks.map Numeral.amount
  days := w.days.map Numeral.amount
  clock := w.clock.map fun c =>
    ⟨c.hours.map Numeral.amount, c.minutes.map Numeral.amount, c.seconds.map Numeral.amount⟩

/-! ## One component -/

/-- A character that belongs to no number. -/
structure Plain (c : Char) : Prop where
  not_digit : Text.isDigit c = false
  not_point : c ≠ '.'
  not_comma : c ≠ ','

section Amounts

variable {designator other c : Char} {cs rest : List Char} {n : Option Numeral}

theorem DecimalMark.not_digit (mark : DecimalMark) : Text.isDigit mark.char = false := by
  cases mark <;> decide

theorem DecimalMark.eq_or (mark : DecimalMark) : mark.char = '.' ∨ mark.char = ',' := by
  cases mark <;> decide

theorem Digits.read (ds : Digits) (hc : Text.isDigit c = false) :
    Json.readDigits (ds.chars ++ c :: rest) = (ds.chars, c :: rest) := by
  rw [Json.readDigits, List.takeWhile_append_of_pos ds.isDigit,
    List.dropWhile_append_of_pos ds.isDigit]
  simp [hc]

theorem Digits.isEmpty (ds : Digits) : ds.chars.isEmpty = false :=
  List.isEmpty_eq_false_iff.mpr ds.ne_nil

/-- A number is taken together with the designator behind it, or given back. -/
theorem readAmount_numeral (n : Numeral) (hc : Plain c) :
    readAmount designator (n.chars ++ c :: rest) =
      if c = designator then (some n.amount, rest) else (none, n.chars ++ c :: rest) := by
  obtain ⟨whole, fraction⟩ := n
  cases fraction with
  | none =>
      simp only [readAmount, Numeral.chars, Numeral.amount, whole.read hc.not_digit,
        hc.not_point, hc.not_comma, whole.isEmpty]
      simp
  | some part =>
      obtain ⟨mark, digits⟩ := part
      simp only [readAmount, Numeral.chars, Numeral.amount, List.append_assoc, List.cons_append,
        whole.read mark.not_digit, digits.read hc.not_digit, mark.eq_or, whole.isEmpty,
        digits.isEmpty, Text.natOfDigits_append]
      simp

/-- A text that does not begin with a digit is left alone. -/
theorem readAmount_of_not_digit (h : ∀ c ∈ cs.head?, Text.isDigit c = false) :
    readAmount designator cs = (none, cs) := by
  have hwhole : (Json.readDigits cs).1 = [] := by
    cases cs with
    | nil => rfl
    | cons c cs => simp [Json.readDigits, h c rfl]
  simp only [readAmount, hwhole]
  split <;> simp

/-- A text that has nothing for a designator at its front. -/
def Passed (designator : Char) (cs : List Char) : Prop := readAmount designator cs = (none, cs)

theorem passed_nil : Passed designator [] := readAmount_of_not_digit (by simp)

theorem passed_time : Passed designator ('T' :: cs) := readAmount_of_not_digit (by simp; decide)

theorem Passed.component (h : Passed designator rest) (hother : Plain other)
    (hne : other ≠ designator) : Passed designator (component other n ++ rest) := by
  cases n with
  | none => exact h
  | some n =>
      rw [Duration.component, List.append_assoc, List.singleton_append, Passed,
        readAmount_numeral n hother, if_neg hne]

theorem readAmount_component (h : Passed designator rest) (hplain : Plain designator) :
    readAmount designator (component designator n ++ rest) = (n.map Numeral.amount, rest) := by
  cases n with
  | none => exact h
  | some n =>
      rw [component, List.append_assoc, List.singleton_append, readAmount_numeral n hplain,
        if_pos rfl]
      rfl

/-- The fraction at the front of a text, without its mark, and the rest. -/
def readFraction (cs : List Char) : List Char × List Char :=
  match cs with
  | c :: after =>
    if c = '.' ∨ c = ',' then
      let (fraction, after) := Json.readDigits after
      if fraction.isEmpty then ([], cs) else (fraction, after)
    else ([], cs)
  | [] => ([], [])

theorem readAmount_eq (designator : Char) (cs : List Char) :
    readAmount designator cs =
      let whole := cs.takeWhile Text.isDigit
      let fraction := readFraction (cs.dropWhile Text.isDigit)
      match fraction.2 with
      | c :: rest =>
        if c = designator ∧ !whole.isEmpty then
          (some ⟨Text.natOfDigits (whole ++ fraction.1), fraction.1.length⟩, rest)
        else (none, cs)
      | [] => (none, cs) := by
  rw [readAmount]
  rfl

theorem exists_digits (h : (cs.takeWhile Text.isDigit).isEmpty = false) :
    ∃ ds : Digits, cs = ds.chars ++ cs.dropWhile Text.isDigit :=
  ⟨⟨cs.takeWhile Text.isDigit, List.isEmpty_eq_false_iff.mp h, fun _ => List.mem_takeWhile_imp⟩,
    List.takeWhile_append_dropWhile.symm⟩

theorem exists_fraction {fraction : List Char} (h : readFraction cs = (fraction, rest)) :
    cs = rest ∨ ∃ (mark : DecimalMark) (digits : Digits),
      cs = mark.char :: (digits.chars ++ rest) := by
  rw [readFraction.eq_def] at h
  split at h
  · rename_i c after
    split at h
    · rename_i hmark
      dsimp only at h
      split at h
      · exact .inl (Prod.mk.inj h).2
      · rename_i hdigits
        obtain ⟨mark, rfl⟩ : ∃ mark : DecimalMark, c = mark.char := by
          obtain rfl | rfl := hmark
          · exact ⟨.point, rfl⟩
          · exact ⟨.comma, rfl⟩
        obtain ⟨digits, hafter⟩ := exists_digits (Bool.eq_false_iff.mpr hdigits)
        obtain ⟨-, rfl⟩ := Prod.mk.inj h
        exact .inr ⟨mark, digits, congrArg (mark.char :: ·) hafter⟩
    · exact .inl (Prod.mk.inj h).2
  · exact .inl (Prod.mk.inj h).2

/-- What is read for a designator is a component with it, or nothing. -/
theorem exists_component {amount : Option Amount}
    (h : readAmount designator cs = (amount, rest)) :
    ∃ n, cs = component designator n ++ rest := by
  have hnone (heq : (none, cs) = (amount, rest)) : ∃ n, cs = component designator n ++ rest :=
    ⟨none, (Prod.mk.inj heq).2⟩
  rw [readAmount_eq] at h
  cases hfraction : readFraction (cs.dropWhile Text.isDigit) with
  | mk fraction after =>
  simp only [hfraction] at h
  split at h
  · rename_i c after
    split at h
    · rename_i hc
      obtain ⟨-, rfl⟩ := Prod.mk.inj h
      have hdigits : (cs.takeWhile Text.isDigit).isEmpty = false := by simpa using hc.2
      obtain ⟨whole, hcs⟩ := exists_digits hdigits
      obtain hrest | ⟨mark, digits, hrest⟩ := exists_fraction hfraction
      · refine ⟨some ⟨whole, none⟩, ?_⟩
        rw [hrest, hc.1] at hcs
        simpa [component, Numeral.chars] using hcs
      · refine ⟨some ⟨whole, some (mark, digits)⟩, ?_⟩
        rw [hrest, hc.1] at hcs
        simpa [component, Numeral.chars] using hcs
    · exact hnone h
  · exact hnone h

end Amounts

/-! ## The whole text -/

section Readings

variable {cs : List Char}

instance (c : Char) : Decidable (Plain c) :=
  decidable_of_iff (Text.isDigit c = false ∧ c ≠ '.' ∧ c ≠ ',')
    ⟨fun ⟨hdigit, hpoint, hcomma⟩ => ⟨hdigit, hpoint, hcomma⟩,
      fun h => ⟨h.not_digit, h.not_point, h.not_comma⟩⟩

/-- The components behind the time designator. -/
def WrittenClock.part (c : WrittenClock) : ClockPart :=
  ⟨c.hours.map Numeral.amount, c.minutes.map Numeral.amount, c.seconds.map Numeral.amount⟩

theorem readClock_written (c : WrittenClock) : readClock c.chars = (c.part, []) := by
  have hseconds (d : Char) (hd : 'S' ≠ d) : Passed d (component 'S' c.seconds ++ []) :=
    passed_nil.component (by decide) hd
  have hminutes (d : Char) (hd : 'M' ≠ d ∧ 'S' ≠ d) :
      Passed d (component 'M' c.minutes ++ (component 'S' c.seconds ++ [])) :=
    (hseconds d hd.2).component (by decide) hd.1
  have hchars : c.chars = component 'H' c.hours ++
      (component 'M' c.minutes ++ (component 'S' c.seconds ++ [])) := by
    simp [WrittenClock.chars]
  rw [hchars, readClock, readAmount_component (hminutes 'H' (by decide)) (by decide)]
  dsimp only
  rw [readAmount_component (hseconds 'M' (by decide)) (by decide)]
  dsimp only
  rw [readAmount_component passed_nil (by decide)]
  rfl

theorem read?_written (w : Written) : read? w.chars = some w.duration := by
  obtain ⟨years, months, weeks, days, clock⟩ := w
  generalize hclock : (clock.map fun c => 'T' :: c.chars).getD [] = tail
  have htail (d : Char) : Passed d tail := by
    subst hclock
    cases clock with
    | none => exact passed_nil
    | some c => exact passed_time
  have hdays (d : Char) (hd : 'D' ≠ d) : Passed d (component 'D' days ++ tail) :=
    (htail d).component (by decide) hd
  have hweeks (d : Char) (hd : 'W' ≠ d ∧ 'D' ≠ d) :
      Passed d (component 'W' weeks ++ (component 'D' days ++ tail)) :=
    (hdays d hd.2).component (by decide) hd.1
  have hmonths (d : Char) (hd : 'M' ≠ d ∧ 'W' ≠ d ∧ 'D' ≠ d) :
      Passed d (component 'M' months ++ (component 'W' weeks ++ (component 'D' days ++ tail))) :=
    (hweeks d hd.2).component (by decide) hd.1
  have hchars : Written.chars ⟨years, months, weeks, days, clock⟩ =
      'P' :: (component 'Y' years ++
        (component 'M' months ++ (component 'W' weeks ++ (component 'D' days ++ tail)))) := by
    simp [Written.chars, ← hclock]
  rw [hchars, read?, readAmount_component (hmonths 'Y' (by decide)) (by decide)]
  dsimp only
  rw [readAmount_component (hweeks 'M' (by decide)) (by decide)]
  dsimp only
  rw [readAmount_component (hdays 'W' (by decide)) (by decide)]
  dsimp only
  rw [readAmount_component (htail 'D') (by decide)]
  subst hclock
  cases clock with
  | none => rfl
  | some c =>
      simp only [Option.map_some, Option.getD_some, readClock_written]
      rfl

theorem exists_clock {part : ClockPart} (h : readClock cs = (part, [])) :
    ∃ c : WrittenClock, cs = c.chars := by
  rw [readClock] at h
  rcases hhours : readAmount 'H' cs with ⟨_, afterHours⟩
  rw [hhours] at h
  dsimp only at h
  rcases hminutes : readAmount 'M' afterHours with ⟨_, afterMinutes⟩
  rw [hminutes] at h
  dsimp only at h
  obtain ⟨hours, rfl⟩ := exists_component hhours
  obtain ⟨minutes, rfl⟩ := exists_component hminutes
  obtain ⟨seconds, hseconds⟩ := exists_component (Prod.eta (readAmount 'S' afterMinutes)).symm
  rw [(Prod.mk.inj h).2] at hseconds
  exact ⟨⟨hours, minutes, seconds⟩, by rw [hseconds]; simp [WrittenClock.chars]⟩

theorem exists_written {d : Duration} (h : read? cs = some d) : ∃ w : Written, cs = w.chars := by
  rw [read?.eq_def] at h
  split at h
  · rename_i rest
    rcases hyears : readAmount 'Y' rest with ⟨_, afterYears⟩
    rw [hyears] at h
    dsimp only at h
    rcases hmonths : readAmount 'M' afterYears with ⟨_, afterMonths⟩
    rw [hmonths] at h
    dsimp only at h
    rcases hweeks : readAmount 'W' afterMonths with ⟨_, afterWeeks⟩
    rw [hweeks] at h
    dsimp only at h
    rcases hdays : readAmount 'D' afterWeeks with ⟨_, afterDays⟩
    rw [hdays] at h
    dsimp only at h
    obtain ⟨years, rfl⟩ := exists_component hyears
    obtain ⟨months, rfl⟩ := exists_component hmonths
    obtain ⟨weeks, rfl⟩ := exists_component hweeks
    obtain ⟨days, rfl⟩ := exists_component hdays
    split at h
    · exact ⟨⟨years, months, weeks, days, none⟩, by simp [Written.chars]⟩
    · split at h
      · rename_i hclock
        obtain ⟨c, rfl⟩ := exists_clock hclock
        exact ⟨⟨years, months, weeks, days, some c⟩, by simp [Written.chars]⟩
      · cases h
    · cases h
  · cases h

theorem read?_eq_none : read? cs = none ↔ ¬ ∃ w : Written, cs = w.chars := by
  constructor
  · rintro h ⟨w, rfl⟩
    rw [read?_written] at h
    cases h
  · intro h
    cases hread : read? cs with
    | none => rfl
    | some d => exact absurd (exists_written hread) h

theorem getLast?_component (front : List Char) (designator : Char) (n : Option Numeral) :
    (front ++ component designator n).getLast? =
      if n.isSome then some designator else front.getLast? := by
  cases n with
  | none => simp [component]
  | some n => simp [component, ← List.append_assoc]

/-- A duration ends with the time designator if nothing stands behind it. -/
theorem Written.getLast?_eq_time (w : Written) :
    w.chars.getLast? = some 'T' ↔ w.clock = some ⟨none, none, none⟩ := by
  obtain ⟨years, months, weeks, days, clock⟩ := w
  cases clock with
  | none =>
      simp only [Written.chars, Option.map_none, Option.getD_none, List.append_nil,
        getLast?_component]
      cases years <;> cases months <;> cases weeks <;> cases days <;> simp
  | some c =>
      obtain ⟨hours, minutes, seconds⟩ := c
      have hchars : ∀ front : List Char,
          (front ++ 'T' :: WrittenClock.chars ⟨hours, minutes, seconds⟩).getLast? =
            (front ++ ['T'] ++ component 'H' hours ++ component 'M' minutes ++
              component 'S' seconds).getLast? := by
        simp [WrittenClock.chars]
      simp only [Written.chars, Option.map_some, Option.getD_some, hchars, getLast?_component,
        List.getLast?_concat]
      cases hours <;> cases minutes <;> cases seconds <;> simp

theorem component_eq_nil {designator : Char} {n : Option Numeral} :
    component designator n = [] ↔ n = none := by
  cases n <;> simp [component]

theorem Written.chars_eq_bare (w : Written) :
    w.chars = ['P'] ↔ w = ⟨none, none, none, none, none⟩ := by
  obtain ⟨years, months, weeks, days, clock⟩ := w
  cases clock <;> simp [Written.chars, component_eq_nil]

end Readings

/-! ## The law -/

section Law

variable {s : String} {w : Written}

/-- Whether a length in milliseconds is not finite, or above `10 ^ 15`. -/
def TooLong (ms : Float) : Prop := (ms.isNaN || ms.isInf || decide (1.0e15 < ms)) = true

instance (ms : Float) : Decidable (TooLong ms) := inferInstanceAs (Decidable (_ = true))

theorem parse_of_not_written (h : ¬ ∃ w : Written, s.toList = w.chars) :
    parse s = .error (.notIso s) := by
  rw [parse, read?_eq_none.mpr h]

theorem parse_of_bareTime (h : s.toList = w.chars) (hclock : w.clock = some ⟨none, none, none⟩) :
    parse s = .error .bareTime := by
  simp only [parse, h, read?_written, Written.duration, hclock]
  rfl

theorem parse_of_bare (h : s.toList = w.chars) (hbare : w = ⟨none, none, none, none, none⟩) :
    parse s = .error .noComponents := by
  simp only [parse, h, read?_written, hbare]
  rfl

/-- A text with some component, and one behind its time designator if it has one, gives what is
written. -/
theorem parse_of_components (h : s.toList = w.chars) (hclock : w.clock ≠ some ⟨none, none, none⟩)
    (hbare : w ≠ ⟨none, none, none, none, none⟩) : parse s = .ok w.duration := by
  rw [parse, h, read?_written]
  dsimp only
  split
  · -- the time designator is bare
    rename_i heq
    obtain ⟨c, hc, hnone⟩ := Option.map_eq_some_iff.mp heq
    refine absurd (hc.trans (congrArg some ?_)) hclock
    simpa [WrittenClock.ext_iff] using hnone
  · rfl
  · rename_i heq
    rw [if_neg]
    simpa [Written.duration, Written.ext_iff, Option.map_eq_none_iff.mp heq, and_assoc] using hbare

theorem millis_of_error {text : String} {e : DurationError}
    (h : parse (Text.trim text) = .error e) : millis text = .error e := by
  rw [millis, h]

theorem millis_of_ok {text : String} {d : Duration} (h : parse (Text.trim text) = .ok d) :
    millis text = if TooLong d.weight then .error (.outOfRange (Text.trim text))
      else .ok (nearest d.weight) := by
  rw [millis, h]
  rfl

theorem getLast?_eq_time_of_written (h : s.toList = w.chars) :
    s.toList.getLast? = some 'T' ↔ w.clock = some ⟨none, none, none⟩ :=
  h ▸ w.getLast?_eq_time

theorem eq_bare_of_written (h : s.toList = w.chars) :
    s = "P" ↔ w = ⟨none, none, none, none, none⟩ :=
  String.toList_inj.symm.trans (h ▸ w.chars_eq_bare)

/-- **What becomes of a duration text.**  Without the blanks around it, it is refused if it is
no written duration, if it ends with the time designator, or if it is `P` alone.  Any other gives
the numbers that are written, and fails only if their weighted sum is out of range. -/
theorem millis_eq (text : String) :
    let s := Text.trim text
    (millis text = .error (.notIso s) ↔ ¬ ∃ w : Written, s.toList = w.chars) ∧
      (millis text = .error .bareTime ↔
        (∃ w : Written, s.toList = w.chars) ∧ s.toList.getLast? = some 'T') ∧
      (millis text = .error .noComponents ↔ s = "P") ∧
      (∀ w : Written, s.toList = w.chars → s.toList.getLast? ≠ some 'T' → s ≠ "P" →
        parse s = .ok w.duration ∧
          millis text =
            if TooLong w.duration.weight then .error (.outOfRange s)
            else .ok (nearest w.duration.weight)) ∧
      (DurationError.notIso s).message = "'" ++ s ++ "' is not an ISO-8601 duration" ∧
      DurationError.bareTime.message = "time designator 'T' without components" ∧
      DurationError.noComponents.message = "duration has no components" ∧
      (DurationError.outOfRange s).message = "duration '" ++ s ++ "' is out of range" := by
  intro s
  have hgives (w : Written) (hw : s.toList = w.chars) (hlast : s.toList.getLast? ≠ some 'T')
      (hbare : s ≠ "P") : parse s = .ok w.duration ∧ millis text =
        if TooLong w.duration.weight then .error (.outOfRange s)
        else .ok (nearest w.duration.weight) := by
    rw [ne_eq, getLast?_eq_time_of_written hw] at hlast
    rw [ne_eq, eq_bare_of_written hw] at hbare
    have hparse := parse_of_components hw hlast hbare
    exact ⟨hparse, millis_of_ok hparse⟩
  suffices h : (millis text = .error (.notIso s) ↔ ¬ ∃ w : Written, s.toList = w.chars) ∧
      (millis text = .error .bareTime ↔
        (∃ w : Written, s.toList = w.chars) ∧ s.toList.getLast? = some 'T') ∧
      (millis text = .error .noComponents ↔ s = "P") from
    ⟨h.1, h.2.1, h.2.2, hgives, rfl, rfl, rfl, rfl⟩
  by_cases hwritten : ∃ w : Written, s.toList = w.chars
  · obtain ⟨w, hw⟩ := id hwritten
    by_cases hlast : s.toList.getLast? = some 'T'
    · have hclock := (getLast?_eq_time_of_written hw).mp hlast
      have hmillis : millis text = .error .bareTime :=
        millis_of_error (parse_of_bareTime hw hclock)
      have hbare : s ≠ "P" := fun h => by simp [h] at hlast
      simp [hmillis, hwritten, hlast, hbare]
    · by_cases hbare : s = "P"
      · have hmillis : millis text = .error .noComponents :=
          millis_of_error (parse_of_bare hw ((eq_bare_of_written hw).mp hbare))
        exact ⟨by simp [hmillis, hwritten], by simp [hmillis, hlast], by simp [hmillis, hbare]⟩
      · rw [(hgives w hw hlast hbare).2]
        split <;> simp [hwritten, hlast, hbare]
  · have hmillis : millis text = .error (.notIso s) :=
      millis_of_error (parse_of_not_written hwritten)
    have hbare : s ≠ "P" := fun h =>
      hwritten ⟨⟨none, none, none, none, none⟩, by rw [h]; rfl⟩
    simp [hmillis, hwritten, hbare]

private def digit (d : Char) (h : Text.isDigit d = true) : Digits :=
  ⟨[d], List.cons_ne_nil _ _, by simpa using h⟩

/-- Months before the time designator and minutes with a comma behind it. -/
private def monthAndMinutes : Written where
  years := none
  months := some ⟨digit '1' rfl, none⟩
  weeks := none
  days := none
  clock := some ⟨none, some ⟨digit '3' rfl, some (.comma, digit '5' rfl)⟩, none⟩

theorem millis_eq_month_and_minutes :
    let s := Text.trim " P1MT3,5M\n"
    s.toList = monthAndMinutes.chars ∧ s.toList.getLast? ≠ some 'T' ∧ s ≠ "P" ∧
      parse s = .ok ⟨none, some ⟨1, 0⟩, none, none, some ⟨none, some ⟨35, 1⟩, none⟩⟩ ∧
      millis " P1MT3,5M\n" = .ok 2592210000 := by
  have hchars : (Text.trim " P1MT3,5M\n").toList = monthAndMinutes.chars := by decide +kernel
  have hlast : (Text.trim " P1MT3,5M\n").toList.getLast? ≠ some 'T' := by decide +kernel
  have hbare : Text.trim " P1MT3,5M\n" ≠ "P" := by decide +kernel
  obtain ⟨hparse, hmillis⟩ :=
    (millis_eq " P1MT3,5M\n").2.2.2.1 monthAndMinutes hchars hlast hbare
  have hweight : ¬ TooLong monthAndMinutes.duration.weight := by decide +kernel
  have hnearest : nearest monthAndMinutes.duration.weight = 2592210000 := by decide +kernel
  refine ⟨hchars, hlast, hbare, hparse, ?_⟩
  rw [hmillis, if_neg hweight, hnearest]
  rfl

end Law

end Duration

end ProcessEngine
