/-!
Instants in coordinated universal time: a date of the Gregorian calendar, extended in both
directions, and a time of day in nanoseconds. During a leap second the nanoseconds run on past one
thousand million while the second stays 59.
-/
namespace Depot

/-- Years that are divisible by four, but not by a hundred unless by four hundred. -/
def isLeapYear (year : Int) : Bool :=
  year % 4 == 0 && (year % 100 != 0 || year % 400 == 0)

def daysInMonth (year : Int) (month : Nat) : Nat :=
  if month = 2 then if isLeapYear year then 29 else 28
  else if month = 4 ∨ month = 6 ∨ month = 9 ∨ month = 11 then 30
  else 31

/-- The first and the last year of the calendar. -/
def firstYear : Int := -262143
def lastYear : Int := 262142

/-- A day that the calendar has. -/
def IsDate (year : Int) (month day : Nat) : Prop :=
  (firstYear ≤ year ∧ year ≤ lastYear) ∧ (1 ≤ month ∧ month ≤ 12) ∧
    (1 ≤ day ∧ day ≤ daysInMonth year month)

instance (year : Int) (month day : Nat) : Decidable (IsDate year month day) := by
  unfold IsDate; infer_instance

structure Date where
  year : Int
  month : Nat
  day : Nat
  isDate : IsDate year month day

namespace Date

/-- The date with the given parts, if the calendar has it. -/
def of? (year : Int) (month day : Nat) : Option Date :=
  if h : IsDate year month day then some ⟨year, month, day, h⟩ else none

/-- The day after, unless the calendar ends. -/
def next? (d : Date) : Option Date :=
  if d.day < daysInMonth d.year d.month then of? d.year d.month (d.day + 1)
  else if d.month < 12 then of? d.year (d.month + 1) 1
  else of? (d.year + 1) 1 1

/-- The day before, unless the calendar begins. -/
def previous? (d : Date) : Option Date :=
  if 1 < d.day then of? d.year d.month (d.day - 1)
  else if 1 < d.month then of? d.year (d.month - 1) (daysInMonth d.year (d.month - 1))
  else of? (d.year - 1) 12 31

/-- The date some days later, unless the calendar ends. -/
def later? : Nat → Date → Option Date
  | 0, d => some d
  | n + 1, d => d.next?.bind (later? n)

/-- The number of days since the first of March of the year 0. Months are counted from March on, so
that the leap day is the last day of its year. -/
def dayNumber (d : Date) : Int :=
  let y := if d.month ≤ 2 then d.year - 1 else d.year
  let m := (d.month + 9) % 12
  -- five months from March or from August have 153 days
  y * 365 + y / 4 - y / 100 + y / 400 + ((153 * m + 2) / 5 + d.day - 1 : Nat)

end Date

/-- An instant. -/
structure Instant where
  date : Date
  hour : Nat
  minute : Nat
  second : Nat
  nano : Nat
  inDay : hour < 24 ∧ minute < 60 ∧ second < 60 ∧ (nano < 1000000000 ∨ second = 59 ∧ nano < 2000000000)

namespace Instant

/-- The instant with the given parts, if there is one. -/
def of? (date : Date) (hour minute second nano : Nat) : Option Instant :=
  if h : hour < 24 ∧ minute < 60 ∧ second < 60 ∧ (nano < 1000000000 ∨ second = 59 ∧ nano < 2000000000) then
    some ⟨date, hour, minute, second, nano, h⟩
  else none

/-- The seconds of the day that have passed, a leap second not counted. -/
def secondOfDay (t : Instant) : Nat :=
  (t.hour * 60 + t.minute) * 60 + t.second

/-- The parts in the order in which they decide which of two instants is later. -/
def key (t : Instant) : List Int :=
  [t.date.year, t.date.month, t.date.day, t.secondOfDay, t.nano]

/-- Lexicographic order of lists of integers. -/
def keyLe : List Int → List Int → Bool
  | [], _ => true
  | _ :: _, [] => false
  | a :: as, b :: bs => if a < b then true else if b < a then false else keyLe as bs

def le (s t : Instant) : Bool :=
  keyLe s.key t.key

/-- The instant `minutes` later, or earlier for a negative number: at most one day, and only within
the calendar. -/
def shift? (t : Instant) (minutes : Int) : Option Instant :=
  let total : Int := t.hour * 60 + t.minute + minutes
  let date? :=
    if total < 0 then t.date.previous?
    else if total < 1440 then some t.date
    else t.date.next?
  let ofDay := (total % 1440).toNat
  date?.bind fun date => of? date (ofDay / 60) (ofDay % 60) t.second t.nano

/-- The nanoseconds from `earlier` to `later`, negative if they are given the other way round. A
leap second counts when the day has gone on beyond it. -/
def nanosBetween (earlier later : Instant) : Int :=
  let days := later.date.dayNumber - earlier.date.dayNumber
  let seconds : Int := (later.secondOfDay : Int) - earlier.secondOfDay
  let leap : Int :=
    if seconds > 0 then if earlier.nano ≥ 1000000000 then 1 else 0
    else if seconds < 0 then if later.nano ≥ 1000000000 then -1 else 0
    else 0
  (days * 86400 + seconds + leap) * 1000000000 + ((later.nano : Int) - earlier.nano)

/-- The instant `nanos` later, counting no leap seconds; the last instant of the day if the
calendar ends before. Used for steps shorter than a day. -/
def addNanos (t : Instant) (nanos : Nat) : Instant :=
  let total := t.secondOfDay * 1000000000 + t.nano + nanos
  let date? := if total < 86400000000000 then some t.date else t.date.next?
  let seconds := total / 1000000000 % 86400
  let moved? := date?.bind fun date =>
    of? date (seconds / 3600) (seconds / 60 % 60) (seconds % 60) (total % 1000000000)
  moved?.getD t

/-- Midnight at the start of the year 1970. -/
def epoch : Instant :=
  ⟨⟨1970, 1, 1, by decide⟩, 0, 0, 0, 0, by decide⟩

/-- The instant some nanoseconds after `epoch`, counting no leap seconds; `epoch` itself if the
calendar ends before. -/
def ofNanos (nanos : Nat) : Instant :=
  let date? := Date.later? (nanos / 86400000000000) epoch.date
  let start? := date?.bind fun date => of? date 0 0 0 0
  (start?.getD epoch).addNanos (nanos % 86400000000000)

end Instant

example : (Date.mk 1970 1 1 (by decide)).dayNumber = 719468 := by decide

example : (Date.mk 2000 3 1 (by decide)).dayNumber -
    (Date.mk 2000 2 28 (by decide)).dayNumber = 2 := by decide

end Depot
