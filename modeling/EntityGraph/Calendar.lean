/-!
# Dates and moments

A day of the calendar, and a moment: a day with a time and, where one is given, the offset of its
clock from universal time.

* `Date.check`, `Clock.check`: the bounds of a date and of a time of day, and which one fails first;
* `Moment.same`: two moments are equal if they name one instant, or one reading of a clock whose
  offset is unknown.
-/

namespace EntityGraph

/-- A day of the calendar. -/
structure Date where
  year : Nat
  month : Nat
  day : Nat
deriving DecidableEq, Repr, Inhabited

/-- A time of day, down to millionths of a second. -/
structure Clock where
  hour : Nat
  minute : Nat
  second : Nat
  micro : Nat
deriving DecidableEq, Repr, Inhabited

/-- A day with a time of day; the offset counts minutes ahead of universal time. -/
structure Moment where
  date : Date
  clock : Clock
  offset : Option Int
deriving DecidableEq, Repr, Inhabited

/-- Which bound a date, a time or an offset breaks. -/
inductive CalendarFault where
  | year (year : Nat)
  | month
  | day
  | hour
  | minute
  | second
  | offset (minutes : Int)
deriving DecidableEq, Repr

namespace Date

def isLeap (year : Nat) : Bool := year % 4 == 0 && (year % 100 != 0 || year % 400 == 0)

def daysIn (year month : Nat) : Nat :=
  match month with
  | 2 => if isLeap year then 29 else 28
  | 4 | 6 | 9 | 11 => 30
  | _ => 31

/-- The first bound that a date breaks: the year, then the month, then the day. -/
def check (d : Date) : Except CalendarFault Date :=
  if d.year < 1 || d.year > 9999 then .error (.year d.year)
  else if d.month < 1 || d.month > 12 then .error .month
  else if d.day < 1 || d.day > daysIn d.year d.month then .error .day
  else .ok d

def daysBefore (year : Nat) : Nat :=
  let y := year - 1
  y * 365 + y / 4 - y / 100 + y / 400

/-- The number of a day, counted from the first day of year one. -/
def ordinal (d : Date) : Nat :=
  let months := (List.range (d.month - 1)).map fun m => daysIn d.year (m + 1)
  daysBefore d.year + months.foldr (· + ·) 0 + d.day

end Date

/-- The first bound that a time of day breaks, largest unit first. -/
def Clock.check (c : Clock) : Except CalendarFault Clock :=
  if c.hour > 23 then .error .hour
  else if c.minute > 59 then .error .minute
  else if c.second > 59 then .error .second
  else .ok c

/-- An offset stays within a day on either side. -/
def checkOffset (minutes : Int) : Except CalendarFault Int :=
  if minutes.natAbs < 24 * 60 then .ok minutes else .error (.offset minutes)

namespace Moment

/-- Millionths of a second since the start of year one, on the clock of the moment. -/
def ticks (m : Moment) : Int :=
  let c := m.clock
  (((m.date.ordinal * 24 + c.hour) * 60 + c.minute) * 60 + c.second : Nat) * 1000000 +
    (c.micro : Int)

/-- Equality of instants if both offsets are known, of readings if neither is. -/
def same (a b : Moment) : Bool :=
  match a.offset, b.offset with
  | some x, some y => a.ticks - x * 60000000 == b.ticks - y * 60000000
  | none, none => a.ticks == b.ticks
  | _, _ => false

end Moment

end EntityGraph
