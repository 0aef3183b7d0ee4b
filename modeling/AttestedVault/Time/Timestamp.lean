/-!
# Points in time

Dates of the proleptic Gregorian calendar with a time of day in UTC, down to
nanoseconds. Second 60 is a leap second, which may end any minute.
-/

namespace AttestedVault

def leapYear (y : Int) : Bool := y % 4 == 0 && (y % 100 != 0 || y % 400 == 0)

def daysInMonth (y : Int) (m : Nat) : Nat :=
  if m = 2 then if leapYear y then 29 else 28
  else if m = 4 ∨ m = 6 ∨ m = 9 ∨ m = 11 then 30
  else 31

structure Date where
  year : Int
  month : Nat
  day : Nat
  deriving DecidableEq, Repr

namespace Date

/-- A day of the calendar in the years that are representable. -/
def valid (d : Date) : Bool :=
  -262143 ≤ d.year && d.year ≤ 262142 && 1 ≤ d.month && d.month ≤ 12
    && 1 ≤ d.day && d.day ≤ daysInMonth d.year d.month

def next (d : Date) : Date :=
  if d.day < daysInMonth d.year d.month then ⟨d.year, d.month, d.day + 1⟩
  else if d.month < 12 then ⟨d.year, d.month + 1, 1⟩
  else ⟨d.year + 1, 1, 1⟩

def previous (d : Date) : Date :=
  if 1 < d.day then ⟨d.year, d.month, d.day - 1⟩
  else if 1 < d.month then ⟨d.year, d.month - 1, daysInMonth d.year (d.month - 1)⟩
  else ⟨d.year - 1, 12, 31⟩

end Date

/-- A time of day; `minute` counts from midnight. -/
structure Clock where
  minute : Nat
  second : Nat
  nano : Nat
  deriving DecidableEq, Repr

def Clock.valid (c : Clock) : Bool := c.minute < 1440 && c.second ≤ 60 && c.nano < 1000000000

structure Timestamp where
  date : Date
  clock : Clock
  valid : date.valid = true ∧ clock.valid = true
  deriving DecidableEq

namespace Timestamp

def make? (date : Date) (clock : Clock) : Option Timestamp :=
  if h : date.valid = true ∧ clock.valid = true then some ⟨date, clock, h⟩ else none

/-- The point in time that clocks `offset` minutes ahead of UTC show as this
date and time. The offset is less than a day. -/
def ofLocal? (date : Date) (clock : Clock) (offset : Int) : Option Timestamp :=
  if date.valid && clock.valid && -1440 < offset && offset < 1440 then
    let m := (clock.minute : Int) - offset
    if m < 0 then make? date.previous { clock with minute := (m + 1440).toNat }
    else if 1440 ≤ m then make? date.next { clock with minute := (m - 1440).toNat }
    else make? date { clock with minute := m.toNat }
  else none

end Timestamp

end AttestedVault
