import OfficeConnect.Core.Base

/-!
# Working days

Weekends and the non-working rows of the holiday calendar do not count.  1970-01-01 was a Thursday,
so Monday is `0` after a shift of three.
-/

namespace OfficeConnect

def weekday (d : Day) : ℤ := (d + 3) % 7

inductive HolidayType where
  | regular | specialNonWorking | specialWorking | workSuspension | local
deriving DecidableEq, Repr

structure Holiday where
  calendarDate : Day
  holidayType : HolidayType
  isActive : Bool := true
deriving DecidableEq, Repr

def isWorkingDay (day : Day) (nonworking : List Day) : Bool :=
  weekday day ≠ 5 ∧ weekday day ≠ 6 ∧ day ∉ nonworking

/-- The loop of `addWorkingDays`: step until `remaining` working days have passed.  The first
argument bounds the rounds. -/
def walkWorkingDays (step : ℤ) (nonworking : List Day) : ℕ → ℕ → Day → Day
  | _, 0, cursor => cursor
  | 0, _ + 1, cursor => cursor
  | fuel + 1, remaining + 1, cursor =>
      let next := cursor + step
      if isWorkingDay next nonworking then walkWorkingDays step nonworking fuel remaining next
      else walkWorkingDays step nonworking fuel (remaining + 1) next

/-- The day `n` working days after `start`; a negative `n` counts back.  Every seven days hold five
weekdays, so seven rounds for each working day and each listed date are enough. -/
def addWorkingDays (start : Day) (n : ℤ) (nonworking : List Day) : Day :=
  walkWorkingDays (if 0 < n then 1 else -1) nonworking (7 * (n.natAbs + nonworking.length))
    n.natAbs start

/-- The working days in `(start, stop]`; negative when `stop` comes first. -/
def workingDaysBetween (start stop : Day) (nonworking : List Day) : ℤ :=
  let lo := min start stop
  let days := (List.range (max start stop - lo).toNat).map fun n => lo + 1 + (n : ℤ)
  let count : ℤ := (days.filter fun day => isWorkingDay day nonworking).length
  if stop = start then 0 else if start < stop then count else -count

/-- The active non-working rows in `[start, stop]`. -/
def loadNonworkingDates (holidays : List Holiday) (start stop : Day) : List Day :=
  (holidays.filter fun h =>
    start ≤ h.calendarDate ∧ h.calendarDate ≤ stop ∧ h.isActive ∧
      h.holidayType ≠ .specialWorking).map (·.calendarDate)

-- Friday 2026-01-02 is followed by a weekend and, here, a holiday on Monday.
example : addWorkingDays 20455 1 [20458] = 20459 := by decide +kernel

end OfficeConnect
