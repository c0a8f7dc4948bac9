import OfficeConnect.Core.WorkdayLaw
import OfficeConnect.Reimbursement.Advances

/-!
# The holidays a deadline reads

A deadline of `n` working days loads the holidays of the `4 n + 14` days after its start.  Outside
the window every weekday counts as a working day.  While at most `n + 7` weekdays of the window are
holidays it holds the `n` working days, and the rest of the table cannot matter.  Dates are integers
without bound; past the year 9999 the source raises.
-/

namespace OfficeConnect.Reimbursement

open Lib

/-- The dates of the active non-working rows. -/
def nonworkingDates (holidays : List Holiday) : List Day :=
  (holidays.filter fun h => h.isActive ∧ h.holidayType ≠ .specialWorking).map (·.calendarDate)

/-- The weekdays of `(start, stop]` that are non-working by a row. -/
def weekdayHolidays (holidays : List Holiday) (start stop : Day) : ℤ :=
  tally (fun d => isWeekday d ∧ d ∈ nonworkingDates holidays) start stop

section

variable {holidays : List Holiday} {start stop d : ℤ} {n : ℤ}

theorem mem_loadNonworkingDates : d ∈ loadNonworkingDates holidays start stop ↔
    start ≤ d ∧ d ≤ stop ∧ d ∈ nonworkingDates holidays := by
  simp only [loadNonworkingDates, nonworkingDates, List.mem_map, List.mem_filter,
    decide_eq_true_eq]
  constructor
  · rintro ⟨h, ⟨hmem, hstart, hstop, hrow⟩, rfl⟩
    exact ⟨hstart, hstop, h, ⟨hmem, hrow⟩, rfl⟩
  · rintro ⟨hstart, hstop, h, ⟨hmem, hrow⟩, rfl⟩
    exact ⟨h, ⟨hmem, hstart, hstop, hrow⟩, rfl⟩

/-- Inside the window a day is a working day by the loaded rows when it is one by the table. -/
theorem isWorkingDay_window (hstart : start ≤ d) (hstop : d ≤ stop) :
    isWorkingDay d (loadNonworkingDates holidays start stop) =
      isWorkingDay d (nonworkingDates holidays) := by
  rw [Bool.eq_iff_iff, isWorkingDay_iff, isWorkingDay_iff, mem_loadNonworkingDates]
  simp [hstart, hstop]

/-- The window holds the working days: it has `2 n + 7` weekdays or more. -/
theorem le_tally_window (hn : 1 ≤ n)
    (hfew : weekdayHolidays holidays start (start + n * 4 + 14) ≤ n + 7) :
    n ≤ tally (fun d => isWorkingDay d (nonworkingDates holidays) = true) start
      (start + n * 4 + 14) := by
  unfold weekdayHolidays at hfew
  rw [tally_working, tally_isWeekday]
  unfold weekdaysUpTo weekday
  omega

/-- The due date by the loaded rows is the one by the table. -/
theorem addWorkingDays_window (hn : 1 ≤ n)
    (hfew : weekdayHolidays holidays start (start + n * 4 + 14) ≤ n + 7) :
    addWorkingDays start n (loadNonworkingDates holidays start (start + n * 4 + 14)) =
      addWorkingDays start n (nonworkingDates holidays) := by
  set stop := start + n * 4 + 14 with hstop
  set window := loadNonworkingDates holidays start stop with hwindow
  have hwide : start ≤ stop := by omega
  have hsame : ∀ d, start < d → d ≤ stop → (isWorkingDay d window = true ↔
      isWorkingDay d (nonworkingDates holidays) = true) := fun d hlo hhi => by
    rw [hwindow, isWorkingDay_window hlo.le hhi]
  have htallies : ∀ d ≤ stop, start ≤ d →
      tally (fun d => isWorkingDay d window = true) start d =
        tally (fun d => isWorkingDay d (nonworkingDates holidays) = true) start d :=
    fun d hle hlo => tally_congr (fun e he hed => hsame e he (hed.trans hle)) hlo
  obtain ⟨hday, hlt, htally⟩ :=
    addWorkingDays_spec (nonworkingDates holidays) start hn
  obtain ⟨hday', hlt', htally'⟩ := addWorkingDays_spec window start hn
  -- Both walks end inside the window, where the counts agree.
  have hinside : addWorkingDays start n (nonworkingDates holidays) ≤ stop := by
    by_contra hout
    have hcount := (lt_iff_tally_lt (z := stop) hday htally).1 (not_le.1 hout)
    have hholds := le_tally_window hn hfew
    rw [← hstop] at hholds
    omega
  have hinside' : addWorkingDays start n window ≤ stop := by
    by_contra hout
    have hcount := (lt_iff_tally_lt (z := stop) hday' htally').1 (not_le.1 hout)
    have hholds := le_tally_window hn hfew
    rw [htallies stop le_rfl hwide] at hcount
    rw [← hstop] at hholds
    omega
  refine le_antisymm ?_ ?_
  · by_contra hlater
    have hcount := (lt_iff_tally_lt hday' htally').1 (not_le.1 hlater)
    rw [htallies _ hinside hlt.le] at hcount
    omega
  · by_contra hlater
    have hcount := (lt_iff_tally_lt hday htally).1 (not_le.1 hlater)
    rw [← htallies _ hinside' hlt'.le] at hcount
    omega

theorem readRule_days {config : Option ConfigRow} {rule : DeadlineRule}
    (h : readRule config = .ok rule) : 1 ≤ rule.days := by
  unfold readRule at h
  split at h
  · cases h
    decide
  · split at h
    · cases h
      decide
    · split at h
      · cases h
        decide
      · split_ifs at h with hdays
        · cases h
          decide
        · obtain ⟨basis, -, hrule⟩ := bind_eq_ok.1 h
          cases hrule
          exact not_le.1 hdays

end

/-- The window is wide enough: the due dates computed from the holidays inside it are those computed
from the whole table. -/
theorem holidayWindow_wide (env : Env) :
    (∀ (start : Day) (n : ℤ), 1 ≤ n →
      weekdayHolidays env.holidays start (start + n * 4 + 14) ≤ n + 7 →
        addWorkingDays start n (loadNonworkingDates env.holidays start (start + n * 4 + 14)) =
          addWorkingDays start n (nonworkingDates env.holidays)) ∧
    (∀ (now : Time) (n : ℤ), configInt env.configs slaKey "working_days" 3 (manilaDate now) = n →
      1 ≤ n →
      weekdayHolidays env.holidays (manilaDate now) (manilaDate now + n * 4 + 14) ≤ n + 7 →
        slaDue env now =
          manilaInstant (addWorkingDays (manilaDate now) n (nonworkingDates env.holidays)) 17) ∧
    ∀ (dateReturn today : Day) (rule : DeadlineRule),
      readRule (effectiveConfig env.configs today deadlineKey) = .ok rule →
      weekdayHolidays env.holidays dateReturn (dateReturn + rule.days * 4 + 14) ≤ rule.days + 7 →
        resolveDeadline env (some dateReturn) today =
          .ok (some (liquidationDeadline dateReturn rule (nonworkingDates env.holidays)),
            some rule.basis) := by
  refine ⟨fun start n hn hfew => addWorkingDays_window hn hfew, ?_, ?_⟩
  · rintro now n rfl hn hfew
    unfold slaDue
    simp only [addWorkingDays_window hn hfew]
  · intro dateReturn today rule hrule hfew
    have hwindow := addWorkingDays_window (readRule_days hrule) hfew
    simp only [resolveDeadline, hrule, ok_bind, liquidationDeadline, hwindow]
    rfl

/-- Three working days from a Friday, with the Monday and an inactive Tuesday in the table. -/
theorem sla_monday_skipped :
    slaDue { holidays := [
        { calendarDate := 20458, holidayType := .regular },
        { calendarDate := 20459, holidayType := .local, isActive := false }] }
      (manilaInstant 20455 9) = manilaInstant 20461 17 := by
  refine ((holidayWindow_wide _).2.1 (manilaInstant 20455 9) 3 (by decide +kernel) (by decide)
    (by decide +kernel)).trans ?_
  decide +kernel

end OfficeConnect.Reimbursement
