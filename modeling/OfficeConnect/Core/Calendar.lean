import OfficeConnect.Core.Base

/-!
# Anniversaries

The day number of a date is the inverse of its civil reading, so a date can be moved by whole years.
Ten calendar years are between 3651 and 3653 days, never ten times 365.
-/

namespace OfficeConnect

/-- The day number of a date; the 29th of February of a common year runs on to the 1st of March. -/
def dayOfCivil (y m d : ℤ) : ℤ :=
  let year := if m ≤ 2 then y - 1 else y
  let month := if m ≤ 2 then m + 9 else m - 3
  365 * year + year / 4 - year / 100 + year / 400 + (153 * month + 2) / 5 + d - 1 - 719468

/-- The same date a number of years later. -/
def anniversary (years day : ℤ) : ℤ :=
  let (y, m, d) := civil day
  dayOfCivil (y + years) m d

/-- The same instant of the same date a number of years later. -/
def anniversaryOf (years : ℤ) (t : Time) : Time := anniversary years (t / 86400) * 86400 + t % 86400

example : isoDate (anniversary 10 19782) = "2034-03-01" := by decide +kernel

/-! ## Reading a day and writing it back -/

/-- The year of an era and the day of that year: a day of the era is in the year, and the year has
at most 366 days. -/
theorem dayOfYear_bounds {doe c d e yoe : ℤ} (h0 : 0 ≤ doe) (h1 : doe < 146097)
    (hc : c = doe / 1460) (hd : d = doe / 36524) (he : e = doe / 146096)
    (hy : yoe = (doe - c + d - e) / 365) :
    0 ≤ yoe ∧ yoe < 400 ∧ 0 ≤ doe - (365 * yoe + yoe / 4 - yoe / 100) ∧
      doe - (365 * yoe + yoe / 4 - yoe / 100) ≤ 365 := by
  rcases lt_or_ge doe 146096 with hlt | hge
  · have he0 : e = 0 := by omega
    have hd3 : 0 ≤ d ∧ d ≤ 3 := by omega
    have hyear : 0 ≤ yoe ∧ yoe < 400 := by omega
    have hcentury : yoe / 100 = d := by
      rcases (by omega : d = 0 ∨ d = 1 ∨ d = 2 ∨ d = 3) with h | h | h | h <;> omega
    -- `c` counts spans of 1460 days, one day short of four years.
    have hquarter : yoe - 4 * c = -1 ∨ yoe - 4 * c = 0 ∨ yoe - 4 * c = 1 ∨ yoe - 4 * c = 2 ∨
        yoe - 4 * c = 3 := by
      omega
    rw [hcentury]
    refine ⟨hyear.1, hyear.2, ?_⟩
    rcases hquarter with h | h | h | h | h <;> omega
  · obtain rfl : doe = 146096 := by omega
    subst hc hd he hy
    decide

/-- What the civil reading of a day gives: a March-based year and month, and the day of the month. -/
theorem civil_eq (day : ℤ) : ∃ year month d : ℤ, 0 ≤ month ∧ month ≤ 11 ∧
    civil day = (if month < 10 then year else year + 1,
      if month < 10 then month + 3 else month - 9, d) ∧
    day = 365 * year + year / 4 - year / 100 + year / 400 + (153 * month + 2) / 5 + d - 1 - 719468 := by
  set era := (day + 719468) / 146097 with hera
  set doe := day + 719468 - era * 146097 with hdoe
  set yoe := (doe - doe / 1460 + doe / 36524 - doe / 146096) / 365 with hyoe
  set doy := doe - (365 * yoe + yoe / 4 - yoe / 100) with hdoy
  set month := (5 * doy + 2) / 153 with hmonth
  have hdoe0 : 0 ≤ doe := by omega
  have hdoe1 : doe < 146097 := by omega
  obtain ⟨hyoe0, hyoe1, hdoy0, hdoy1⟩ := dayOfYear_bounds hdoe0 hdoe1 rfl rfl rfl hyoe
  have hcivil : civil day = (yoe + era * 400 + if (if month < 10 then month + 3 else month - 9) ≤ 2
      then 1 else 0, if month < 10 then month + 3 else month - 9,
        doy - (153 * month + 2) / 5 + 1) := rfl
  clear_value era doe yoe doy month
  have hmonth0 : 0 ≤ month := by omega
  have hmonth1 : month ≤ 11 := by omega
  refine ⟨yoe + era * 400, month, doy - (153 * month + 2) / 5 + 1, hmonth0, hmonth1, ?_, ?_⟩
  swap
  · have hfour : (yoe + era * 400) / 4 = yoe / 4 + era * 100 := by omega
    have hhundred : (yoe + era * 400) / 100 = yoe / 100 + era * 4 := by omega
    have hera4 : (yoe + era * 400) / 400 = era := by omega
    rw [hfour, hhundred, hera4]
    omega
  rw [hcivil]
  by_cases hlate : month < 10
  · rw [if_pos hlate, if_neg (by omega), if_pos hlate, add_zero]
  · rw [if_neg hlate, if_pos (by omega), if_neg hlate]

/-- A whole number of years later the March-based year has moved by as many. -/
theorem anniversary_eq (years day : ℤ) : ∃ year : ℤ, anniversary years day =
    day + (365 * (year + years) + (year + years) / 4 - (year + years) / 100 + (year + years) / 400) -
      (365 * year + year / 4 - year / 100 + year / 400) := by
  obtain ⟨year, month, d, h0, h11, hcivil, hday⟩ := civil_eq day
  refine ⟨year, ?_⟩
  simp only [anniversary, hcivil, dayOfCivil]
  by_cases hlate : month < 10
  · simp only [if_pos hlate]
    rw [if_neg (by omega), if_neg (by omega), add_sub_cancel_right]
    omega
  · simp only [if_neg hlate]
    have hyear : year + 1 + years - 1 = year + years := by omega
    rw [if_pos (by omega), if_pos (by omega), sub_add_cancel, hyear]
    omega

/-- Ten calendar years have one to three leap days. -/
theorem anniversary_ten (day : ℤ) :
    day + 3651 ≤ anniversary 10 day ∧ anniversary 10 day ≤ day + 3653 := by
  obtain ⟨year, h⟩ := anniversary_eq 10 day
  rw [h]
  constructor <;> omega

end OfficeConnect
