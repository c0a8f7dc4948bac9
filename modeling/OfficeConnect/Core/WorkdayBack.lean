import OfficeConnect.Core.WorkdayLaw

/-!
# Counting back

The loop that steps back counts the day it stops at and not the day it starts from; the count over
`(stop, start]` leaves the first out and takes the second in.  The two agree exactly when the day it
starts from is a working day, and from there the way back leads home.
-/

namespace OfficeConnect

open Lib

variable {nonworking : List Day} {x y n : ℤ}

/-- The loop that steps back ends. -/
theorem walks_addWorkingDays_back (nonworking : List Day) (x : ℤ) (hn : n < 0) :
    Walks (-1) nonworking n.natAbs x (addWorkingDays x n nonworking) := by
  have hweeks := le_tally_weeks (x - (7 * (n.natAbs + nonworking.length) : ℕ) - 1) n.natAbs nonworking
  rw [show x - (7 * (n.natAbs + nonworking.length) : ℕ) - 1 +
    (7 * (n.natAbs + nonworking.length) : ℕ) = x - 1 by omega, ← countAlong_neg_one] at hweeks
  unfold addWorkingDays
  rw [if_neg (by omega)]
  exact walks_walkWorkingDays (by exact_mod_cast hweeks)

/-- Where it stops: at a working day, with the count complete among the days before the start. -/
theorem addWorkingDays_back_spec (nonworking : List Day) (x : ℤ) (hn : n < 0) :
    isWorkingDay (addWorkingDays x n nonworking) nonworking = true ∧
      tally (fun d => isWorkingDay d nonworking = true) (addWorkingDays x n nonworking - 1) (x - 1) =
        -n := by
  obtain ⟨hday, rounds, -, hstop, hcount⟩ :=
    (walks_addWorkingDays_back nonworking x hn).stops (by omega)
  rw [neg_one_mul, ← sub_eq_add_neg] at hstop
  refine ⟨hday, ?_⟩
  rw [hstop, ← countAlong_neg_one, hcount]
  omega

/-- The working days after the one it stops at: the start counts if it is one. -/
theorem tally_back (nonworking : List Day) (x : ℤ) (hn : n < 0) :
    tally (fun d => isWorkingDay d nonworking = true) (addWorkingDays x n nonworking) x =
      -n - if isWorkingDay x nonworking then 0 else 1 := by
  obtain ⟨hday, hcount⟩ := addWorkingDays_back_spec nonworking x hn
  have hlast := tally_succ (p := fun d => isWorkingDay d nonworking = true)
    (addWorkingDays x n nonworking - 1) (x - 1)
  have hfirst := tally_succ (p := fun d => isWorkingDay d nonworking = true)
    (addWorkingDays x n nonworking - 1) (addWorkingDays x n nonworking - 1)
  have hsplit := tally_add (fun d => isWorkingDay d nonworking = true)
    (addWorkingDays x n nonworking - 1) (addWorkingDays x n nonworking) x
  rw [sub_add_cancel, hcount] at hlast
  rw [sub_add_cancel, tally_self, if_pos hday] at hfirst
  split_ifs at hlast ⊢ <;> omega

theorem workingDaysBetween_back (nonworking : List Day) (x : ℤ) (hn : n < 0) :
    workingDaysBetween x (addWorkingDays x n nonworking) nonworking =
      n + if isWorkingDay x nonworking then 0 else 1 := by
  rw [workingDaysBetween_eq_tally, tally_comm, tally_back nonworking x hn]
  ring

/-- The day `n` working days ahead is the working day at which the count reaches `n`. -/
theorem addWorkingDays_eq (hn : 1 ≤ n) (hday : isWorkingDay y nonworking = true)
    (hcount : tally (fun d => isWorkingDay d nonworking = true) x y = n) :
    addWorkingDays x n nonworking = y := by
  obtain ⟨hstop, -, htally⟩ := addWorkingDays_spec nonworking x hn
  apply le_antisymm
  · rw [← not_lt, lt_iff_tally_lt hstop htally]
    omega
  · rw [← not_lt, lt_iff_tally_lt hday hcount]
    omega

/-- Back and forth. -/
theorem addWorkingDays_round_trip (hn : n < 0) (hday : isWorkingDay x nonworking = true) :
    addWorkingDays (addWorkingDays x n nonworking) (-n) nonworking = x := by
  refine addWorkingDays_eq (by omega) hday ?_
  rw [tally_back nonworking x hn, if_pos hday, sub_zero]

/-- Stepping back and the count: they pair from a working day, and from any other day the count is
one short. -/
theorem workingDays_back (nonworking : List Day) (x : Day) (n : ℤ) (hn : n < 0) :
    Walks (-1) nonworking n.natAbs x (addWorkingDays x n nonworking) ∧
      workingDaysBetween x (addWorkingDays x n nonworking) nonworking =
        (if isWorkingDay x nonworking then n else n + 1) ∧
      (isWorkingDay x nonworking = true →
        addWorkingDays (addWorkingDays x n nonworking) (-n) nonworking = x) := by
  refine ⟨walks_addWorkingDays_back nonworking x hn, ?_, addWorkingDays_round_trip hn⟩
  rw [workingDaysBetween_back nonworking x hn]
  split_ifs <;> omega

/-- Two working days back from Tuesday 2026-01-06, over a weekend and a holiday on the Monday. -/
theorem tuesday_back :
    workingDaysBetween 20459 (addWorkingDays 20459 (-2) [20458]) [20458] = -2 ∧
      addWorkingDays (addWorkingDays 20459 (-2) [20458]) 2 [20458] = 20459 := by
  obtain ⟨-, hcount, htrip⟩ := workingDays_back [20458] 20459 (-2) (by decide)
  exact ⟨hcount.trans (by decide), htrip (by decide)⟩

/-- One working day back from Sunday 2026-01-04 is the Friday, and no working day follows it up to the
Sunday. -/
theorem sunday_back :
    ¬ ∀ (nonworking : List Day) (x : Day) (n : ℤ), n < 0 →
      workingDaysBetween x (addWorkingDays x n nonworking) nonworking = n ∧
        (isWorkingDay x nonworking = true →
          addWorkingDays (addWorkingDays x n nonworking) (-n) nonworking = x) := by
  intro h
  have hcount := (h [] 20457 (-1) (by decide)).1
  exact absurd hcount (by decide +kernel)

end OfficeConnect
