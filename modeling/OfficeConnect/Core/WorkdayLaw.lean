import OfficeConnect.Core.Workdays
import OfficeConnect.Lib.Tally

/-!
# The law of working days

Counting working days and stepping over them are inverse to each other: the day `n` working days
ahead is the first one with a count of `n`.  The loop that steps ends because the list of
non-working days is finite and every seven days hold five weekdays.
-/

namespace OfficeConnect

open Lib

/-! ## The count -/

section

variable {nonworking : List Day} {a b c x y : ℤ}

theorem length_days_filter (p : ℤ → Bool) (lo : ℤ) (n : ℕ) :
    ((((List.range n).map fun k : ℕ => lo + 1 + (k : ℤ)).filter p).length : ℤ) =
      tally (fun d => p d = true) lo (lo + n) := by
  induction n with
  | zero => simp [tally_self]
  | succ n ih =>
      have hlast : lo + ((n + 1 : ℕ) : ℤ) = lo + n + 1 := by push_cast; ring
      rw [List.range_succ, List.map_append, List.filter_append, List.length_append, Nat.cast_add, ih,
        hlast, tally_succ]
      cases hp : p (lo + n + 1) <;> simp [hp, add_right_comm lo 1]

/-- The count is a tally. -/
theorem workingDaysBetween_eq_tally (a b : ℤ) (nonworking : List Day) :
    workingDaysBetween a b nonworking = tally (fun d => isWorkingDay d nonworking = true) a b := by
  unfold workingDaysBetween
  simp only [bind_pure_comp, List.map_eq_map, List.map_map, Function.comp_def, length_days_filter]
  rcases lt_trichotomy a b with hlt | rfl | hlt
  · rw [if_neg hlt.ne', if_pos hlt, min_eq_left hlt.le, max_eq_right hlt.le,
      Int.toNat_of_nonneg (by omega), add_sub_cancel]
  · rw [if_pos rfl, tally_self]
  · rw [if_neg hlt.ne, if_neg hlt.not_gt, min_eq_right hlt.le, max_eq_left hlt.le,
      Int.toNat_of_nonneg (by omega), add_sub_cancel, tally_comm, neg_neg]

/-! ## Weekdays -/

/-- The weekdays of the weeks before the one of `d`, and of that week up to `d`. -/
def weekdaysUpTo (d : ℤ) : ℤ := 5 * ((d + 3) / 7) + min (weekday d + 1) 5

/-- `d` is no Saturday and no Sunday. -/
def isWeekday (d : ℤ) : Prop := weekday d ≠ 5 ∧ weekday d ≠ 6

instance : DecidablePred isWeekday := fun _ => inferInstanceAs (Decidable (_ ∧ _))

theorem tally_isWeekday (a b : ℤ) : tally isWeekday a b = weekdaysUpTo b - weekdaysUpTo a := by
  refine tally_eq_sub (fun d => ?_) a b
  unfold weekdaysUpTo isWeekday weekday
  split_ifs with h
  · omega
  · omega

theorem isWorkingDay_iff {d : ℤ} : isWorkingDay d nonworking = true ↔
    isWeekday d ∧ d ∉ nonworking := by
  simp [isWorkingDay, isWeekday, and_assoc]

/-- The weekdays that are not working days are listed. -/
theorem tally_working (a b : ℤ) (nonworking : List Day) :
    tally (fun d => isWorkingDay d nonworking = true) a b =
      tally isWeekday a b - tally (fun d => isWeekday d ∧ d ∈ nonworking) a b := by
  rw [tally_split isWeekday (· ∈ nonworking) a b]
  simp only [isWorkingDay_iff]
  ring

variable (nonworking) in
theorem tally_mem_le (hle : a ≤ b) :
    tally (fun d => isWeekday d ∧ d ∈ nonworking) a b ≤ nonworking.length :=
  tally_le_length (fun _ hd => hd.2) hle

/-! ## The loop -/

/-- The loop of `addWorkingDays` ends: from a number of working days still to pass and a cursor, it
stops at a day. -/
inductive Walks (step : ℤ) (nonworking : List Day) : ℕ → Day → Day → Prop
  | done (cursor : Day) : Walks step nonworking 0 cursor cursor
  | working {remaining : ℕ} {cursor stop : Day}
      (hday : isWorkingDay (cursor + step) nonworking = true)
      (hrest : Walks step nonworking remaining (cursor + step) stop) :
      Walks step nonworking (remaining + 1) cursor stop
  | skipped {remaining : ℕ} {cursor stop : Day}
      (hday : isWorkingDay (cursor + step) nonworking = false)
      (hrest : Walks step nonworking (remaining + 1) (cursor + step) stop) :
      Walks step nonworking (remaining + 1) cursor stop

/-- The loop is deterministic. -/
theorem Walks.unique {step : ℤ} {remaining : ℕ} (h : Walks step nonworking remaining x a)
    (h' : Walks step nonworking remaining x b) : a = b := by
  induction h with
  | done cursor =>
      cases h'
      rfl
  | working hday _ ih =>
      cases h' with
      | working _ hrest => exact ih hrest
      | skipped hday' _ => simp [hday] at hday'
  | skipped hday _ ih =>
      cases h' with
      | working hday' _ => simp [hday] at hday'
      | skipped _ hrest => exact ih hrest

/-- A walk ends at the working day at which its count is complete. -/
theorem Walks.stops {step : ℤ} {remaining : ℕ} (h : Walks step nonworking remaining x y)
    (hpos : remaining ≠ 0) :
    isWorkingDay y nonworking = true ∧ ∃ rounds : ℕ, rounds ≠ 0 ∧ y = x + step * rounds ∧
      countAlong (fun d => isWorkingDay d nonworking = true) step x rounds = remaining := by
  induction h with
  | done => exact absurd rfl hpos
  | @working remaining cursor stop hday hrest ih =>
      by_cases hzero : remaining = 0
      · subst hzero
        cases hrest
        exact ⟨hday, 1, one_ne_zero, by simp, by simp [countAlong, hday]⟩
      · obtain ⟨hstop, rounds, -, rfl, hcount⟩ := ih hzero
        refine ⟨hstop, rounds + 1, by omega, by push_cast; ring, ?_⟩
        rw [countAlong, if_pos hday, hcount]
  | @skipped remaining cursor stop hday hrest ih =>
      obtain ⟨hstop, rounds, -, rfl, hcount⟩ := ih hpos
      refine ⟨hstop, rounds + 1, by omega, by push_cast; ring, ?_⟩
      rw [countAlong, if_neg (by simp [hday]), hcount]

/-- Enough rounds: as many as there are days that hold the working days to pass. -/
theorem walks_walkWorkingDays {step : ℤ} {fuel remaining : ℕ}
    (h : remaining ≤ countAlong (fun d => isWorkingDay d nonworking = true) step x fuel) :
    Walks step nonworking remaining x (walkWorkingDays step nonworking fuel remaining x) := by
  induction fuel generalizing remaining x with
  | zero =>
      obtain rfl : remaining = 0 := Nat.le_zero.1 h
      exact .done x
  | succ fuel ih =>
      cases remaining with
      | zero => exact .done x
      | succ remaining =>
          rw [countAlong] at h
          rw [walkWorkingDays]
          cases hday : isWorkingDay (x + step) nonworking with
          | true =>
              rw [hday, if_pos rfl] at h
              exact .working hday (ih (by omega))
          | false =>
              rw [hday, if_neg Bool.false_ne_true, add_zero] at h
              exact .skipped hday (ih h)

/-- In seven times as many days as there are working days to pass and listed days, they pass. -/
theorem le_tally_weeks (x : ℤ) (n : ℕ) (nonworking : List Day) :
    (n : ℤ) ≤ tally (fun d => isWorkingDay d nonworking = true) x
      (x + (7 * (n + nonworking.length) : ℕ)) := by
  have hlisted := tally_mem_le nonworking
    (show x ≤ x + (7 * (n + nonworking.length) : ℕ) by omega)
  rw [tally_working, tally_isWeekday]
  unfold weekdaysUpTo weekday
  push_cast at hlisted ⊢
  omega

/-! ## The law -/

variable (nonworking x) in
theorem walks_addWorkingDays {n : ℤ} (hn : 1 ≤ n) :
    Walks 1 nonworking n.natAbs x (addWorkingDays x n nonworking) := by
  have hweeks := le_tally_weeks x n.natAbs nonworking
  unfold addWorkingDays
  rw [if_pos (by omega)]
  rw [← countAlong_one] at hweeks
  exact walks_walkWorkingDays (by exact_mod_cast hweeks)

variable (nonworking x) in
/-- Where `addWorkingDays` stops. -/
theorem addWorkingDays_spec {n : ℤ} (hn : 1 ≤ n) :
    isWorkingDay (addWorkingDays x n nonworking) nonworking = true ∧
      x < addWorkingDays x n nonworking ∧
      tally (fun d => isWorkingDay d nonworking = true) x (addWorkingDays x n nonworking) = n := by
  obtain ⟨hday, rounds, hpos, hstop, hcount⟩ :=
    (walks_addWorkingDays nonworking x hn).stops (by omega)
  rw [one_mul] at hstop
  refine ⟨hday, by omega, ?_⟩
  rw [hstop, ← countAlong_one, hcount]
  omega

theorem lt_addWorkingDays_iff {n : ℤ} (hn : 1 ≤ n) :
    y < addWorkingDays x n nonworking ↔ workingDaysBetween x y nonworking < n := by
  obtain ⟨hday, -, htally⟩ := addWorkingDays_spec nonworking x hn
  rw [workingDaysBetween_eq_tally]
  exact lt_iff_tally_lt hday htally

end

/-- Stepping over working days and counting them are inverse: the loop ends, at the least day with
the count, and the count is additive in its end points. -/
theorem workingDays_galois (nonworking : List Day) :
    (∀ (x : Day) (n : ℤ), 1 ≤ n →
      Walks 1 nonworking n.natAbs x (addWorkingDays x n nonworking) ∧
      IsLeast {y | x < y ∧ workingDaysBetween x y nonworking = n}
        (addWorkingDays x n nonworking) ∧
      ∀ y, y < addWorkingDays x n nonworking ↔ workingDaysBetween x y nonworking < n) ∧
    (∀ a b c : Day, workingDaysBetween a b nonworking + workingDaysBetween b c nonworking =
      workingDaysBetween a c nonworking) ∧
    (∀ a b : Day, workingDaysBetween b a nonworking = -workingDaysBetween a b nonworking) ∧
    ∀ a b c : Day, b ≤ c →
      workingDaysBetween a b nonworking ≤ workingDaysBetween a c nonworking := by
  refine ⟨fun x n hn => ⟨walks_addWorkingDays nonworking x hn, ⟨?_, ?_⟩,
    fun y => lt_addWorkingDays_iff hn⟩, ?_, ?_, ?_⟩
  · obtain ⟨-, hlt, htally⟩ := addWorkingDays_spec nonworking x hn
    exact ⟨hlt, by rw [workingDaysBetween_eq_tally, htally]⟩
  · rintro y ⟨-, hcount⟩
    by_contra hlt
    rw [not_le, lt_addWorkingDays_iff hn] at hlt
    omega
  · intro a b c
    simp only [workingDaysBetween_eq_tally, tally_add]
  · intro a b
    rw [workingDaysBetween_eq_tally, workingDaysBetween_eq_tally, tally_comm]
  · intro a b c hle
    rw [workingDaysBetween_eq_tally, workingDaysBetween_eq_tally]
    exact tally_le_tally hle

end OfficeConnect
