import OfficeConnect.Reimbursement.Digits

/-!
# Rounding the per diem

Each component of a day is rounded on its own.  The components of a full day add up to the daily
rate, which is a whole number of centavos, so the three roundings together are off by one centavo at
most; fewer components cannot be off by more.
-/

namespace OfficeConnect.Reimbursement

open Lib

/-- The percents of the components a day pays. -/
def paidPercent (configs : List ConfigRow) (d : DayBreakdown) : ℤ :=
  match apportionment configs d.day with
  | .ok parts => (d.components.map fun c => parts.pct c.1).sum
  | .error _ => 0

section

variable {t : Terms} {cs : List Component} {type : DayType} {trip : Journey} {day : Day}
variable {configs : List ConfigRow}

/-- What a list of components comes to before it is rounded. -/
theorem sum_exact : (cs.map fun c => (t.dailyRate * t.parts.pct c : ℚ) / 100).sum =
    t.dailyRate * ((cs.map t.parts.pct).sum : ℤ) / 100 := by
  induction cs with
  | nil => simp
  | cons c cs ih =>
      rw [List.map_cons, List.sum_cons, ih, List.map_cons, List.sum_cons]
      push_cast
      ring

/-- At most two components, or three that make up the whole day. -/
theorem abs_sum_gross_le (hfits : ∀ c, |t.dailyRate * t.parts.pct c| < 10 ^ 28)
    (h : cs.length ≤ 2 ∨ cs.length ≤ 3 ∧ (cs.map t.parts.pct).sum = 100) :
    |((cs.map t.gross).sum : ℚ) - t.dailyRate * ((cs.map t.parts.pct).sum : ℤ) / 100| ≤ 1 := by
  have hgross : cs.map t.gross =
      (cs.map fun c => (t.dailyRate * t.parts.pct c : ℚ) / 100).map halfUp := by
    rw [List.map_map]
    exact List.map_congr_left fun c _ => Terms.gross_eq (hfits c)
  rcases h with hlen | ⟨hlen, hsum⟩
  · rw [hgross, ← sum_exact]
    refine (abs_sum_halfUp_sub_le _).trans ?_
    rw [List.length_map]
    have : (cs.length : ℚ) ≤ 2 := by exact_mod_cast hlen
    linarith
  · have hexact : (cs.map fun c => (t.dailyRate * t.parts.pct c : ℚ) / 100).sum =
        (t.dailyRate : ℚ) := by
      rw [sum_exact, hsum]
      push_cast
      ring
    have herror := abs_sum_halfUp_sub_le_of_int hexact
    rw [List.length_map, ← hgross] at herror
    have hone : |(cs.map t.gross).sum - t.dailyRate| ≤ 1 := by omega
    rw [← sum_exact, hexact]
    exact_mod_cast hone

/-- The components of a day type are two, or three that make up the whole day. -/
theorem length_dayComponents (type : DayType)
    (hhundred : t.parts.lodging + t.parts.meals + t.parts.incidentals = 100) :
    (dayComponents type).length ≤ 2 ∨
      (dayComponents type).length ≤ 3 ∧ ((dayComponents type).map t.parts.pct).sum = 100 := by
  cases type <;> simp [dayComponents, Apportionment.pct, ← hhundred, add_assoc]

/-- What is left of them is fewer or all. -/
theorem length_paidComponents
    (hhundred : t.parts.lodging + t.parts.meals + t.parts.incidentals = 100) :
    (paidComponents trip day).length ≤ 2 ∨ (paidComponents trip day).length ≤ 3 ∧
      ((paidComponents trip day).map t.parts.pct).sum = 100 := by
  by_cases hgated : trip.gated = true
  · left
    simp [paidComponents, hgated]
  · rw [paidComponents, if_neg hgated]
    have hsub := List.filter_sublist (p := fun c => ¬ provided (controlling trip.legs day) c)
      (l := dayComponents (dayType trip day))
    rcases length_dayComponents (dayType trip day) hhundred with htwo | ⟨hthree, hsum⟩
    · exact .inl (hsub.length_le.trans htwo)
    · by_cases hall : 3 ≤ ((dayComponents (dayType trip day)).filter
          fun c => ¬ provided (controlling trip.legs day) c).length
      · right
        rw [hsub.eq_of_length_le (hthree.trans hall)]
        exact ⟨hthree, hsum⟩
      · left
        omega

/-- A day and what the host provides of it come to its percentage of the daily rate. -/
theorem dayOf_rounded (hgated : trip.gated = false)
    (hhundred : t.parts.lodging + t.parts.meals + t.parts.incidentals = 100)
    (hfits : ∀ c, |t.dailyRate * t.parts.pct c| < 10 ^ 28) :
    |(((dayOf trip day t).amount + ((dayOf trip day t).deductions.map (·.2)).sum : ℤ) : ℚ) -
      (dayOf trip day t).dailyRate * (dayOf trip day t).pct / 100| ≤ 1 := by
  have hpct : (dayOf trip day t).pct = ((dayComponents (dayType trip day)).map t.parts.pct).sum := by
    simp [dayOf, hgated]
  have hgross : (dayOf trip day t).amount + ((dayOf trip day t).deductions.map (·.2)).sum =
      ((dayComponents (dayType trip day)).map t.gross).sum := by
    rw [amount_of_fits hfits, deductions_dayOf, List.map_map, ← sum_paid_stripped hgated]
    rfl
  rw [hpct, hgross]
  exact abs_sum_gross_le hfits (length_dayComponents _ hhundred)

/-- A day comes to the percents it pays. -/
theorem dayOf_paid (hparts : apportionment configs day = .ok t.parts)
    (hfits : ∀ c, |t.dailyRate * t.parts.pct c| < 10 ^ 28) :
    |((dayOf trip day t).amount : ℚ) -
      (dayOf trip day t).dailyRate * paidPercent configs (dayOf trip day t) / 100| ≤ 1 := by
  have hpct : paidPercent configs (dayOf trip day t) =
      ((paidComponents trip day).map t.parts.pct).sum := by
    have hday : apportionment configs (dayOf trip day t).day = .ok t.parts := hparts
    rw [paidPercent, hday, components_dayOf]
    simp only [List.map_map]
    rfl
  rw [hpct, amount_of_fits hfits]
  exact abs_sum_gross_le hfits (length_paidComponents (hundred_of_apportionment hparts))

end

/-- A sum of days is off by no more than each of them is. -/
theorem abs_sum_sub_le {ds : List DayBreakdown} {f : DayBreakdown → ℚ}
    (h : ∀ d ∈ ds, |(d.amount : ℚ) - f d| ≤ 1) :
    |(((ds.map (·.amount)).sum : ℤ) : ℚ) - (ds.map f).sum| ≤ ds.length := by
  induction ds with
  | nil => simp
  | cons d ds ih =>
      have hd := h d (by simp)
      have hds := ih fun e he => h e (List.mem_cons_of_mem _ he)
      rw [List.map_cons, List.sum_cons, List.map_cons, List.sum_cons, List.length_cons, Int.cast_add,
        Nat.cast_succ]
      calc |(d.amount : ℚ) + ((ds.map (·.amount)).sum : ℤ) - (f d + (ds.map f).sum)|
          = |((d.amount : ℚ) - f d) + (((ds.map (·.amount)).sum : ℤ) - (ds.map f).sum)| := by
            congr 1
            ring
        _ ≤ |(d.amount : ℚ) - f d| + |(((ds.map (·.amount)).sum : ℤ) : ℚ) - (ds.map f).sum| :=
            abs_add_le _ _
        _ ≤ 1 + ds.length := add_le_add hd hds
        _ = ds.length + 1 := add_comm _ _

/-- Within the digits, rounding costs a day a centavo at most, and the trip a centavo a day; all in
centavos. -/
theorem computePerDiem_rounded {x : PerDiemInput} {r : PerDiemResult} (h : x.run = .ok r)
    (hdigits : x.WithinDigits) :
    (∀ d ∈ r.days, d.gated50km = false →
      |((d.amount + (d.deductions.map (·.2)).sum : ℤ) : ℚ) - d.dailyRate * d.pct / 100| ≤ 1) ∧
    |(r.perDiemTotal : ℚ) - (r.days.map fun d =>
        (d.dailyRate : ℚ) * paidPercent x.configs d / 100).sum| ≤ r.days.length := by
  constructor
  · intro d hd hgated
    obtain ⟨first, last, ts, t, hspan, hts, ht, hparts, heq⟩ := PerDiemInput.dayOf_of_mem h hd
    rw [← heq] at hgated ⊢
    exact dayOf_rounded hgated (hundred_of_apportionment hparts)
      (hdigits.product_lt hspan hts ht)
  · rw [(hdigits.exact h).2]
    refine abs_sum_sub_le fun d hd => ?_
    obtain ⟨first, last, ts, t, hspan, hts, ht, hparts, heq⟩ := PerDiemInput.dayOf_of_mem h hd
    rw [← heq]
    exact dayOf_paid hparts (hdigits.product_lt hspan hts ht)

/-- Thirds of a rate of 100.01 pesos, out on a day and back on the next. -/
def oddRate : PerDiemInput where
  legs := [{ id := some 1, seq := 1, legDate := some 20454, destinationRegionCode := some "13"
             transportMode := some .bus, fare := some 50000 },
           { id := some 2, seq := 2, legDate := some 20455, destinationRegionCode := some "13"
             transportMode := some .bus, fare := some 50000, mealsProvided := true }]
  dateDepart := none
  dateReturn := none
  claimRegionCode := none
  isWithin50km := false
  overnightStay := true
  regions := [{ regionCode := "13", cluster := "I", effectiveFrom := 0 }]
  rates := [{ cluster := "I", dailyRate := 10001, effectiveFrom := 0 }]
  configs := [
    { key := apportionmentKey, effectiveFrom := 0
      value := some [("lodging", .int 34), ("meals", .int 33), ("incidentals", .int 33)] },
    { key := departureRateKey, effectiveFrom := 0, value := some [("pct", .int 66)] }]

theorem oddRate_withinDigits : oddRate.WithinDigits := by
  obtain ⟨ts, hts, hbounded⟩ := exists_eq_ok
    (x := tripTerms (oddRate.trip 20454 20455) (span 20454 20455) none)
    (fun ts => ts.all fun t => [Component.lodging, .meals, .incidentals].all fun c =>
      |t.dailyRate * t.parts.pct c| * ts.length < 10 ^ 28) (by decide +kernel)
  exact withinDigits_of_all rfl hts hbounded

theorem oddRate_rounded : ∃ r, oddRate.run = .ok r ∧ r.perDiemTotal = 10000 + 3300 ∧
    |(r.perDiemTotal : ℚ) - (r.days.map fun d =>
      (d.dailyRate : ℚ) * paidPercent oddRate.configs d / 100).sum| ≤ r.days.length := by
  obtain ⟨r, hr, htotal⟩ := exists_eq_ok (x := oddRate.run)
    (fun r => r.perDiemTotal = 10000 + 3300) (by decide +kernel)
  exact ⟨r, hr, by simpa using htotal, (computePerDiem_rounded hr oddRate_withinDigits).2⟩

/-- A day's trip at the highest rate, with percents of seventeen digits. -/
def vastMeals : PerDiemInput :=
  { coarse with
    legs := coarse.legs.take 1
    rates := [{ cluster := "I", dailyRate := 999999999999, effectiveFrom := 0 }]
    configs := [
      { key := apportionmentKey, effectiveFrom := 0
        value := some [("lodging", .int (-82780094131780208)), ("meals", .int 41390047065890154),
          ("incidentals", .int 41390047065890154)] },
      { key := departureRateKey, effectiveFrom := 0
        value := some [("pct", .int 82780094131780308)] }] }

/-- The day is more than a centavo off. -/
theorem vastMeals_not_rounded : ∃ r, vastMeals.run = .ok r ∧ ∃ d ∈ r.days, d.gated50km = false ∧
    1 < |((d.amount + (d.deductions.map (·.2)).sum : ℤ) : ℚ) - d.dailyRate * d.pct / 100| := by
  obtain ⟨r, hr, hday⟩ := exists_eq_ok (x := vastMeals.run)
    (fun r => r.days.any fun d => d.gated50km = false ∧
      1 < |((d.amount + (d.deductions.map (·.2)).sum : ℤ) : ℚ) - d.dailyRate * d.pct / 100|)
    (by decide +kernel)
  obtain ⟨d, hd, hoff⟩ := List.any_eq_true.1 hday
  exact ⟨r, hr, d, hd, by simpa using hoff⟩

end OfficeConnect.Reimbursement
