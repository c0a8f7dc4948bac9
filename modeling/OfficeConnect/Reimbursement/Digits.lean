import OfficeConnect.Reimbursement.DayRates

/-!
# Twenty-eight digits

Where the daily rate times a percent, taken for every day of the trip, keeps within 28 digits,
`Decimal` computes the per diem as exact arithmetic would, up to the centavo each component is
rounded to.  Percents of sixteen digits can go beyond: a component of a larger product loses
centavos, and so does a sum.
-/

namespace OfficeConnect.Reimbursement

open Lib

/-! ## One day -/

section

variable {trip : Journey} {day : Day} {t : Terms} {c : Component} {bound : ℤ}

theorem toMoney_eq_halfUp {q : ℚ} : toMoney q = halfUp (q * 100) := by
  have hsign : (0 ≤ q) = (0 ≤ q * 100) := by
    rw [eq_iff_iff]
    constructor
    · intro h
      positivity
    · intro h
      linarith
  rw [toMoney, halfUp, neg_mul]
  simp only [hsign]

theorem Terms.gross_eq_halfUp :
    t.gross c = halfUp ((Decimal.inContext (t.dailyRate * t.parts.pct c) : ℚ) / 100) := by
  rw [Terms.gross, toMoney_eq_halfUp]
  congr 1
  ring

/-- A component is within half a centavo of its product; both in hundredths of a centavo. -/
theorem abs_gross_sub_le :
    |100 * t.gross c - Decimal.inContext (t.dailyRate * t.parts.pct c)| ≤ 50 := by
  have hround := abs_halfUp_sub_le (q := (Decimal.inContext (t.dailyRate * t.parts.pct c) : ℚ) / 100)
  rw [← Terms.gross_eq_halfUp, abs_le] at hround
  rw [abs_le]
  constructor
  · have hlow : ((-50 : ℤ) : ℚ) ≤
        (100 * t.gross c - Decimal.inContext (t.dailyRate * t.parts.pct c) : ℤ) := by
      push_cast
      linarith [hround.1]
    exact_mod_cast hlow
  · have hhigh : ((100 * t.gross c - Decimal.inContext (t.dailyRate * t.parts.pct c) : ℤ) : ℚ) ≤
        (50 : ℤ) := by
      push_cast
      linarith [hround.2]
    exact_mod_cast hhigh

/-- A product that fits is rounded to the centavo only. -/
theorem Terms.gross_eq (h : |t.dailyRate * t.parts.pct c| < 10 ^ 28) :
    t.gross c = halfUp ((t.dailyRate * t.parts.pct c : ℚ) / 100) := by
  rw [Terms.gross_eq_halfUp, Decimal.inContext_of_lt h, Int.cast_mul]

/-- Less than half a centavo is nothing. -/
theorem abs_gross_le (h : |t.dailyRate * t.parts.pct c| < 10 ^ 28) :
    50 * |t.gross c| ≤ |t.dailyRate * t.parts.pct c| := by
  have hround := abs_gross_sub_le (t := t) (c := c)
  rw [Decimal.inContext_of_lt h, abs_le] at hround
  have hgross := abs_nonneg (t.gross c)
  have hproduct := abs_nonneg (t.dailyRate * t.parts.pct c)
  rcases abs_choice (t.gross c) with hg | hg <;>
    rcases abs_choice (t.dailyRate * t.parts.pct c) with hx | hx <;> omega

theorem length_paidComponents_le : (paidComponents trip day).length ≤ 3 := by
  rw [paidComponents]
  split_ifs
  · simp
  · refine (List.length_filter_le _ _).trans ?_
    cases dayType trip day <;> decide

/-- Small products make a small day, and its amount is the sum of its components. -/
theorem amount_of_bounded (h : ∀ c, |t.dailyRate * t.parts.pct c| ≤ bound)
    (hbound : bound < 10 ^ 28) :
    (dayOf trip day t).amount = ((paidComponents trip day).map t.gross).sum ∧
      |(dayOf trip day t).amount| ≤ bound := by
  have hlength : ((paidComponents trip day).length : ℤ) ≤ 3 := by
    exact_mod_cast length_paidComponents_le
  have hgross : ∀ v ∈ (paidComponents trip day).map t.gross, |v| ≤ bound / 50 := by
    intro v hv
    obtain ⟨c, -, rfl⟩ := List.mem_map.1 hv
    have hsmall := abs_gross_le ((h c).trans_lt hbound)
    have hc := h c
    omega
  have hpos : 0 ≤ bound := (abs_nonneg _).trans (h .meals)
  have hsum : ((paidComponents trip day).map t.gross).length * (bound / 50) ≤ 3 * (bound / 50) := by
    rw [List.length_map]
    exact mul_le_mul_of_nonneg_right hlength (by omega)
  have hexact : (dayOf trip day t).amount = _ := amount_dayOf
  rw [Decimal.contextSum_of_bounded hgross (by omega)] at hexact
  refine ⟨hexact, ?_⟩
  rw [hexact]
  have habs := Decimal.abs_sum_le hgross
  omega

theorem amount_of_fits (h : ∀ c, |t.dailyRate * t.parts.pct c| < 10 ^ 28) :
    (dayOf trip day t).amount = ((paidComponents trip day).map t.gross).sum :=
  (amount_of_bounded (fun c => Int.le_sub_one_of_lt (h c)) (by norm_num)).1

end

/-! ## The whole trip -/

/-- On every day the rate, in centavos, times a percent, times the number of the days, keeps within
28 digits. -/
def PerDiemInput.WithinDigits (x : PerDiemInput) : Prop :=
  ∀ first last ts, tripSpan x.legs x.dateDepart x.dateReturn = .ok (first, last) →
    tripTerms (x.trip first last) (span first last) none = .ok ts →
    ∀ t ∈ ts, ∀ c, |t.dailyRate * t.parts.pct c| * ts.length < 10 ^ 28

/-- The components make up the days, and the values of the legs and the legless days the total. -/
structure AddsUp (legs : List LegInput) (r : PerDiemResult) : Prop where
  amount : ∀ d ∈ r.days, d.amount = (d.components.map (·.2)).sum
  conserved : ((legValues legs r.days).map (·.2.2)).sum +
    ((r.days.filter (·.legId = none)).map (·.amount)).sum = r.perDiemTotal

section

variable {x : PerDiemInput} {r : PerDiemResult}

/-- The terms of a trip within the digits, bounded by what their number leaves each of them. -/
theorem PerDiemInput.WithinDigits.bounded (h : x.WithinDigits) {first last : Day} {ts : List Terms}
    (hspan : tripSpan x.legs x.dateDepart x.dateReturn = .ok (first, last))
    (hts : tripTerms (x.trip first last) (span first last) none = .ok ts) :
    ∃ bound : ℤ, ts.length * bound < 10 ^ 28 ∧
      ∀ t ∈ ts, bound < 10 ^ 28 ∧ ∀ c, |t.dailyRate * t.parts.pct c| ≤ bound := by
  refine ⟨(10 ^ 28 - 1) / ts.length, ?_, fun t ht => ?_⟩
  · rcases eq_or_ne (ts.length : ℤ) 0 with hnil | hne
    · rw [hnil, zero_mul]
      norm_num
    · exact (Int.mul_ediv_self_le hne).trans_lt (by norm_num)
  · have hpos : (0 : ℤ) < ts.length := by
      exact_mod_cast List.length_pos_of_mem ht
    refine ⟨?_, fun c => ?_⟩
    · refine (Int.ediv_le_self _ (by norm_num)).trans_lt (by norm_num)
    · rw [Int.le_ediv_iff_mul_le hpos]
      exact Int.le_sub_one_of_lt (h first last ts hspan hts t ht c)

/-- Within the digits the products of a day fit. -/
theorem PerDiemInput.WithinDigits.product_lt (h : x.WithinDigits) {first last : Day}
    {ts : List Terms} (hspan : tripSpan x.legs x.dateDepart x.dateReturn = .ok (first, last))
    (hts : tripTerms (x.trip first last) (span first last) none = .ok ts) {t : Terms} (ht : t ∈ ts)
    (c : Component) : |t.dailyRate * t.parts.pct c| < 10 ^ 28 := by
  obtain ⟨bound, -, hterms⟩ := h.bounded hspan hts
  exact ((hterms t ht).2 c).trans_lt (hterms t ht).1

/-- Within the digits every day is exact, and so is the total. -/
theorem PerDiemInput.WithinDigits.exact (hdigits : x.WithinDigits) (h : x.run = .ok r) :
    (∀ d ∈ r.days, d.amount = (d.components.map (·.2)).sum) ∧
      r.perDiemTotal = (r.days.map (·.amount)).sum := by
  obtain ⟨-, -, first, last, hspan, -, -, -, ts, hts, -, hdays, htotal, -⟩ :=
    PerDiemInput.run_eq_ok.1 h
  obtain ⟨bound, hbound, hterms⟩ := hdigits.bounded hspan hts
  have hday : ∀ d ∈ r.days, d.amount = (d.components.map (·.2)).sum ∧ |d.amount| ≤ bound := by
    intro d hd
    rw [hdays] at hd
    obtain ⟨p, hp, rfl⟩ := List.mem_map.1 hd
    obtain ⟨hlt, hall⟩ := hterms p.2 (List.of_mem_zip hp).2
    have hexact : (dayOf (x.trip first last) p.1 p.2).amount = _ ∧ _ ≤ bound :=
      amount_of_bounded hall hlt
    refine ⟨?_, hexact.2⟩
    rw [hexact.1, components_dayOf, List.map_map]
    rfl
  refine ⟨fun d hd => (hday d hd).1, ?_⟩
  obtain ⟨-, htotal⟩ := sumMoney_eq_ok.1 htotal
  have hlength : (r.days.map (·.amount)).length = ts.length := by
    rw [hdays, List.length_map, List.length_map, List.length_zip,
      (termsOn_of_tripTerms hts).1, min_self]
  rw [← htotal]
  have hsmall : ∀ a ∈ r.days.map (·.amount), |a| ≤ bound := by
    intro a ha
    obtain ⟨d, hd, rfl⟩ := List.mem_map.1 ha
    exact (hday d hd).2
  exact Decimal.contextSum_of_bounded hsmall (by rwa [hlength])

/-- Every computation that succeeds on legs with distinct ids pays every day of the trip once, and
what it pays adds up within the digits. -/
theorem computePerDiem_paysOnce (hids : Identified x.legs) (h : x.run = .ok r) :
    (∃ first last, tripSpan x.legs x.dateDepart x.dateReturn = .ok (first, last) ∧
      PaysOnce x.legs first last r) ∧
    (x.WithinDigits → AddsUp x.legs r) := by
  have hpays := paysOnce_of_ok hids h
  refine ⟨hpays, fun hdigits => ?_⟩
  obtain ⟨hamount, htotal⟩ := hdigits.exact h
  obtain ⟨_, _, -, hpays⟩ := hpays
  exact ⟨hamount, hpays.conserved.trans htotal.symm⟩

/-- Whether a trip is within the digits, found by looking its terms up. -/
theorem withinDigits_of_all {first last : Day} {ts : List Terms}
    (hspan : tripSpan x.legs x.dateDepart x.dateReturn = .ok (first, last))
    (hts : tripTerms (x.trip first last) (span first last) none = .ok ts)
    (h : (ts.all fun t => [Component.lodging, .meals, .incidentals].all fun c =>
      |t.dailyRate * t.parts.pct c| * ts.length < 10 ^ 28) = true) : x.WithinDigits := by
  intro first' last' ts' hspan' hts' t ht c
  obtain ⟨rfl, rfl⟩ := Prod.mk.inj (Except.ok.inj (hspan.symm.trans hspan'))
  obtain rfl := Except.ok.inj (hts.symm.trans hts')
  have hc := List.all_eq_true.1 (List.all_eq_true.1 h t ht) c (by cases c <;> decide)
  simpa using hc

end

/-- Out on a day with two legs, a day without one, and back. -/
def threeDays : PerDiemInput where
  legs := [{ id := some 7, seq := 1, legDate := some 20454, destinationRegionCode := some "13"
             transportMode := some .bus, fare := some 50000 },
           { id := some 9, seq := 2, legDate := some 20454, destinationRegionCode := some "04"
             transportMode := some .taxi, fare := some 20000, mealsProvided := true },
           { id := some 4, seq := 3, legDate := some 20456, destinationRegionCode := some "13"
             transportMode := some .bus, fare := some 50000 }]
  dateDepart := some 20454
  dateReturn := some 20456
  claimRegionCode := none
  isWithin50km := false
  overnightStay := true
  regions := [{ regionCode := "13", cluster := "I", effectiveFrom := 0 },
              { regionCode := "04", cluster := "II", effectiveFrom := 0 }]
  rates := [{ cluster := "I", dailyRate := 220000, effectiveFrom := 0 },
            { cluster := "II", dailyRate := 180000, effectiveFrom := 0 }]
  configs := [
    { key := apportionmentKey, effectiveFrom := 0
      value := some [("lodging", .int 50), ("meals", .int 30), ("incidentals", .int 20)] },
    { key := departureRateKey, effectiveFrom := 0, value := some [("pct", .int 50)] }]

theorem threeDays_paysOnce : ∃ r, threeDays.run = .ok r ∧
    r.perDiemTotal = 126000 + 180000 + 110000 ∧
    (∃ first last, tripSpan threeDays.legs threeDays.dateDepart threeDays.dateReturn =
      .ok (first, last) ∧ PaysOnce threeDays.legs first last r) ∧ AddsUp threeDays.legs r := by
  obtain ⟨r, hr, htotal⟩ := exists_eq_ok (x := threeDays.run)
    (fun r => r.perDiemTotal = 126000 + 180000 + 110000) (by decide +kernel)
  obtain ⟨ts, hts, hbounded⟩ := exists_eq_ok
    (x := tripTerms (threeDays.trip 20454 20456) (span 20454 20456) none)
    (fun ts => ts.all fun t => [Component.lodging, .meals, .incidentals].all fun c =>
      |t.dailyRate * t.parts.pct c| * ts.length < 10 ^ 28) (by decide +kernel)
  have hpays := computePerDiem_paysOnce ⟨by decide, by decide⟩ hr
  exact ⟨r, hr, by simpa using htotal, hpays.1, hpays.2 (withinDigits_of_all rfl hts hbounded)⟩

/-- The highest rate but two centavos, and percents of eighteen digits that add up to a hundred. -/
def coarse : PerDiemInput where
  legs := [{ id := some 1, seq := 1, legDate := some 20454, destinationRegionCode := some "13"
             transportMode := some .bus, fare := some 50000 },
           { id := some 2, seq := 2, legDate := some 20455, destinationRegionCode := some "13"
             transportMode := some .bus, fare := some 50000 }]
  dateDepart := none
  dateReturn := none
  claimRegionCode := none
  isWithin50km := false
  overnightStay := true
  regions := [{ regionCode := "13", cluster := "I", effectiveFrom := 0 }]
  rates := [{ cluster := "I", dailyRate := 999999999997, effectiveFrom := 0 }]
  configs := [
    { key := apportionmentKey, effectiveFrom := 0
      value := some [("lodging", .int 408360186182938917), ("meals", .int 591639813820061143),
        ("incidentals", .int (-1000000000002999960))] },
    { key := departureRateKey, effectiveFrom := 0
      value := some [("pct", .int (-408360186182938817))] }]

/-- The day out is paid two centavos more than its components add up to. -/
theorem coarse_not_addsUp : ∃ r, coarse.run = .ok r ∧ Identified coarse.legs ∧
    ∃ d ∈ r.days, d.amount = 999999999999 ∧ (d.components.map (·.2)).sum = 999999999997 := by
  obtain ⟨r, hr, hday⟩ := exists_eq_ok (x := coarse.run)
    (fun r => r.days.any fun d =>
      d.amount = 999999999999 ∧ (d.components.map (·.2)).sum = 999999999997) (by decide +kernel)
  obtain ⟨d, hd, hoff⟩ := List.any_eq_true.1 hday
  exact ⟨r, hr, ⟨by decide, by decide⟩, d, hd, by simpa using hoff⟩

end OfficeConnect.Reimbursement
