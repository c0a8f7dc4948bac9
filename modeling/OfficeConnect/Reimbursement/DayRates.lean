import OfficeConnect.Lib.HalfUp
import OfficeConnect.Lib.Latest
import OfficeConnect.Reimbursement.Breakdown

/-!
# What a day is paid at

The loop reads a region, a rate and the percents of each day, and pays the day from these alone,
where the money fits into 28 digits.
-/

namespace OfficeConnect.Reimbursement

open Lib

/-! ## The rows in force -/

/-- A lookup takes the first of the latest rows. -/
theorem asOf_eq_argmax {α : Type} {effectiveFrom : α → Day} {p : α → Bool} {day : Day}
    {rows : List α} :
    asOf effectiveFrom p day rows =
      (rows.filter fun row => p row ∧ effectiveFrom row ≤ day).argmax effectiveFrom := by
  rw [asOf, List.argmax]
  congr 1
  funext best row
  cases best with
  | none => rfl
  | some b => rfl

/-! ## The terms of a day -/

/-- What the tables say of a day. -/
structure Terms where
  region : String
  cluster : String
  dailyRate : ℤ
  parts : Apportionment
deriving DecidableEq, Repr

/-- One component of a day, before any strip. -/
def Terms.gross (t : Terms) (c : Component) : ℤ :=
  toMoney (Decimal.inContext (t.dailyRate * t.parts.pct c) / 10000)

def termsOn (trip : Journey) (day : Day) (prevRegion : Option String) : Except Raised Terms := do
  let region ← found (dayRegion trip (controlling trip.legs day) prevRegion)
    (missingRegionCluster day none)
  let regionRow ← found (asOf (·.effectiveFrom) (·.regionCode = region) day trip.regions)
    (missingRegionCluster day region)
  let rateRow ← found (asOf (·.effectiveFrom) (·.cluster = regionRow.cluster) day trip.rates)
    (missingDteRate regionRow.cluster day)
  let parts ← apportionment trip.configs day
  let _ ← departurePct trip.configs day parts
  return { region := region, cluster := regionRow.cluster, dailyRate := rateRow.dailyRate, parts }

/-- The day as its terms pay it; its percentage is that of its components. -/
def dayOf (trip : Journey) (day : Day) (t : Terms) : DayBreakdown :=
  let leg := controlling trip.legs day
  let gross := (dayComponents (dayType trip day)).map fun c => (c, t.gross c)
  let components := if trip.gated then [] else gross.filter fun c => ¬ provided leg c.1
  { day := day
    dayType := dayType trip day
    legId := leg.bind (·.id)
    regionCode := t.region
    cluster := t.cluster
    dailyRate := t.dailyRate
    pct := if trip.gated then 0 else ((dayComponents (dayType trip day)).map t.parts.pct).sum
    components := components
    deductions := if trip.gated then [] else gross.filter fun c => provided leg c.1
    amount := Decimal.contextSum (components.map (·.2))
    gated50km := trip.gated }

/-- Every component of the day and its amount fit into the context. -/
structure DayFits (trip : Journey) (day : Day) (t : Terms) : Prop where
  gross : ∀ c ∈ dayComponents (dayType trip day), |t.gross c| < 10 ^ 28
  amount : |(dayOf trip day t).amount| < 10 ^ 28

/-- The terms of the days of a trip, a legless day in the region of the day before. -/
def tripTerms (trip : Journey) : List Day → Option String → Except Raised (List Terms)
  | [], _ => .ok []
  | day :: rest, prevRegion => do
      let t ← termsOn trip day prevRegion
      let ts ← tripTerms trip rest (some t.region)
      return t :: ts

section

variable {trip : Journey} {day : Day} {days : List Day} {prev : Option String} {t : Terms}
variable {d : DayBreakdown} {ds : List DayBreakdown} {parts : Apportionment} {departure : ℤ}

theorem hundred_of_apportionment {configs : List ConfigRow}
    (h : apportionment configs day = .ok parts) :
    parts.lodging + parts.meals + parts.incidentals = 100 := by
  simp only [apportionment, bind_eq_ok, found_eq_ok, refuse_eq_ok, not_not, pure_eq_ok] at h
  obtain ⟨_, -, _, -, _, -, _, -, _, hsum, rfl⟩ := h
  exact hsum

/-- The shares of a rate. -/
theorem sum_shares (hhundred : t.parts.lodging + t.parts.meals + t.parts.incidentals = 100) :
    t.dailyRate * t.parts.lodging + t.dailyRate * t.parts.meals +
      t.dailyRate * t.parts.incidentals = 100 * t.dailyRate := by
  rw [← mul_add, ← mul_add, hhundred, mul_comm]

theorem departurePct_eq {configs : List ConfigRow}
    (h : departurePct configs day parts = .ok departure) :
    departure = parts.meals + parts.incidentals := by
  simp only [departurePct, bind_eq_ok, found_eq_ok, refuse_eq_ok, not_not, pure_eq_ok] at h
  obtain ⟨_, -, _, -, _, hsum, rfl⟩ := h
  exact hsum

theorem parts_of_termsOn (h : termsOn trip day prev = .ok t) :
    apportionment trip.configs day = .ok t.parts := by
  simp only [termsOn, bind_eq_ok, found_eq_ok, pure_eq_ok] at h
  obtain ⟨_, -, _, -, _, -, parts, hparts, _, -, rfl⟩ := h
  exact hparts

theorem dailyRate_of_termsOn (h : termsOn trip day prev = .ok t) :
    ∃ row ∈ trip.rates, row.dailyRate = t.dailyRate := by
  simp only [termsOn, bind_eq_ok, found_eq_ok, pure_eq_ok] at h
  obtain ⟨_, -, _, -, row, hrow, _, -, _, -, rfl⟩ := h
  rw [asOf_eq_argmax] at hrow
  exact ⟨row, List.mem_of_mem_filter (List.argmax_mem hrow), rfl⟩

/-- The components of a day's type come to its percentage. -/
theorem sum_dayComponents {configs : List ConfigRow}
    (hparts : apportionment configs day = .ok parts)
    (hdeparture : departurePct configs day parts = .ok departure) (type : DayType) :
    ((dayComponents type).map parts.pct).sum = dayPct type departure := by
  have hhundred := hundred_of_apportionment hparts
  have hdep := departurePct_eq hdeparture
  cases type <;>
    simp [dayComponents, dayPct, Apportionment.pct] <;> omega

/-- A day's percentage is that of the components of its type. -/
theorem computeDay_eq_ok :
    computeDay trip day prev = .ok d ↔
      ∃ t, termsOn trip day prev = .ok t ∧ DayFits trip day t ∧ dayOf trip day t = d := by
  simp only [computeDay, termsOn, bind_eq_ok, found_eq_ok, pure_eq_ok, mapM_quantize_eq_ok,
    sumMoney_eq_ok]
  constructor
  · rintro ⟨region, hregion, row, hrow, rate, hrate, parts, hparts, departure, hdeparture, _,
      ⟨hgross, rfl⟩, _, ⟨hamount, rfl⟩, rfl⟩
    refine ⟨_, ⟨region, hregion, row, hrow, rate, hrate, parts, hparts, departure, hdeparture,
      rfl⟩, ⟨hgross, hamount⟩, ?_⟩
    rw [← sum_dayComponents hparts hdeparture]
    rfl
  · rintro ⟨_, ⟨region, hregion, row, hrow, rate, hrate, parts, hparts, departure, hdeparture,
      rfl⟩, ⟨hgross, hamount⟩, rfl⟩
    refine ⟨region, hregion, row, hrow, rate, hrate, parts, hparts, departure, hdeparture, _,
      ⟨hgross, rfl⟩, _, ⟨hamount, rfl⟩, ?_⟩
    rw [← sum_dayComponents hparts hdeparture]
    rfl

/-- The loop pays every day at its terms, where they fit. -/
theorem computeDays_eq_ok :
    computeDays trip days prev = .ok ds ↔
      ∃ ts, tripTerms trip days prev = .ok ts ∧ (∀ p ∈ days.zip ts, DayFits trip p.1 p.2) ∧
        ((days.zip ts).map fun p => dayOf trip p.1 p.2) = ds := by
  induction days generalizing prev ds with
  | nil =>
      simp only [computeDays, tripTerms, Except.ok.injEq]
      constructor
      · rintro rfl
        exact ⟨[], rfl, by simp, rfl⟩
      · rintro ⟨ts, -, -, rfl⟩
        rfl
  | cons day rest ih =>
      simp only [computeDays, tripTerms, bind_eq_ok, pure_eq_ok, computeDay_eq_ok, ih]
      constructor
      · rintro ⟨_, ⟨t, ht, hfits, rfl⟩, _, ⟨ts, hts, hrest, rfl⟩, rfl⟩
        exact ⟨_, ⟨t, ht, ts, hts, rfl⟩, List.forall_mem_cons.2 ⟨hfits, hrest⟩, rfl⟩
      · rintro ⟨_, ⟨t, ht, ts, hts, rfl⟩, hall, rfl⟩
        obtain ⟨hfits, hrest⟩ := List.forall_mem_cons.1 hall
        exact ⟨_, ⟨t, ht, hfits, rfl⟩, _, ⟨ts, hts, hrest, rfl⟩, rfl⟩

/-- Every day has terms, read on that day. -/
theorem termsOn_of_tripTerms {ts : List Terms} (h : tripTerms trip days prev = .ok ts) :
    days.length = ts.length ∧ ∀ p ∈ days.zip ts, ∃ prev, termsOn trip p.1 prev = .ok p.2 := by
  induction days generalizing prev ts with
  | nil =>
      obtain rfl := Except.ok.inj h
      exact ⟨rfl, by simp⟩
  | cons day rest ih =>
      simp only [tripTerms, bind_eq_ok, pure_eq_ok] at h
      obtain ⟨t, ht, ts, hts, rfl⟩ := h
      obtain ⟨hlen, hall⟩ := ih hts
      refine ⟨by simp [hlen], fun p hp => ?_⟩
      rcases List.mem_cons.1 hp with rfl | hp
      · exact ⟨prev, ht⟩
      · exact hall p hp

end

/-! ## The components of a day -/

/-- What is left to pay of a day. -/
def paidComponents (trip : Journey) (day : Day) : List Component :=
  if trip.gated then []
  else (dayComponents (dayType trip day)).filter fun c => ¬ provided (controlling trip.legs day) c

/-- What the host provides of it. -/
def strippedComponents (trip : Journey) (day : Day) : List Component :=
  if trip.gated then []
  else (dayComponents (dayType trip day)).filter fun c => provided (controlling trip.legs day) c

section

variable {trip : Journey} {day : Day} {t : Terms}

theorem components_dayOf :
    (dayOf trip day t).components = (paidComponents trip day).map fun c => (c, t.gross c) := by
  simp only [dayOf, paidComponents]
  split_ifs
  · rfl
  · rw [List.filter_map]
    rfl

theorem deductions_dayOf :
    (dayOf trip day t).deductions = (strippedComponents trip day).map fun c => (c, t.gross c) := by
  simp only [dayOf, strippedComponents]
  split_ifs
  · rfl
  · rw [List.filter_map]
    rfl

theorem amount_dayOf : (dayOf trip day t).amount =
    Decimal.contextSum ((paidComponents trip day).map t.gross) := by
  have hamount : (dayOf trip day t).amount =
    Decimal.contextSum ((dayOf trip day t).components.map (·.2)) := rfl
  rw [hamount, components_dayOf, List.map_map]
  rfl

/-- Nothing is lost between what is paid and what is stripped. -/
theorem sum_paid_stripped (hgated : trip.gated = false) (f : Component → ℤ) :
    ((paidComponents trip day).map f).sum + ((strippedComponents trip day).map f).sum =
      ((dayComponents (dayType trip day)).map f).sum := by
  simp only [paidComponents, strippedComponents, hgated, Bool.false_eq_true, if_false]
  induction dayComponents (dayType trip day) with
  | nil => rfl
  | cons c cs ih =>
      cases hprovided : provided (controlling trip.legs day) c with
      | false => simp [hprovided, ← ih, add_assoc]
      | true => simp [hprovided, ← ih, add_left_comm]

end

/-! ## The whole computation -/

/-- What `compute_per_diem` is called with. -/
structure PerDiemInput where
  legs : List LegInput
  dateDepart : Option Day
  dateReturn : Option Day
  claimRegionCode : Option String
  isWithin50km : Bool
  overnightStay : Bool
  regions : List RegionRow
  rates : List RateRow
  configs : List ConfigRow

def PerDiemInput.run (x : PerDiemInput) : Except Raised PerDiemResult :=
  computePerDiem x.legs x.dateDepart x.dateReturn x.claimRegionCode x.isWithin50km x.overnightStay
    x.regions x.rates x.configs

def PerDiemInput.gated (x : PerDiemInput) : Bool := x.isWithin50km && !x.overnightStay

def PerDiemInput.trip (x : PerDiemInput) (first last : Day) : Journey :=
  { legs := x.legs, first, last, claimRegionCode := x.claimRegionCode, gated := x.gated
    regions := x.regions, rates := x.rates, configs := x.configs }

/-- The computation returns where its legs are in order, every day has terms and the money fits. -/
theorem PerDiemInput.run_eq_ok {x : PerDiemInput} {r : PerDiemResult} :
    x.run = .ok r ↔
      x.legs ≠ [] ∧ checkLegs x.legs = .ok () ∧ ∃ first last,
        tripSpan x.legs x.dateDepart x.dateReturn = .ok (first, last) ∧ first ≤ last ∧
        (∀ day ∈ x.legs.filterMap (·.legDate), first ≤ day ∧ day ≤ last) ∧
        (minDate ≤ first ∧ last ≤ maxDate) ∧ ∃ ts,
          tripTerms (x.trip first last) (span first last) none = .ok ts ∧
          (∀ p ∈ (span first last).zip ts, DayFits (x.trip first last) p.1 p.2) ∧
          r.days = ((span first last).zip ts).map (fun p => dayOf (x.trip first last) p.1 p.2) ∧
          sumMoney (r.days.map (·.amount)) = .ok r.perDiemTotal ∧
          sumFares x.legs = .ok r.transportTotal := by
  rw [PerDiemInput.run, computePerDiem_eq_ok]
  constructor
  · rintro ⟨hlegs, hcheck, first, last, hspan, horder, hwithin, hdates, hdays, hsums⟩
    obtain ⟨ts, hts, hfits, hdays⟩ := computeDays_eq_ok.1 hdays
    exact ⟨hlegs, hcheck, first, last, hspan, horder, hwithin, hdates, ts, hts, hfits, hdays.symm,
      hsums⟩
  · rintro ⟨hlegs, hcheck, first, last, hspan, horder, hwithin, hdates, ts, hts, hfits, hdays, hsums⟩
    exact ⟨hlegs, hcheck, first, last, hspan, horder, hwithin, hdates,
      computeDays_eq_ok.2 ⟨ts, hts, hfits, hdays.symm⟩, hsums⟩

/-- Every day of a breakdown is paid at terms of the trip, whose percents are those in force on it. -/
theorem PerDiemInput.dayOf_of_mem {x : PerDiemInput} {r : PerDiemResult} (h : x.run = .ok r)
    {d : DayBreakdown} (hd : d ∈ r.days) : ∃ first last ts t,
      tripSpan x.legs x.dateDepart x.dateReturn = .ok (first, last) ∧
      tripTerms (x.trip first last) (span first last) none = .ok ts ∧ t ∈ ts ∧
      apportionment x.configs d.day = .ok t.parts ∧ dayOf (x.trip first last) d.day t = d := by
  obtain ⟨-, -, first, last, hspan, -, -, -, ts, hts, -, hdays, -⟩ := PerDiemInput.run_eq_ok.1 h
  rw [hdays] at hd
  obtain ⟨⟨day, t⟩, hmem, rfl⟩ := List.mem_map.1 hd
  obtain ⟨prev, ht⟩ := (termsOn_of_tripTerms hts).2 _ hmem
  exact ⟨first, last, ts, t, hspan, hts, (List.of_mem_zip hmem).2, parts_of_termsOn ht, rfl⟩

end OfficeConnect.Reimbursement
