import Mathlib.Data.List.MinMax
import Mathlib.Data.Prod.Lex
import OfficeConnect.Reimbursement.PerDiem

/-!
# The per-diem breakdown

A successful computation pays every day of the trip once: the days are the dates of the span in
order, each day is attributed to the last leg of its date, and the legs and the legless days together
are worth what the days are.
-/

namespace OfficeConnect.Reimbursement

open Lib

/-! ## The values of the legs -/

/-- A day overwrites the value of the leg that controls it. -/
def credit (values : List (ℕ × ℤ × ℤ)) (d : DayBreakdown) : List (ℕ × ℤ × ℤ) :=
  match d.legId with
  | none => values
  | some id => values.map fun v => if v.1 = id then (id, d.pct, d.amount) else v

/-- `leg_values`: every leg starts at nothing, and the loop credits the days in order. -/
def legValues (legs : List LegInput) (days : List DayBreakdown) : List (ℕ × ℤ × ℤ) :=
  days.foldl credit ((legs.filterMap (·.id)).dedup.map fun id => (id, 0, 0))

/-- The value a list of days gives a leg. -/
def valueIn (days : List DayBreakdown) (id : ℕ) : ℤ × ℤ :=
  match days.find? (·.legId = some id) with
  | some d => (d.pct, d.amount)
  | none => (0, 0)

theorem legValue_eq (r : PerDiemResult) (id : ℕ) : r.legValue id = valueIn r.days id := rfl

section Values

variable {days : List DayBreakdown} {d : DayBreakdown} {id : ℕ}

theorem valueIn_cons_self (h : d.legId = some id) : valueIn (d :: days) id = (d.pct, d.amount) := by
  rw [valueIn, List.find?_cons_of_pos (by simpa using h)]

theorem valueIn_cons_of_ne (h : d.legId ≠ some id) : valueIn (d :: days) id = valueIn days id := by
  rw [valueIn, List.find?_cons_of_neg (by simpa using h), valueIn]

/-- A leg that controls no day is worth nothing. -/
theorem valueIn_of_uncontrolled (h : ∀ d ∈ days, d.legId ≠ some id) : valueIn days id = (0, 0) := by
  have hnone : days.find? (·.legId = some id) = none := by
    rw [List.find?_eq_none]
    simpa using h
  rw [valueIn, hnone]

/-- A leg that controls one day is worth what that day is. -/
theorem valueIn_eq (hnodup : (days.filterMap (·.legId)).Nodup) (hd : d ∈ days)
    (hid : d.legId = some id) : valueIn days id = (d.pct, d.amount) := by
  induction days with
  | nil => cases hd
  | cons e days ih =>
      rcases List.mem_cons.1 hd with rfl | hd
      · exact valueIn_cons_self hid
      · cases hleg : e.legId with
        | none =>
            rw [List.filterMap_cons_none hleg] at hnodup
            rw [valueIn_cons_of_ne (by simp [hleg]), ih hnodup hd]
        | some i =>
            rw [List.filterMap_cons_some hleg, List.nodup_cons] at hnodup
            have hne : e.legId ≠ some id := by
              rw [hleg]
              rintro he
              exact hnodup.1 (List.mem_filterMap.2 ⟨d, hd, hid.trans he.symm⟩)
            rw [valueIn_cons_of_ne hne, ih hnodup.2 hd]

/-- Where no leg controls two days, the loop leaves each leg the value of its day. -/
theorem foldl_credit (hnodup : (days.filterMap (·.legId)).Nodup) (values : List (ℕ × ℤ × ℤ)) :
    days.foldl credit values = values.map fun v =>
      if ∃ d ∈ days, d.legId = some v.1 then (v.1, valueIn days v.1) else v := by
  induction days generalizing values with
  | nil => simp
  | cons d days ih =>
      rw [List.foldl_cons]
      cases hleg : d.legId with
      | none =>
          rw [List.filterMap_cons_none hleg] at hnodup
          rw [ih hnodup, credit, hleg]
          refine List.map_congr_left fun v _ => ?_
          have hne : d.legId ≠ some v.1 := by simp [hleg]
          simp [valueIn_cons_of_ne hne, hleg]
      | some id =>
          rw [List.filterMap_cons_some hleg, List.nodup_cons] at hnodup
          obtain ⟨hfresh, hnodup⟩ := hnodup
          have hrest : ∀ e ∈ days, e.legId ≠ some id := fun e he hid =>
            hfresh (List.mem_filterMap.2 ⟨e, he, hid⟩)
          rw [ih hnodup, credit, hleg, List.map_map]
          refine List.map_congr_left fun v _ => ?_
          by_cases hv : v.1 = id
          · have hd : d.legId = some v.1 := by rw [hleg, hv]
            have hnone : ¬ ∃ e ∈ days, e.legId = some id := fun ⟨e, he, hid⟩ => hrest e he hid
            simp [hv, hnone, hleg, valueIn_cons_self hleg]
          · have hd : d.legId ≠ some v.1 := by
              rw [hleg]
              exact fun h => hv (Option.some.inj h).symm
            have hne : id ≠ v.1 := Ne.symm hv
            simp [hv, hleg, hne, valueIn_cons_of_ne hd]

/-- Every leg has one value, that of the day it controls. -/
theorem legValues_eq {legs : List LegInput} (hids : (legs.filterMap (·.id)).Nodup)
    (hnodup : (days.filterMap (·.legId)).Nodup) :
    legValues legs days = (legs.filterMap (·.id)).map fun id => (id, valueIn days id) := by
  rw [legValues, foldl_credit hnodup, hids.dedup, List.map_map]
  refine List.map_congr_left fun id _ => ?_
  by_cases hday : ∃ d ∈ days, d.legId = some id
  · simp [hday]
  · have hnone : ∀ d ∈ days, d.legId ≠ some id := fun d hd hid => hday ⟨d, hd, hid⟩
    simp [hday, valueIn_of_uncontrolled hnone]

/-- What the legs are worth together is what their days are worth. -/
theorem sum_valueIn {ids : List ℕ} (hids : ids.Nodup) (hnodup : (days.filterMap (·.legId)).Nodup)
    (hmem : ∀ d ∈ days, ∀ id, d.legId = some id → id ∈ ids) :
    (ids.map fun id => (valueIn days id).2).sum +
        ((days.filter (·.legId = none)).map (·.amount)).sum =
      (days.map (·.amount)).sum := by
  induction days with
  | nil => simp [valueIn]
  | cons d days ih =>
      have hmemrest : ∀ e ∈ days, ∀ id, e.legId = some id → id ∈ ids := fun e he =>
        hmem e (List.mem_cons_of_mem _ he)
      cases hleg : d.legId with
      | none =>
          rw [List.filterMap_cons_none hleg] at hnodup
          have hrest := ih hnodup hmemrest
          have hsame : ∀ id, valueIn (d :: days) id = valueIn days id := fun id =>
            valueIn_cons_of_ne (by simp [hleg])
          simp only [hsame, List.filter_cons_of_pos, hleg, decide_true, List.map_cons, List.sum_cons]
          omega
      | some id =>
          rw [List.filterMap_cons_some hleg, List.nodup_cons] at hnodup
          obtain ⟨hfresh, hnodup⟩ := hnodup
          have hrest := ih hnodup hmemrest
          have hzero : valueIn days id = (0, 0) := valueIn_of_uncontrolled fun e he hid =>
            hfresh (List.mem_filterMap.2 ⟨e, he, hid⟩)
          have hsplit : (fun i => (valueIn (d :: days) i).2) =
              fun i => if i = id then d.amount else (valueIn days i).2 := by
            funext i
            by_cases hi : i = id
            · rw [if_pos hi, hi, valueIn_cons_self hleg]
            · rw [if_neg hi, valueIn_cons_of_ne]
              rw [hleg]
              exact fun h => hi (Option.some.inj h).symm
          have hcount : ids.count id = 1 :=
            List.count_eq_one_of_mem hids (hmem d (by simp) id hleg)
          rw [hsplit, List.sum_map_ite_eq, hcount, hzero, List.filter_cons_of_neg (by simp [hleg]),
            List.map_cons, List.sum_cons]
          simp only [one_smul, sub_zero]
          omega

end Values

/-! ## The controlling leg -/

/-- The order among the legs of a date. -/
def LegInput.rank (leg : LegInput) : ℤ ×ₗ ℕ := toLex (leg.seq, leg.id.getD 0)

theorem controlling_eq_argmax (legs : List LegInput) (day : Day) :
    controlling legs day = (legs.filter (·.legDate = some day)).argmax LegInput.rank := by
  rw [controlling, List.argmax]
  congr 1
  funext best leg
  cases best with
  | none => rfl
  | some b => simp only [List.argAux, LegInput.rank, Prod.Lex.toLex_lt_toLex]

theorem controlling_eq_none {legs : List LegInput} {day : Day} :
    controlling legs day = none ↔ ∀ leg ∈ legs, leg.legDate ≠ some day := by
  rw [controlling_eq_argmax, List.argmax_eq_none, List.filter_eq_nil_iff]
  simp

/-- The controlling leg is of the date, and no leg of the date comes after it. -/
theorem controlling_eq_some {legs : List LegInput} {day : Day} {leg : LegInput}
    (h : controlling legs day = some leg) :
    leg ∈ legs ∧ leg.legDate = some day ∧
      ∀ other ∈ legs, other.legDate = some day → other.rank ≤ leg.rank := by
  rw [controlling_eq_argmax] at h
  have hmem : leg ∈ legs ∧ leg.legDate = some day := by
    simpa using List.argmax_mem h
  refine ⟨hmem.1, hmem.2, fun other hother hdate => ?_⟩
  exact List.le_of_mem_argmax (List.mem_filter.2 ⟨hother, by simpa using hdate⟩) h

/-! ## The days -/

/-- What the loop says of one day. -/
structure Paid (trip : Journey) (d : DayBreakdown) : Prop where
  dayType : d.dayType = dayType trip d.day
  legId : d.legId = (controlling trip.legs d.day).bind (·.id)
  amount : d.amount = Decimal.contextSum (d.components.map (·.2))

theorem paid_of_computeDay {trip : Journey} {day : Day} {prev : Option String} {d : DayBreakdown}
    (h : computeDay trip day prev = .ok d) : Paid trip d ∧ d.day = day := by
  simp only [computeDay, bind_eq_ok, found_eq_ok, pure_eq_ok, sumMoney_eq_ok] at h
  obtain ⟨_, -, _, -, _, -, _, -, _, -, _, -, _, ⟨-, rfl⟩, rfl⟩ := h
  exact ⟨⟨rfl, rfl, rfl⟩, rfl⟩

/-- The loop gives the days in order. -/
theorem paid_of_computeDays {trip : Journey} {days : List Day} {prev : Option String}
    {ds : List DayBreakdown} (h : computeDays trip days prev = .ok ds) :
    ds.map (·.day) = days ∧ ∀ d ∈ ds, Paid trip d := by
  induction days generalizing prev ds with
  | nil =>
      cases h
      exact ⟨rfl, by simp⟩
  | cons day rest ih =>
      simp only [computeDays, bind_eq_ok, pure_eq_ok] at h
      obtain ⟨d, hday, ds, hrest, rfl⟩ := h
      obtain ⟨hpaid, hd⟩ := paid_of_computeDay hday
      obtain ⟨hdays, hall⟩ := ih hrest
      refine ⟨by rw [List.map_cons, hd, hdays], ?_⟩
      intro e he
      rcases List.mem_cons.1 he with rfl | he
      · exact hpaid
      · exact hall e he

theorem mem_span {first last day : ℤ} : day ∈ span first last ↔ first ≤ day ∧ day ≤ last := by
  simp only [span, List.mem_map, List.mem_range]
  constructor
  · rintro ⟨offset, hoffset, rfl⟩
    omega
  · rintro ⟨hfirst, hlast⟩
    exact ⟨(day - first).toNat, by omega, by omega⟩

theorem span_increasing (first last : ℤ) : (span first last).Pairwise (· < ·) := by
  rw [span, List.pairwise_map]
  refine List.pairwise_lt_range.imp fun h => ?_
  omega

theorem sumFares_eq_ok {legs : List LegInput} {total : ℤ} :
    sumFares legs = .ok total ↔ |total| < 10 ^ 28 ∧
      total = (legs.map fun leg => countedFare leg.transportMode leg.fare).sum := by
  simp only [sumFares, bind_eq_ok, refuse_eq_ok, not_le, pure_eq_ok, exists_const]
  constructor
  · rintro ⟨hfits, rfl⟩
    exact ⟨hfits, rfl⟩
  · rintro ⟨hfits, rfl⟩
    exact ⟨hfits, rfl⟩

theorem computePerDiem_eq_ok {legs : List LegInput} {dateDepart dateReturn : Option Day}
    {claimRegionCode : Option String} {isWithin50km overnightStay : Bool}
    {regions : List RegionRow} {rates : List RateRow} {configs : List ConfigRow}
    {r : PerDiemResult} :
    computePerDiem legs dateDepart dateReturn claimRegionCode isWithin50km overnightStay regions
        rates configs = .ok r ↔
      legs ≠ [] ∧ checkLegs legs = .ok () ∧ ∃ first last,
        tripSpan legs dateDepart dateReturn = .ok (first, last) ∧ first ≤ last ∧
        (∀ day ∈ legs.filterMap (·.legDate), first ≤ day ∧ day ≤ last) ∧
        (minDate ≤ first ∧ last ≤ maxDate) ∧
        computeDays { legs, first, last, claimRegionCode, regions, rates, configs
                      gated := isWithin50km && !overnightStay } (span first last) none =
          .ok r.days ∧
        sumMoney (r.days.map (·.amount)) = .ok r.perDiemTotal ∧
        sumFares legs = .ok r.transportTotal := by
  simp only [computePerDiem, bind_eq_ok, refuse_eq_ok, absent_eq_ok, pure_eq_ok, Prod.exists,
    List.find?_eq_none, decide_eq_true_eq, not_or, not_lt]
  constructor
  · rintro ⟨-, hlegs, ⟨⟩, hcheck, first, last, hspan, -, horder, -, hwithin, -, hdates, days, hdays,
      total, htotal, fares, hfares, rfl⟩
    exact ⟨hlegs, hcheck, first, last, hspan, horder, hwithin, hdates, hdays, htotal, hfares⟩
  · rintro ⟨hlegs, hcheck, first, last, hspan, horder, hwithin, hdates, hdays, htotal, hfares⟩
    exact ⟨(), hlegs, (), hcheck, first, last, hspan, (), horder, (), hwithin, (), hdates, _, hdays,
      _, htotal, _, hfares, rfl⟩

/-! ## Every day once -/

/-- The legs are told apart by their ids. -/
structure Identified (legs : List LegInput) : Prop where
  named : ∀ leg ∈ legs, leg.id ≠ none
  distinct : (legs.map (·.id)).Nodup

theorem Identified.eq_of_id {legs : List LegInput} (h : Identified legs) {a b : LegInput}
    (ha : a ∈ legs) (hb : b ∈ legs) (hid : a.id = b.id) : a = b :=
  List.inj_on_of_nodup_map h.distinct ha hb hid

theorem Identified.ids {legs : List LegInput} (h : Identified legs) :
    (legs.filterMap (·.id)).Nodup := by
  have hsome : legs.map (·.id) = (legs.filterMap (·.id)).map some := by
    have hnamed := h.named
    clear h
    induction legs with
    | nil => rfl
    | cons leg legs ih =>
        obtain ⟨id, hid⟩ := Option.ne_none_iff_exists'.1 (hnamed leg (by simp))
        rw [List.filterMap_cons_some hid, List.map_cons, List.map_cons, hid,
          ih fun l hl => hnamed l (List.mem_cons_of_mem _ hl)]
  exact List.Nodup.of_map some (hsome ▸ h.distinct)

/-- What a breakdown of a trip from `first` to `last` promises. -/
structure PaysOnce (legs : List LegInput) (first last : Day) (r : PerDiemResult) : Prop where
  increasing : (r.days.map (·.day)).Pairwise (· < ·)
  spans : ∀ day, day ∈ r.days.map (·.day) ↔ first ≤ day ∧ day ≤ last
  sameDay : ∀ d ∈ r.days, d.dayType = .sameDay ↔ first = last
  arrival : ∀ d ∈ r.days, d.dayType = .arrival ↔ first ≠ last ∧ d.day = first
  returns : ∀ d ∈ r.days, d.dayType = .return ↔ first ≠ last ∧ d.day = last
  full : ∀ d ∈ r.days, d.dayType = .full ↔ d.day ≠ first ∧ d.day ≠ last
  legless : ∀ d ∈ r.days, d.legId = none ↔ ∀ leg ∈ legs, leg.legDate ≠ some d.day
  controlled : ∀ d ∈ r.days, ∀ id, d.legId = some id → ∃ leg ∈ legs, leg.id = some id ∧
    leg.legDate = some d.day ∧
    ∀ other ∈ legs, other.legDate = some d.day → other ≠ leg → other.rank < leg.rank
  keyed : (legValues legs r.days).map (·.1) = legs.filterMap (·.id)
  credited : ∀ d ∈ r.days, ∀ id, d.legId = some id →
    (id, d.pct, d.amount) ∈ legValues legs r.days
  uncontrolled : ∀ leg ∈ legs, ∀ id, leg.id = some id → (∀ d ∈ r.days, d.legId ≠ some id) →
    (id, 0, 0) ∈ legValues legs r.days
  conserved : ((legValues legs r.days).map (·.2.2)).sum +
    ((r.days.filter (·.legId = none)).map (·.amount)).sum = (r.days.map (·.amount)).sum

section Attribution

variable {trip : Journey} {d : DayBreakdown} {id : ℕ}

theorem Paid.legless (h : Paid trip d) (hids : Identified trip.legs) :
    d.legId = none ↔ ∀ leg ∈ trip.legs, leg.legDate ≠ some d.day := by
  rw [h.legId, ← controlling_eq_none]
  cases hleg : controlling trip.legs d.day with
  | none => simp
  | some leg => simpa using hids.named leg (controlling_eq_some hleg).1

/-- The leg of a day is the last one of its date. -/
theorem Paid.controlled (h : Paid trip d) (hids : Identified trip.legs) (hid : d.legId = some id) :
    ∃ leg ∈ trip.legs, leg.id = some id ∧ leg.legDate = some d.day ∧
      ∀ other ∈ trip.legs, other.legDate = some d.day → other ≠ leg → other.rank < leg.rank := by
  rw [h.legId, Option.bind_eq_some_iff] at hid
  obtain ⟨leg, hleg, hid⟩ := hid
  obtain ⟨hmem, hdate, hmax⟩ := controlling_eq_some hleg
  refine ⟨leg, hmem, hid, hdate, fun other hother hotherdate hne => ?_⟩
  refine lt_of_le_of_ne (hmax other hother hotherdate) fun hrank => hne ?_
  obtain ⟨oid, hoid⟩ := Option.ne_none_iff_exists'.1 (hids.named other hother)
  have hsame : oid = id := by
    have hsnd := congrArg (fun x => (ofLex x).2) hrank
    simpa [LegInput.rank, hid, hoid] using hsnd
  exact hids.eq_of_id hother hmem (by rw [hoid, hid, hsame])

/-- No leg controls two days. -/
theorem nodup_legIds {days : List DayBreakdown} (hids : Identified trip.legs)
    (hpaid : ∀ d ∈ days, Paid trip d) (hdays : (days.map (·.day)).Pairwise (· < ·)) :
    (days.filterMap (·.legId)).Nodup := by
  rw [List.Nodup, List.pairwise_filterMap]
  refine (List.pairwise_map.1 hdays).imp_of_mem fun {a b} ha hb hlt => ?_
  rintro i hi j hj rfl
  obtain ⟨leg, hleg, hlegid, hdate, -⟩ := (hpaid a ha).controlled hids hi
  obtain ⟨leg', hleg', hlegid', hdate', -⟩ := (hpaid b hb).controlled hids hj
  obtain rfl := hids.eq_of_id hleg hleg' (hlegid.trans hlegid'.symm)
  have hday : a.day = b.day := Option.some.inj (hdate.symm.trans hdate')
  exact absurd hday hlt.ne

end Attribution

theorem dayType_eq {trip : Journey} {day : Day} :
    (dayType trip day = .sameDay ↔ trip.first = trip.last) ∧
      (dayType trip day = .arrival ↔ trip.first ≠ trip.last ∧ day = trip.first) ∧
      (dayType trip day = .return ↔
        trip.first ≠ trip.last ∧ day ≠ trip.first ∧ day = trip.last) ∧
      (dayType trip day = .full ↔
        trip.first ≠ trip.last ∧ day ≠ trip.first ∧ day ≠ trip.last) := by
  unfold dayType
  split_ifs <;> simp_all [eq_comm]

theorem nodup_legIds_of_ok {legs : List LegInput} {dateDepart dateReturn : Option Day}
    {claimRegionCode : Option String} {isWithin50km overnightStay : Bool}
    {regions : List RegionRow} {rates : List RateRow} {configs : List ConfigRow}
    {r : PerDiemResult} (hids : Identified legs)
    (h : computePerDiem legs dateDepart dateReturn claimRegionCode isWithin50km overnightStay
      regions rates configs = .ok r) : (r.days.filterMap (·.legId)).Nodup := by
  obtain ⟨-, -, first, last, -, -, -, -, hdays, -⟩ := computePerDiem_eq_ok.1 h
  obtain ⟨hdates, hpaid⟩ := paid_of_computeDays hdays
  refine nodup_legIds hids hpaid ?_
  rw [hdates]
  exact span_increasing first last

/-- Every computation that succeeds on legs with distinct ids pays every day of the trip once. -/
theorem paysOnce_of_ok {legs : List LegInput} {dateDepart dateReturn : Option Day}
    {claimRegionCode : Option String} {isWithin50km overnightStay : Bool}
    {regions : List RegionRow} {rates : List RateRow} {configs : List ConfigRow}
    {r : PerDiemResult} (hids : Identified legs)
    (h : computePerDiem legs dateDepart dateReturn claimRegionCode isWithin50km overnightStay
      regions rates configs = .ok r) :
    ∃ first last, tripSpan legs dateDepart dateReturn = .ok (first, last) ∧
      PaysOnce legs first last r := by
  have hnodup := nodup_legIds_of_ok hids h
  obtain ⟨-, -, first, last, hspan, horder, hwithin, -, hdays, -⟩ := computePerDiem_eq_ok.1 h
  obtain ⟨hdates, hpaid⟩ := paid_of_computeDays hdays
  have hincreasing : (r.days.map (·.day)).Pairwise (· < ·) := by
    rw [hdates]
    exact span_increasing first last
  have hvalues := legValues_eq hids.ids hnodup
  have hmem : ∀ d ∈ r.days, first ≤ d.day ∧ d.day ≤ last := fun d hd => by
    rw [← mem_span, ← hdates]
    exact List.mem_map_of_mem hd
  have hlegs : ∀ d ∈ r.days, ∀ id, d.legId = some id → id ∈ legs.filterMap (·.id) := by
    intro d hd id hid
    obtain ⟨leg, hleg, hlegid, -⟩ := (hpaid d hd).controlled hids hid
    exact List.mem_filterMap.2 ⟨leg, hleg, hlegid⟩
  refine ⟨first, last, hspan, ?_⟩
  exact {
    increasing := hincreasing
    spans := fun day => by
      show day ∈ r.days.map (·.day) ↔ _
      rw [hdates, mem_span]
    sameDay := fun d hd => by
      rw [(hpaid d hd).dayType]
      exact dayType_eq.1
    arrival := fun d hd => by
      rw [(hpaid d hd).dayType]
      exact dayType_eq.2.1
    returns := fun d hd => by
      rw [(hpaid d hd).dayType, dayType_eq.2.2.1]
      constructor
      · exact fun h => ⟨h.1, h.2.2⟩
      · exact fun h => ⟨h.1, fun he => h.1 (he.symm.trans h.2), h.2⟩
    full := fun d hd => by
      rw [(hpaid d hd).dayType, dayType_eq.2.2.2]
      refine ⟨fun h => h.2, fun h => ⟨fun he => h.1 ?_, h⟩⟩
      obtain ⟨hfirst, hlast⟩ := hmem d hd
      have heq : first = last := he
      exact le_antisymm (hlast.trans heq.ge) hfirst
    legless := fun d hd => (hpaid d hd).legless hids
    controlled := fun d hd id hid => (hpaid d hd).controlled hids hid
    keyed := by
      rw [hvalues, List.map_map]
      exact List.map_id _
    credited := fun d hd id hid => by
      rw [hvalues]
      refine List.mem_map.2 ⟨id, hlegs d hd id hid, ?_⟩
      rw [valueIn_eq hnodup hd hid]
    uncontrolled := fun leg hleg id hid hnone => by
      rw [hvalues]
      refine List.mem_map.2 ⟨id, List.mem_filterMap.2 ⟨leg, hleg, hid⟩, ?_⟩
      rw [valueIn_of_uncontrolled hnone]
    conserved := by
      rw [hvalues, List.map_map]
      exact sum_valueIn hids.ids hnodup hlegs }

end OfficeConnect.Reimbursement
