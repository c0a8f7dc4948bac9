import OfficeConnect.Reimbursement.Rounding

/-!
# The per diem as a function of the data

Rows come from unordered queries and are dated.  The computation gives the same breakdown in every
order of the legs and of the tables, and a row that comes into force on some day changes nothing of
the days before it.
-/

namespace OfficeConnect.Reimbursement

open Lib

/-! ## More rows, in another order -/

/-- `y` has the rows of `x` and some more, in any order; the legs and the rows of each table are told
apart by their keys. -/
structure Extends (x y : PerDiemInput) (regions : List RegionRow) (rates : List RateRow)
    (configs : List ConfigRow) : Prop where
  dateDepart : y.dateDepart = x.dateDepart
  dateReturn : y.dateReturn = x.dateReturn
  claimRegionCode : y.claimRegionCode = x.claimRegionCode
  isWithin50km : y.isWithin50km = x.isWithin50km
  overnightStay : y.overnightStay = x.overnightStay
  legs : y.legs.Perm x.legs
  legIds : (x.legs.map fun leg => leg.id.getD 0).Nodup
  regions : y.regions.Perm (x.regions ++ regions)
  regionKeys : (y.regions.map fun row => (row.regionCode, row.effectiveFrom)).Nodup
  rates : y.rates.Perm (x.rates ++ rates)
  rateKeys : (y.rates.map fun row => (row.cluster, row.effectiveFrom)).Nodup
  configs : y.configs.Perm (x.configs ++ configs)
  configKeys : (y.configs.map fun row => (row.key, row.effectiveFrom)).Nodup

/-- The rows are in force from `day` on. -/
structure InForceFrom (day : Day) (regions : List RegionRow) (rates : List RateRow)
    (configs : List ConfigRow) : Prop where
  regions : ∀ row ∈ regions, day ≤ row.effectiveFrom
  rates : ∀ row ∈ rates, day ≤ row.effectiveFrom
  configs : ∀ row ∈ configs, day ≤ row.effectiveFrom

/-- The lookups of a day give the same. -/
structure SameOn (x y : PerDiemInput) (day : Day) : Prop where
  leg : controlling y.legs day = controlling x.legs day
  region : ∀ code : String, asOf (·.effectiveFrom) (·.regionCode = code) day y.regions =
    asOf (·.effectiveFrom) (·.regionCode = code) day x.regions
  rate : ∀ cluster : String, asOf (·.effectiveFrom) (·.cluster = cluster) day y.rates =
    asOf (·.effectiveFrom) (·.cluster = cluster) day x.rates
  config : ∀ key, configAsOf y.configs key day = configAsOf x.configs key day

/-! ## One lookup -/

/-- Rows told apart by their date are looked up the same in any order, and rows that are not yet in
force are not seen. -/
theorem asOf_congr {α : Type} {effectiveFrom : α → Day} {p : α → Bool} {day : Day}
    {rows rows' extra : List α} (hperm : rows'.Perm (rows ++ extra))
    (hinj : ∀ a ∈ rows', ∀ b ∈ rows', p a → p b → effectiveFrom a = effectiveFrom b → a = b)
    (hextra : ∀ row ∈ extra, day < effectiveFrom row) :
    asOf effectiveFrom p day rows' = asOf effectiveFrom p day rows := by
  have hnone : extra.filter (fun row => p row ∧ effectiveFrom row ≤ day) = [] := by
    rw [List.filter_eq_nil_iff]
    intro row hrow
    simpa using fun _ => hextra row hrow
  have hforce : (rows'.filter fun row => p row ∧ effectiveFrom row ≤ day).Perm
      (rows.filter fun row => p row ∧ effectiveFrom row ≤ day) := by
    refine (hperm.filter _).trans ?_
    rw [List.filter_append, hnone, List.append_nil]
  rw [asOf_eq_argmax, asOf_eq_argmax]
  refine (argmax_perm (fun a ha b hb heq => ?_) hforce.symm).symm
  obtain ⟨ha, hpa⟩ := List.mem_filter.1 ha
  obtain ⟨hb, hpb⟩ := List.mem_filter.1 hb
  simp only [decide_eq_true_eq] at hpa hpb
  exact hinj a ha b hb hpa.1 hpb.1 heq

theorem controlling_congr {legs legs' : List LegInput} {day : Day} (hperm : legs'.Perm legs)
    (hids : (legs.map fun leg => leg.id.getD 0).Nodup) :
    controlling legs' day = controlling legs day := by
  rw [controlling_eq_argmax, controlling_eq_argmax]
  refine argmax_perm (fun a ha b hb heq => ?_) (hperm.filter _)
  have hid : a.id.getD 0 = b.id.getD 0 := congrArg (fun x => (ofLex x).2) heq
  exact List.inj_on_of_nodup_map hids (List.mem_of_mem_filter ha) (List.mem_of_mem_filter hb) hid

/-! ## One day -/

section

variable {x y : PerDiemInput} {regions : List RegionRow} {rates : List RateRow}
variable {configs : List ConfigRow} {first last day : Day} {prev : Option String}

/-- Before the new rows come into force, every lookup is as it was. -/
theorem Extends.sameOn (h : Extends x y regions rates configs) {d : Day}
    (hfrom : InForceFrom d regions rates configs) (hday : day < d) : SameOn x y day := by
  constructor
  · exact controlling_congr h.legs h.legIds
  · refine fun code => asOf_congr h.regions (fun a ha b hb hpa hpb heq => ?_)
      fun row hrow => hday.trans_le (hfrom.regions row hrow)
    refine List.inj_on_of_nodup_map h.regionKeys ha hb ?_
    simp only [decide_eq_true_eq] at hpa hpb
    rw [hpa, hpb, heq]
  · refine fun cluster => asOf_congr h.rates (fun a ha b hb hpa hpb heq => ?_)
      fun row hrow => hday.trans_le (hfrom.rates row hrow)
    refine List.inj_on_of_nodup_map h.rateKeys ha hb ?_
    simp only [decide_eq_true_eq] at hpa hpb
    rw [hpa, hpb, heq]
  · refine fun key => asOf_congr h.configs (fun a ha b hb hpa hpb heq => ?_)
      fun row hrow => hday.trans_le (hfrom.configs row hrow)
    refine List.inj_on_of_nodup_map h.configKeys ha hb ?_
    simp only [decide_eq_true_eq] at hpa hpb
    rw [hpa, hpb, heq]

/-- A day is computed from its lookups. -/
theorem computeDay_congr (h : Extends x y regions rates configs) (hsame : SameOn x y day) :
    computeDay (y.trip first last) day prev = computeDay (x.trip first last) day prev := by
  have htrip : y.trip first last = { x.trip first last with
      legs := y.legs, regions := y.regions, rates := y.rates, configs := y.configs } := by
    rw [PerDiemInput.trip, PerDiemInput.gated, h.isWithin50km, h.overnightStay, h.claimRegionCode]
    rfl
  have hparts : apportionment y.configs day = apportionment x.configs day := by
    rw [apportionment, apportionment, hsame.config]
  have hdeparture : departurePct y.configs day = departurePct x.configs day := by
    funext parts
    rw [departurePct, departurePct, hsame.config]
  rw [htrip]
  simp only [computeDay, PerDiemInput.trip, hsame.leg, hsame.region, hsame.rate, hparts, hdeparture]
  rfl

theorem computeDays_congr (h : Extends x y regions rates configs) {days : List Day}
    (hsame : ∀ day ∈ days, SameOn x y day) :
    computeDays (y.trip first last) days prev = computeDays (x.trip first last) days prev := by
  induction days generalizing prev with
  | nil => rfl
  | cons day days ih =>
      have hrest : ∀ prev, computeDays (y.trip first last) days prev =
          computeDays (x.trip first last) days prev :=
        fun prev => ih fun d hd => hsame d (List.mem_cons_of_mem _ hd)
      simp only [computeDays, computeDay_congr h (hsame day (by simp)), hrest]

theorem filter_before_eq_nil {trip : Journey} {d : Day} {days : List Day} {ds : List DayBreakdown}
    (h : computeDays trip days prev = .ok ds) (hafter : ∀ day ∈ days, d ≤ day) :
    ds.filter (·.day < d) = [] := by
  rw [List.filter_eq_nil_iff]
  intro e he
  have hday : e.day ∈ days := (paid_of_computeDays h).1 ▸ List.mem_map_of_mem he
  simpa using hafter e.day hday

/-- The days before the new rows come into force, where both loops return. -/
theorem computeDays_before (h : Extends x y regions rates configs) {d : Day} {days : List Day}
    {ds ds' : List DayBreakdown} (hincreasing : days.Pairwise (· < ·))
    (hsame : ∀ day < d, SameOn x y day)
    (hx : computeDays (x.trip first last) days prev = .ok ds)
    (hy : computeDays (y.trip first last) days prev = .ok ds') :
    ds'.filter (·.day < d) = ds.filter (·.day < d) := by
  induction days generalizing prev ds ds' with
  | nil =>
      obtain rfl := Except.ok.inj hx
      obtain rfl := Except.ok.inj hy
      rfl
  | cons day days ih =>
      obtain ⟨hlater, hincreasing⟩ := List.pairwise_cons.1 hincreasing
      by_cases hday : day < d
      · simp only [computeDays, bind_eq_ok, pure_eq_ok] at hx hy
        obtain ⟨e, he, ds, hds, rfl⟩ := hx
        obtain ⟨e', he', ds', hds', rfl⟩ := hy
        rw [computeDay_congr h (hsame day hday)] at he'
        obtain rfl := Except.ok.inj (he.symm.trans he')
        have hrest := ih hincreasing hds hds'
        simp only [List.filter_cons, hrest]
      · have hafter : ∀ later ∈ day :: days, d ≤ later := fun later hlater' => by
          rcases List.mem_cons.1 hlater' with rfl | hmem
          · exact not_lt.1 hday
          · exact (not_lt.1 hday).trans (hlater later hmem).le
        rw [filter_before_eq_nil hx hafter, filter_before_eq_nil hy hafter]

end

/-! ## The whole trip -/

section

variable {x y : PerDiemInput} {regions : List RegionRow} {rates : List RateRow}
variable {configs : List ConfigRow}

theorem checkLegs_eq_ok {legs : List LegInput} :
    checkLegs legs = .ok () ↔ ∀ leg ∈ legs, leg.legDate ≠ none ∧
      ¬ (leg.transportMode = some .govVehicle ∧ leg.fare ≠ none ∧ leg.fare ≠ some 0) := by
  induction legs with
  | nil => simp [checkLegs]
  | cons leg legs ih =>
      simp only [checkLegs, bind_eq_ok, refuse_eq_ok, ih, List.forall_mem_cons]
      constructor
      · rintro ⟨⟨⟩, hdate, ⟨⟩, hfare, hrest⟩
        exact ⟨⟨hdate, hfare⟩, hrest⟩
      · rintro ⟨⟨hdate, hfare⟩, hrest⟩
        exact ⟨(), hdate, (), hfare, hrest⟩

theorem min?_perm {l l' : List ℤ} (h : l'.Perm l) : l'.min? = l.min? := by
  refine Option.ext fun m => ?_
  simp only [List.min?_eq_some_iff, h.mem_iff]

theorem max?_perm {l l' : List ℤ} (h : l'.Perm l) : l'.max? = l.max? := by
  refine Option.ext fun m => ?_
  simp only [List.max?_eq_some_iff, h.mem_iff]

theorem tripSpan_perm {legs legs' : List LegInput} {dateDepart dateReturn : Option Day}
    (h : legs'.Perm legs) :
    tripSpan legs' dateDepart dateReturn = tripSpan legs dateDepart dateReturn := by
  have hdates := h.filterMap (·.legDate)
  simp only [tripSpan, min?_perm hdates, max?_perm hdates]

/-- Rows that come into force after the trip, in whatever order: the same breakdown, or none. -/
theorem Extends.run_eq_ok_iff (h : Extends x y regions rates configs)
    (hafter : ∀ first last, tripSpan x.legs x.dateDepart x.dateReturn = .ok (first, last) →
      InForceFrom (last + 1) regions rates configs) (r : PerDiemResult) :
    y.run = .ok r ↔ x.run = .ok r := by
  have hspan : tripSpan y.legs y.dateDepart y.dateReturn =
      tripSpan x.legs x.dateDepart x.dateReturn := by
    rw [tripSpan_perm h.legs, h.dateDepart, h.dateReturn]
  have hlegs : y.legs ≠ [] ↔ x.legs ≠ [] := not_congr
    ⟨fun hnil => List.nil_perm.1 (hnil ▸ h.legs), fun hnil => List.perm_nil.1 (hnil ▸ h.legs)⟩
  have hcheck : checkLegs y.legs = .ok () ↔ checkLegs x.legs = .ok () := by
    simp only [checkLegs_eq_ok, h.legs.mem_iff]
  have hwithin : ∀ day, day ∈ y.legs.filterMap (·.legDate) ↔ day ∈ x.legs.filterMap (·.legDate) :=
    fun day => (h.legs.filterMap _).mem_iff
  have hfares : sumFares y.legs = sumFares x.legs := by
    rw [sumFares, sumFares, (h.legs.map fun leg => countedFare leg.transportMode leg.fare).sum_eq]
  have hdays : ∀ first last, tripSpan x.legs x.dateDepart x.dateReturn = .ok (first, last) →
      computeDays (y.trip first last) (span first last) none =
        computeDays (x.trip first last) (span first last) none := by
    intro first last hfirst
    refine computeDays_congr h fun day hday => ?_
    exact h.sameOn (hafter first last hfirst) (Int.lt_add_one_of_le (mem_span.1 hday).2)
  rw [PerDiemInput.run, PerDiemInput.run, computePerDiem_eq_ok, computePerDiem_eq_ok, hspan, hcheck,
    hlegs, hfares]
  refine and_congr_right fun _ => and_congr_right fun _ => exists_congr fun first =>
    exists_congr fun last => and_congr_right fun hfirst => and_congr_right fun _ => ?_
  simp only [hwithin]
  refine and_congr_right fun _ => and_congr_right fun _ => and_congr_left fun _ => ?_
  exact (hdays first last hfirst).congr_left

/-- The values of the legs do not depend on the order of the legs. -/
theorem legValues_perm {legs legs' : List LegInput} (h : legs'.Perm legs)
    (days : List DayBreakdown) : (legValues legs' days).Perm (legValues legs days) := by
  have hcredit : ∀ {values values' : List (ℕ × ℤ × ℤ)}, values'.Perm values →
      (days.foldl credit values').Perm (days.foldl credit values) := by
    induction days with
    | nil => exact fun hvalues => hvalues
    | cons d days ih =>
        intro values values' hvalues
        refine ih ?_
        rw [credit, credit]
        cases d.legId with
        | none => exact hvalues
        | some id => exact hvalues.map _
  exact hcredit ((h.filterMap _).dedup.map _)

/-- The breakdown depends on the rows and not on their order, rows that come into force after the
trip change nothing of it, and rows that come into force on some day nothing of the days before. -/
theorem perDiem_dataOnly (h : Extends x y regions rates configs) :
    ((∀ first last, tripSpan x.legs x.dateDepart x.dateReturn = .ok (first, last) →
        InForceFrom (last + 1) regions rates configs) →
      (∀ r, y.run = .ok r ↔ x.run = .ok r) ∧
        ∀ r, x.run = .ok r → (legValues y.legs r.days).Perm (legValues x.legs r.days)) ∧
    ∀ d, InForceFrom d regions rates configs → ∀ r r', x.run = .ok r → y.run = .ok r' →
      r'.days.filter (·.day < d) = r.days.filter (·.day < d) := by
  constructor
  · exact fun hafter => ⟨h.run_eq_ok_iff hafter, fun r _ => legValues_perm h.legs r.days⟩
  · intro d hfrom r r' hx hy
    obtain ⟨-, -, first, last, hspan, -, -, -, hdays, -⟩ := computePerDiem_eq_ok.1 hx
    obtain ⟨-, -, first', last', hspan', -, -, -, hdays', -⟩ := computePerDiem_eq_ok.1 hy
    rw [tripSpan_perm h.legs, h.dateDepart, h.dateReturn, hspan] at hspan'
    obtain ⟨rfl, rfl⟩ := Prod.mk.inj (Except.ok.inj hspan')
    exact computeDays_before h (span_increasing first last) (fun day hday => h.sameOn hfrom hday)
      hdays hdays'

end

/-- The legs the other way round, and a higher rate from the second day on. -/
def raisedRate : PerDiemInput :=
  { oddRate with
    legs := oddRate.legs.reverse
    rates := { cluster := "I", dailyRate := 20002, effectiveFrom := 20455 } :: oddRate.rates }

theorem raisedRate_keeps_firstDay : ∃ r r', oddRate.run = .ok r ∧ raisedRate.run = .ok r' ∧
    r'.perDiemTotal = 10000 + 6601 ∧
      r'.days.filter (·.day < 20455) = r.days.filter (·.day < 20455) := by
  obtain ⟨r, hr, -⟩ := exists_eq_ok (x := oddRate.run) (fun _ => true) (by decide +kernel)
  obtain ⟨r', hr', htotal⟩ := exists_eq_ok (x := raisedRate.run)
    (fun r => r.perDiemTotal = 10000 + 6601) (by decide +kernel)
  refine ⟨r, r', hr, hr', by simpa using htotal, ?_⟩
  have hextends : Extends oddRate raisedRate []
      [{ cluster := "I", dailyRate := 20002, effectiveFrom := 20455 }] [] :=
    { dateDepart := rfl, dateReturn := rfl, claimRegionCode := rfl, isWithin50km := rfl
      overnightStay := rfl, legs := List.reverse_perm _, legIds := by decide
      regions := by decide, regionKeys := by decide, rates := by decide, rateKeys := by decide
      configs := by decide, configKeys := by decide }
  exact (perDiem_dataOnly hextends).2 20455 ⟨by simp, by simp, by simp⟩ r r' hr hr'

end OfficeConnect.Reimbursement
