import OfficeConnect.Reimbursement.Digits
import OfficeConnect.Reimbursement.Recompute

/-!
# The totals of a claim

A computation that succeeds leaves a snapshot that adds up, by day and by leg, and a second one
changes nothing but its timestamp.  The per diem of a claim is exact although percents are unbounded:
a day that a leg controls is written to a column of its leg, a day without one is worth its rate, and
only the last day may be worth more.
-/

namespace OfficeConnect.Reimbursement

open Lib

/-! ## What adds up -/

/-- The live legs that are paid a fare. -/
def Store.fareLegs (σ : Store) (claimId : ℕ) : List (ℕ × Leg) :=
  (σ.claimLegs claimId).filter fun l => l.2.inputs.transportMode ≠ some .govVehicle

/-- The snapshot of a claim against the legs of the table. -/
structure Balanced (σ : Store) (claimId : ℕ) (t : Totals) : Prop where
  grand : t.grand = t.perDiem + t.transport + t.other
  nets : t.toReimburse - t.toRefund = t.grand - t.advance
  oneSided : t.toReimburse = 0 ∨ t.toRefund = 0
  nonneg : 0 ≤ t.toReimburse ∧ 0 ≤ t.toRefund
  transport : t.transport = ((σ.fareLegs claimId).map fun l => l.2.inputs.fare.getD 0).sum
  legs : ∃ legTotals : List ℤ,
    (σ.claimLegs claimId).map (·.2.legTotal) = legTotals.map some ∧
      legTotals.sum = t.transport + t.perDiem -
        ((t.days.filter (·.legId = none)).map (·.amount)).sum

section

variable {env env' : Env} {σ σ' : Store} {i : ℕ} {result : PerDiemResult} {other : Option ℚ}

theorem settle_nets (grand advance : ℤ) :
    (settle grand advance).1 - (settle grand advance).2 = grand - advance ∧
      ((settle grand advance).1 = 0 ∨ (settle grand advance).2 = 0) ∧
      0 ≤ (settle grand advance).1 ∧ 0 ≤ (settle grand advance).2 := by
  simp only [settle]
  omega

theorem sum_countedFare (rows : List (ℕ × Leg)) :
    (rows.map fun l => countedFare l.2.inputs.transportMode l.2.inputs.fare).sum =
      ((rows.filter fun l => l.2.inputs.transportMode ≠ some .govVehicle).map
        fun l => l.2.inputs.fare.getD 0).sum := by
  induction rows with
  | nil => rfl
  | cons l rows ih =>
      rw [List.map_cons, List.sum_cons, ih, countedFare]
      by_cases hgov : l.2.inputs.transportMode = some .govVehicle
      · rw [if_pos hgov, List.filter_cons_of_neg (by simpa using hgov), zero_add]
      · rw [if_neg hgov, List.filter_cons_of_pos (by simpa using hgov), List.map_cons, List.sum_cons]

/-- The legs the computation reads are told apart by their ids. -/
theorem identified_legInputs : Identified (σ.legInputs i) := by
  have hids : (σ.legInputs i).map (·.id) = ((σ.claimLegs i).map Prod.fst).map some := by
    rw [Store.legInputs, List.map_map, List.map_map]
    rfl
  refine ⟨fun leg hleg => ?_, ?_⟩
  · obtain ⟨l, -, rfl⟩ := List.mem_map.1 hleg
    exact Option.some_ne_none _
  · rw [hids]
    exact nodup_claimLegs.map (Option.some_injective _)

theorem filterMap_legInputs : (σ.legInputs i).filterMap (·.id) = (σ.claimLegs i).map Prod.fst := by
  rw [Store.legInputs, List.filterMap_map, ← List.filterMap_eq_map]
  rfl

/-- What the days of the legs are worth together: the days less the legless ones. -/
theorem sum_legValue {claim : Claim} (h : claimPerDiem env σ i claim = .ok result) :
    ((σ.claimLegs i).map fun l => (result.legValue l.1).2).sum +
        ((result.days.filter (·.legId = none)).map (·.amount)).sum =
      (result.days.map (·.amount)).sum := by
  obtain ⟨first, last, -, hpays⟩ := paysOnce_of_ok identified_legInputs h
  have hnodup := nodup_legIds_of_ok identified_legInputs h
  have hconserved : ((legValues (σ.legInputs i) result.days).map (·.2.2)).sum +
      ((result.days.filter (·.legId = none)).map (·.amount)).sum =
        (result.days.map (·.amount)).sum := hpays.conserved
  rw [legValues_eq identified_legInputs.ids hnodup, filterMap_legInputs,
    List.map_map, List.map_map] at hconserved
  exact hconserved

/-- The input of a claim's computation. -/
def claimInput (env : Env) (σ : Store) (claimId : ℕ) (claim : Claim) : PerDiemInput :=
  { legs := σ.legInputs claimId
    dateDepart := claim.trip.dateDepart
    dateReturn := claim.trip.dateReturn
    claimRegionCode := claim.trip.destinationRegionCode
    isWithin50km := claim.trip.isWithin50km
    overnightStay := claim.trip.overnightStay
    regions := env.regions
    rates := env.rates
    configs := env.configs.filter fun c =>
      (c.key = apportionmentKey ∨ c.key = departureRateKey) ∧ c.isActive }

/-- The rate of a day is of the table. -/
theorem storable_of_termsOn {trip : Journey} {day : Day} {prev : Option String} {t : Terms}
    (hrates : ∀ row ∈ trip.rates, Storable row.dailyRate) (h : termsOn trip day prev = .ok t) :
    Storable t.dailyRate := by
  obtain ⟨row, hrow, hrate⟩ := dailyRate_of_termsOn h
  exact hrate ▸ hrates row hrow

/-- A day a leg controls is worth what the leg's column holds. -/
theorem storable_of_controlled {claim : Claim} (h : claimPerDiem env σ i claim = .ok result)
    (hlegs : ∀ l ∈ σ.claimLegs i, l.2.Holds result l.1) {d : DayBreakdown} (hd : d ∈ result.days)
    {id : ℕ} (hid : d.legId = some id) : Storable d.amount := by
  obtain ⟨first, last, -, hpays⟩ := paysOnce_of_ok identified_legInputs h
  obtain ⟨leg, hleg, hlegid, -⟩ := hpays.controlled d hd id hid
  obtain ⟨l, hl, rfl⟩ := List.mem_map.1 hleg
  obtain rfl : l.1 = id := Option.some.inj hlegid
  have hvalue := valueIn_eq (nodup_legIds_of_ok identified_legInputs h) hd hid
  have hamount := (hlegs l hl).amount
  rw [legValue_eq, hvalue] at hamount
  exact hamount

/-- A component that fits is within a centavo and a half of its share; both in hundredths. -/
theorem abs_gross_sub_le_of_fits {trip : Journey} {day : Day} {t : Terms} (hfits : DayFits trip day t)
    {c : Component} (hc : c ∈ dayComponents (dayType trip day)) :
    |100 * t.gross c - t.dailyRate * t.parts.pct c| ≤ 150 := by
  have hround := abs_le.1 (abs_gross_sub_le (t := t) (c := c))
  have hgross := abs_lt.1 (hfits.gross c hc)
  have hproduct : |Decimal.inContext (t.dailyRate * t.parts.pct c)| < 10 ^ 30 :=
    abs_lt.2 ⟨by omega, by omega⟩
  have hlost := abs_le.1
    (Decimal.abs_inContext_sub_le (Decimal.abs_lt_of_inContext (by norm_num) hproduct))
  exact abs_le.2 ⟨by omega, by omega⟩

/-- A day that no leg controls is worth its rate, or nothing under the gate. -/
theorem abs_amount_le_of_legless {trip : Journey} {day : Day} {t : Terms} (hfits : DayFits trip day t)
    (hlegless : controlling trip.legs day = none) (hnight : dayType trip day ≠ .return)
    (hdays : dayType trip day ≠ .sameDay)
    (hhundred : t.parts.lodging + t.parts.meals + t.parts.incidentals = 100)
    (hrate : Storable t.dailyRate) : |(dayOf trip day t).amount| ≤ 10 ^ 13 := by
  have hcomponents : dayComponents (dayType trip day) = [.lodging, .meals, .incidentals] := by
    revert hnight hdays
    cases dayType trip day <;> simp [dayComponents]
  cases hgated : trip.gated with
  | true =>
      have hnone : paidComponents trip day = [] := if_pos hgated
      rw [amount_dayOf, hnone]
      simp
  | false =>
      have hall : paidComponents trip day = [.lodging, .meals, .incidentals] := by
        simp [paidComponents, hgated, hcomponents, hlegless, provided]
      have hlodging := abs_le.1 (abs_gross_sub_le_of_fits hfits (c := .lodging) (by simp [hcomponents]))
      have hmeals := abs_le.1 (abs_gross_sub_le_of_fits hfits (c := .meals) (by simp [hcomponents]))
      have hincidentals :=
        abs_le.1 (abs_gross_sub_le_of_fits hfits (c := .incidentals) (by simp [hcomponents]))
      have hbounds := hfits.gross
      rw [hcomponents] at hbounds
      have hlow := abs_lt.1 (hbounds .lodging (by simp))
      have hlow' := abs_lt.1 (hbounds .meals (by simp))
      have hlow'' := abs_lt.1 (hbounds .incidentals (by simp))
      have hshares := sum_shares hhundred
      have hstored := abs_lt.1 hrate
      have htwo : |t.gross .lodging + t.gross .meals| < 10 ^ 30 := abs_lt.2 ⟨by omega, by omega⟩
      have hlost := abs_le.1 (Decimal.abs_inContext_sub_le htwo)
      simp only [Apportionment.pct] at hlodging hmeals hincidentals
      have hfirst : Decimal.inContext (t.gross .lodging) = t.gross .lodging :=
        Decimal.inContext_of_lt (hbounds .lodging (by simp))
      have hthree : |Decimal.inContext (t.gross .lodging + t.gross .meals) + t.gross .incidentals| <
          10 ^ 28 := abs_lt.2 ⟨by omega, by omega⟩
      rw [amount_dayOf, hall]
      simp only [Decimal.contextSum, List.map_cons, List.map_nil, List.foldl_cons, List.foldl_nil,
        zero_add, hfirst, Decimal.inContext_of_lt hthree]
      exact abs_le.2 ⟨by omega, by omega⟩

/-- Every day of a claim but the last is small: its leg's column holds it, or it is worth its rate. -/
theorem abs_amount_le_of_ne_last {claim : Claim} {first last : Day}
    (h : claimPerDiem env σ i claim = .ok result)
    (hlegs : ∀ l ∈ σ.claimLegs i, l.2.Holds result l.1)
    (hspan : tripSpan (σ.legInputs i) claim.trip.dateDepart claim.trip.dateReturn = .ok (first, last))
    {d : DayBreakdown} (hd : d ∈ result.days) (hlast : d.day ≠ last) : |d.amount| ≤ 10 ^ 13 := by
  have hrun : (claimInput env σ i claim).run = .ok result := h
  obtain ⟨-, -, _, _, hspan', -, -, -, ts, hts, hfits, hdays, -⟩ := PerDiemInput.run_eq_ok.1 hrun
  obtain ⟨rfl, rfl⟩ := Prod.mk.inj (Except.ok.inj (hspan.symm.trans hspan'))
  obtain ⟨_, _, hspan', hpays⟩ := paysOnce_of_ok identified_legInputs h
  obtain ⟨rfl, rfl⟩ := Prod.mk.inj (Except.ok.inj (hspan.symm.trans hspan'))
  cases hid : d.legId with
  | some id =>
      have hstored : |d.amount| < 10 ^ 12 := storable_of_controlled h hlegs hd hid
      omega
  | none =>
      have hdates := (hpays.legless d hd).1 hid
      have hday := (hpays.spans d.day).1 (List.mem_map_of_mem hd)
      rw [hdays] at hd
      obtain ⟨⟨day, t⟩, hp, rfl⟩ := List.mem_map.1 hd
      obtain ⟨prev, ht⟩ := (termsOn_of_tripTerms hts).2 _ hp
      refine abs_amount_le_of_legless (hfits _ hp) (controlling_eq_none.2 hdates) ?_ ?_
        (hundred_of_apportionment (parts_of_termsOn ht)) (storable_of_termsOn env.storedRates ht)
      · exact fun htype => hlast (dayType_eq.2.2.1.1 htype).2.2
      · intro htype
        have hsame : first = last := dayType_eq.1.1 htype
        exact hlast (le_antisymm hday.2 (hsame ▸ hday.1))

/-- A trip lies within the years of the calendar. -/
theorem length_days_le {x : PerDiemInput} (h : x.run = .ok result) :
    result.days.length ≤ 10 ^ 7 := by
  obtain ⟨-, -, first, last, -, -, -, ⟨hmin, hmax⟩, ts, -, -, hdays, -⟩ :=
    PerDiemInput.run_eq_ok.1 h
  have hspanned : result.days.length ≤ (last - first + 1).toNat := by
    rw [hdays, List.length_map, List.length_zip, span, List.length_map, List.length_range]
    exact min_le_left _ _
  have hfirst : (-719162 : ℤ) ≤ first := hmin
  have hlast : (2932896 : ℤ) ≥ last := hmax
  omega

/-- The total of a claim's per diem is the sum of its days. -/
theorem perDiemTotal_eq {claim : Claim} (h : claimPerDiem env σ i claim = .ok result)
    (hlegs : ∀ l ∈ σ.claimLegs i, l.2.Holds result l.1) :
    result.perDiemTotal = (result.days.map (·.amount)).sum := by
  have hrun : (claimInput env σ i claim).run = .ok result := h
  obtain ⟨-, -, -, -, -, -, -, -, -, -, -, -, htotal, -⟩ := PerDiemInput.run_eq_ok.1 hrun
  obtain ⟨hcontext, htotal⟩ := sumMoney_eq_ok.1 htotal
  obtain ⟨first, last, hspan, hpays⟩ := paysOnce_of_ok identified_legInputs h
  rcases result.days.eq_nil_or_concat with hnil | ⟨ds, d, hconcat⟩
  · rw [← htotal, hnil]
    rfl
  · rw [List.concat_eq_append] at hconcat
    have hincreasing := hpays.increasing
    rw [hconcat, List.map_append, List.pairwise_append] at hincreasing
    have hd := (hpays.spans d.day).1 (List.mem_map_of_mem (by simp [hconcat]))
    have hbefore : ∀ a ∈ ds.map (·.amount), |a| ≤ 10 ^ 13 := by
      intro a ha
      obtain ⟨e, he, rfl⟩ := List.mem_map.1 ha
      have hlt := hincreasing.2.2 e.day (List.mem_map_of_mem he) d.day (by simp)
      exact abs_amount_le_of_ne_last h hlegs hspan (by simp [hconcat, he]) (hlt.trans_le hd.2).ne
    have hlength := length_days_le hrun
    rw [hconcat, List.length_append] at hlength
    have hbound : ((ds.map (·.amount)).length : ℤ) * 10 ^ 13 < 10 ^ 28 := by
      rw [List.length_map]
      omega
    have hamounts : result.days.map (·.amount) = ds.map (·.amount) ++ [d.amount] := by
      rw [hconcat, List.map_append]
      rfl
    rw [hamounts] at htotal ⊢
    rw [← htotal] at hcontext ⊢
    exact Decimal.contextSum_concat_eq hbefore hbound hcontext

theorem nonneg_of_computeClaimTotals (h : computeClaimTotals env σ i other = .ok σ') :
    ¬ ∃ q ∈ other, q < 0 := by
  simp only [computeClaimTotals, bind_eq_ok, refuse_eq_ok] at h
  exact h.choose_spec.1

/-- The snapshot the computation writes balances, and computing again only dates it anew. -/
theorem computeClaimTotals_balanced (h : computeClaimTotals env σ i other = .ok σ') :
    ∃ claim t, σ'.claims[i]? = some claim ∧ claim.totals = some t ∧
      t.advance = σ.advanceAmount claim ∧ Balanced σ' i t ∧
      ∀ (env' : Env) (again : Option ℚ), env'.SameTables env → again = none ∨ again = other →
        computeClaimTotals env' σ' i again = .ok (σ'.setClaim i fun c =>
          { c with totals := some { t with computedAt := env'.utcNow } }) := by
  obtain ⟨old, result, hold, hresult, hlegs, hadv, hrow⟩ := claims_computed h
  obtain ⟨_, _, hold', hresult', hfits⟩ := computeClaimTotals_fits h
  obtain rfl := Option.some.inj (hold.symm.trans hold')
  obtain rfl := Except.ok.inj (hresult.symm.trans hresult')
  set other' := (other.map toMoney).getD old.trip.otherTotal with hother
  set t := totalsOf result other' (σ.advanceAmount old) env.utcNow with ht
  have hrows := claimLegs_priced hlegs
  have hcounted : t.transport = ((σ.claimLegs i).map fun l =>
      countedFare l.2.inputs.transportMode l.2.inputs.fare).sum := by
    obtain ⟨-, -, _, _, -, -, -, -, -, -, hfares⟩ := computePerDiem_eq_ok.1 hresult
    have htransport : t.transport = _ := (sumFares_eq_ok.1 hfares).2
    rw [htransport, List.map_map]
    rfl
  have hfares : t.transport = ((σ'.fareLegs i).map fun l => l.2.inputs.fare.getD 0).sum := by
    rw [Store.fareLegs, ← sum_countedFare, hrows, List.map_map]
    exact hcounted
  obtain ⟨hnets, hone, hnonneg⟩ := settle_nets t.grand t.advance
  refine ⟨_, t, hrow, rfl, rfl, ⟨rfl, hnets, hone, hnonneg, hfares, ?_⟩,
    fun env' again hbase hagain => ?_⟩
  · refine ⟨(σ.claimLegs i).map fun l =>
      countedFare l.2.inputs.transportMode l.2.inputs.fare + (result.legValue l.1).2, ?_, ?_⟩
    · rw [hrows, List.map_map, List.map_map]
      rfl
    · have hvalues : _ + _ = t.perDiem :=
        (sum_legValue hresult).trans (perDiemTotal_eq hresult hfits.legs).symm
      rw [List.sum_map_add, ← hcounted, ← hvalues]
      change _ = _ + (_ + ((t.days.filter (·.legId = none)).map (·.amount)).sum) - _
      omega
  · have hcurrent : Current env σ' i _ _ := current_computed ⟨rfl, rfl, rfl⟩ h hrow rfl
    rcases hagain with rfl | rfl
    · exact hcurrent.recompute hbase hrow (by simp) rfl
    · refine hcurrent.recompute hbase hrow (nonneg_of_computeClaimTotals h) ?_
      cases again with
      | none => rfl
      | some q => rfl

end

/-- The liquidation of an advance of 3000 pesos, recomputed with 12.50 of other expenses. -/
theorem submitTrip_balanced : ∃ σ',
    computeClaimTotals office (runStore (inOffice (submitTrip 3000))) 0 (some (25 / 2)) = .ok σ' ∧
      ∃ claim t, σ'.claims[0]? = some claim ∧ claim.totals = some t ∧ Balanced σ' 0 t := by
  obtain ⟨σ', hok, -⟩ := exists_eq_ok (x :=
    computeClaimTotals office (runStore (inOffice (submitTrip 3000))) 0 (some (25 / 2)))
    (fun _ => true) (by decide +kernel)
  obtain ⟨claim, t, hclaim, ht, -, hbalanced, -⟩ := computeClaimTotals_balanced hok
  exact ⟨σ', hok, claim, t, hclaim, ht, hbalanced⟩

end OfficeConnect.Reimbursement
