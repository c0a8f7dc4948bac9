import OfficeConnect.Lib.Rows
import OfficeConnect.Reimbursement.Rounding

/-!
# What a day entitles to

The config validators ask of the percents that they add up, not that each of them is one.  A
negative percent pays a negative component, and one for lodging pays the days without a night more
than their rate; without these, days pay between nothing and their rate, and a strip never gains.
-/

namespace OfficeConnect.Reimbursement

open Lib

/-! ## Undoing a strip -/

/-- The leg without the host's lodging, or without the host's meals. -/
def LegInput.unstrip (c : Component) (leg : LegInput) : LegInput :=
  match c with
  | .lodging => { leg with lodgingProvided := false }
  | .meals => { leg with mealsProvided := false }
  | .incidentals => leg

def PerDiemInput.unstrip (x : PerDiemInput) (n : ℕ) (c : Component) : PerDiemInput :=
  { x with legs := x.legs.modify n (·.unstrip c) }

/-- What a computed trip entitles to; amounts are in centavos. -/
structure WithinEntitlement (x : PerDiemInput) (r : PerDiemResult) : Prop where
  components : ∀ d ∈ r.days, ∀ c ∈ d.components, 0 ≤ c.2
  amounts : ∀ d ∈ r.days, 0 ≤ d.amount
  capped : ∀ d ∈ r.days, d.amount ≤ d.dailyRate + 1
  unstripped : ∀ (n : ℕ) (c : Component) (r' : PerDiemResult), (x.unstrip n c).run = .ok r' →
    List.Forall₂ (fun d d' => d.day = d'.day ∧ d.amount ≤ d'.amount) r.days r'.days

/-- No component of the day is worth half a centavo less than nothing; and where the day has no
lodging, a negative percent for it does not make up for more than the halves that are rounded up, or
than the meals the host provides. -/
structure SoundTerms (trip : Journey) (day : Day) (t : Terms) : Prop where
  positive : ∀ c ∈ dayComponents (dayType trip day), -50 < t.dailyRate * t.parts.pct c
  capped : Component.lodging ∉ dayComponents (dayType trip day) →
    if provided (controlling trip.legs day) .meals then
      -150 < t.dailyRate * (t.parts.lodging + t.parts.meals)
    else t.dailyRate * -t.parts.lodging ≤
      (t.dailyRate * t.parts.meals + 50) % 100 + (t.dailyRate * t.parts.incidentals + 50) % 100

section

variable {legs : List LegInput} {leg : LegInput} {c c' : Component} {n : ℕ} {day : Day}

@[simp] theorem unstrip_id : (leg.unstrip c).id = leg.id := by cases c <;> rfl

@[simp] theorem unstrip_seq : (leg.unstrip c).seq = leg.seq := by cases c <;> rfl

@[simp] theorem unstrip_legDate : (leg.unstrip c).legDate = leg.legDate := by cases c <;> rfl

@[simp] theorem unstrip_region :
    (leg.unstrip c).destinationRegionCode = leg.destinationRegionCode := by cases c <;> rfl

@[simp] theorem unstrip_transportMode : (leg.unstrip c).transportMode = leg.transportMode := by
  cases c <;> rfl

@[simp] theorem unstrip_fare : (leg.unstrip c).fare = leg.fare := by cases c <;> rfl

theorem unstrip_rank : (leg.unstrip c).rank = leg.rank := by simp [LegInput.rank]

theorem provided_unstrip :
    provided (some (leg.unstrip c)) c' = (provided (some leg) c' && decide (c' ≠ c)) := by
  cases c <;> cases c' <;> simp [provided, LegInput.unstrip]

theorem modify_eq_map_zipIdx {f : LegInput → LegInput} :
    legs.modify n f = legs.zipIdx.map fun p => if p.2 = n then f p.1 else p.1 := by
  refine List.ext_getElem? fun i => ?_
  rw [List.getElem?_modify, List.getElem?_map, List.getElem?_zipIdx, Option.map_map]
  cases legs[i]? with
  | none => rfl
  | some leg => simp [eq_comm]

/-- The controlling leg has a place in the itinerary, and undoing a strip leaves the control of the
day to that place. -/
theorem controlling_place (legs : List LegInput) (day : Day) : ∃ o : Option (LegInput × ℕ),
    controlling legs day = o.map (·.1) ∧
    (∀ p, o = some p → legs[p.2]? = some p.1 ∧ p.1.legDate = some day) ∧
    ∀ (n : ℕ) (c : Component), controlling (legs.modify n (·.unstrip c)) day =
      o.map fun p => if p.2 = n then p.1.unstrip c else p.1 := by
  refine ⟨(legs.zipIdx.filter (·.1.legDate = some day)).argmax (·.1.rank), ?_, fun p hp => ?_,
    fun n c => ?_⟩
  · have hlegs : legs = legs.zipIdx.map (·.1) := (List.zipIdx_map_fst 0 legs).symm
    rw [controlling_eq_argmax]
    conv_lhs => rw [hlegs]
    rw [List.filter_map, argmax_map]
    rfl
  · obtain ⟨hmem, hdate⟩ := List.mem_filter.1 (List.argmax_mem hp)
    exact ⟨List.mem_zipIdx_iff_getElem?.1 hmem, by simpa using hdate⟩
  · rw [controlling_eq_argmax, modify_eq_map_zipIdx, List.filter_map, argmax_map]
    congr 2
    · funext p
      simp only [Function.comp_apply]
      split_ifs
      · exact unstrip_rank
      · rfl
    · refine List.filter_congr fun p _ => ?_
      simp only [Function.comp_apply]
      split_ifs
      · rw [unstrip_legDate]
      · rfl

/-- A leg that is stripped of a component has it among the others once the strip is undone. -/
theorem filter_unstripped {cs : List Component} (hcs : cs.Nodup) (hc : c ∈ cs)
    (hprovided : provided (some leg) c) :
    ∃ l l', cs.filter (fun c' => ¬ provided (some leg) c') = l ++ l' ∧
      cs.filter (fun c' => ¬ provided (some (leg.unstrip c)) c') = l ++ c :: l' := by
  obtain ⟨m, m', rfl⟩ := List.append_of_mem hc
  have hout : ∀ c' ∈ m ++ m', c' ≠ c := by
    rintro c' hc' rfl
    exact (List.nodup_middle.1 hcs).notMem hc'
  have hsame : ∀ l : List Component, (∀ c' ∈ l, c' ≠ c) →
      l.filter (fun c' => ¬ provided (some (leg.unstrip c)) c') =
        l.filter (fun c' => ¬ provided (some leg) c') := by
    intro l hl
    refine List.filter_congr fun c' hc' => ?_
    simp [provided_unstrip, hl c' hc']
  refine ⟨m.filter (fun c' => ¬ provided (some leg) c'),
    m'.filter (fun c' => ¬ provided (some leg) c'), ?_, ?_⟩
  · rw [List.filter_append, List.filter_cons_of_neg (by simp [hprovided])]
  · rw [List.filter_append, List.filter_cons_of_pos (by simp [provided_unstrip]),
      hsame m fun c' hc' => hout c' (List.mem_append_left _ hc'),
      hsame m' fun c' hc' => hout c' (List.mem_append_right _ hc')]

/-- Nothing changes for a component that the day does not have or the host does not provide. -/
theorem filter_unstripped_of_not {cs : List Component} (h : ¬ (c ∈ cs ∧ provided (some leg) c)) :
    cs.filter (fun c' => ¬ provided (some (leg.unstrip c)) c') =
      cs.filter (fun c' => ¬ provided (some leg) c') := by
  refine List.filter_congr fun c' hc' => ?_
  by_cases hsame : c' = c
  · subst hsame
    have hnot : provided (some leg) c' = false := Bool.eq_false_iff.2 fun hp => h ⟨hc', hp⟩
    simp [provided_unstrip, hnot]
  · simp [provided_unstrip, hsame]

theorem sumFares_unstrip : sumFares (legs.modify n (·.unstrip c)) = sumFares legs := by
  have hfares := map_modify_of_eq (f := (·.unstrip c))
    (g := fun leg : LegInput => countedFare leg.transportMode leg.fare) (fun leg => by simp) n legs
  rw [sumFares, sumFares, hfares]

theorem checkLegs_unstrip : checkLegs (legs.modify n (·.unstrip c)) = checkLegs legs := by
  induction legs generalizing n with
  | nil => rw [List.modify_nil]
  | cons leg legs ih =>
      cases n with
      | zero => simp only [List.modify_zero_cons, checkLegs, unstrip_legDate, unstrip_seq,
          unstrip_transportMode, unstrip_fare]
      | succ n => simp only [List.modify_succ_cons, checkLegs, ih]

theorem legDates_unstrip : (legs.modify n (·.unstrip c)).filterMap (·.legDate) =
    legs.filterMap (·.legDate) := by
  induction legs generalizing n with
  | nil => rw [List.modify_nil]
  | cons leg legs ih =>
      cases n with
      | zero => simp only [List.modify_zero_cons, List.filterMap_cons, unstrip_legDate]
      | succ n => simp only [List.modify_succ_cons, List.filterMap_cons, ih]

end

section

variable {x : PerDiemInput} {r : PerDiemResult} {first last day : Day} {n : ℕ} {c : Component}
variable {t : Terms} {ts : List Terms}

theorem nodup_dayComponents {type : DayType} : (dayComponents type).Nodup := by
  cases type <;> decide

theorem paidComponents_beyond (hgated : x.gated = false) :
    paidComponents (x.trip first last) day =
      (dayComponents (dayType (x.trip first last) day)).filter
        fun c => ¬ provided (controlling x.legs day) c := by
  rw [paidComponents, if_neg (by simp [PerDiemInput.trip, hgated])]
  rfl

theorem termsOn_unstrip {prev : Option String} :
    termsOn ((x.unstrip n c).trip first last) day prev = termsOn (x.trip first last) day prev := by
  have hregion : dayRegion ((x.unstrip n c).trip first last)
        (controlling ((x.unstrip n c).trip first last).legs day) prev =
      dayRegion (x.trip first last) (controlling (x.trip first last).legs day) prev := by
    obtain ⟨o, ho, -, hplace⟩ := controlling_place x.legs day
    change dayRegion _ (controlling (x.legs.modify n (·.unstrip c)) day) prev =
      dayRegion _ (controlling x.legs day) prev
    rw [ho, hplace]
    cases o with
    | none => rfl
    | some p =>
        simp only [dayRegion, Option.map_some]
        by_cases hn : p.2 = n
        · rw [if_pos hn, unstrip_region]
          rfl
        · rw [if_neg hn]
          rfl
  rw [termsOn, termsOn, hregion]
  rfl

theorem tripTerms_unstrip {days : List Day} {prev : Option String} :
    tripTerms ((x.unstrip n c).trip first last) days prev =
      tripTerms (x.trip first last) days prev := by
  induction days generalizing prev with
  | nil => rfl
  | cons day days ih => simp only [tripTerms, termsOn_unstrip, ih]

/-- The day is still the same, or the leg of that place controls it and regains the component. -/
theorem paid_unstrip (first last day : Day) (hgated : x.gated = false) (n : ℕ) (c : Component) :
    paidComponents ((x.unstrip n c).trip first last) day = paidComponents (x.trip first last) day ∨
    ∃ leg l l', x.legs[n]? = some leg ∧ leg.legDate = some day ∧
      c ∈ dayComponents (dayType (x.trip first last) day) ∧
      paidComponents (x.trip first last) day = l ++ l' ∧
      paidComponents ((x.unstrip n c).trip first last) day = l ++ c :: l' := by
  obtain ⟨o, ho, hplace, hundone⟩ := controlling_place x.legs day
  have hlegs : controlling (x.unstrip n c).legs day = _ := hundone n c
  cases o with
  | none =>
      left
      rw [paidComponents_beyond (x := x.unstrip n c) hgated, paidComponents_beyond hgated, ho, hlegs]
      rfl
  | some p =>
      obtain ⟨leg, m⟩ := p
      obtain ⟨hrow, hdate⟩ := hplace _ rfl
      rw [Option.map_some] at ho hlegs
      by_cases hm : m = n
      · subst hm
        rw [if_pos rfl] at hlegs
        rw [paidComponents_beyond (x := x.unstrip m c) hgated, paidComponents_beyond hgated, ho, hlegs]
        by_cases hc : c ∈ dayComponents (dayType (x.trip first last) day) ∧ provided (some leg) c
        · obtain ⟨l, l', hbefore, hafter⟩ := filter_unstripped nodup_dayComponents hc.1 hc.2
          exact .inr ⟨leg, l, l', hrow, hdate, hc.1, hbefore, hafter⟩
        · exact .inl (filter_unstripped_of_not hc)
      · left
        rw [if_neg hm] at hlegs
        rw [paidComponents_beyond (x := x.unstrip n c) hgated, paidComponents_beyond hgated, ho, hlegs]
        rfl

/-- A component the host provides is regained from the leg that controls the day. -/
theorem exists_unstrip (hgated : x.gated = false)
    (hc : c ∈ dayComponents (dayType (x.trip first last) day))
    (hprovided : provided (controlling x.legs day) c) :
    ∃ n leg l l', x.legs[n]? = some leg ∧ leg.legDate = some day ∧
      paidComponents (x.trip first last) day = l ++ l' ∧
      paidComponents ((x.unstrip n c).trip first last) day = l ++ c :: l' := by
  obtain ⟨o, ho, hplace, hundone⟩ := controlling_place x.legs day
  cases o with
  | none =>
      rw [ho] at hprovided
      cases hprovided
  | some p =>
      obtain ⟨leg, n⟩ := p
      obtain ⟨hrow, hdate⟩ := hplace _ rfl
      rw [ho, Option.map_some] at hprovided
      have hlegs : controlling (x.unstrip n c).legs day = some (leg.unstrip c) := by
        rw [PerDiemInput.unstrip, hundone, Option.map_some, if_pos rfl]
      obtain ⟨l, l', hbefore, hafter⟩ := filter_unstripped nodup_dayComponents hc hprovided
      refine ⟨n, leg, l, l', hrow, hdate, ?_, ?_⟩
      · rw [paidComponents_beyond hgated, ho]
        exact hbefore
      · rw [paidComponents_beyond (x := x.unstrip n c) hgated, hlegs]
        exact hafter

end

/-! ## One day -/

section

variable {trip : Journey} {day : Day} {t : Terms} {c : Component}

theorem gross_nonneg_iff : 0 ≤ t.gross c ↔ -50 < t.dailyRate * t.parts.pct c := by
  rw [← Decimal.lt_inContext_iff (by norm_num) (by norm_num), Terms.gross_eq_halfUp,
    halfUp_nonneg_iff, lt_div_iff₀ (by norm_num), show (-1 / 2 * 100 : ℚ) = ((-50 : ℤ) : ℚ) by norm_num,
    Int.cast_lt]

/-- A component that is not negative is rounded to the centavo, halves up, or beyond every rate. -/
theorem gross_cases (h : -50 < t.dailyRate * t.parts.pct c) :
    t.gross c = (t.dailyRate * t.parts.pct c + 50) / 100 ∨
      10 ^ 28 ≤ t.dailyRate * t.parts.pct c ∧ 10 ^ 25 ≤ t.gross c := by
  rcases lt_or_ge (t.dailyRate * t.parts.pct c) (10 ^ 28) with hlt | hge
  · left
    have hhalf : (-1 / 2 : ℚ) < (t.dailyRate * t.parts.pct c : ℚ) / 100 := by
      rw [← Int.cast_mul, lt_div_iff₀ (by norm_num)]
      have hcast : (-50 : ℚ) < (t.dailyRate * t.parts.pct c : ℤ) := by exact_mod_cast h
      linarith
    have hfloor : (t.dailyRate * t.parts.pct c : ℚ) / 100 + 1 / 2 =
        ((t.dailyRate * t.parts.pct c + 50 : ℤ) : ℚ) / (100 : ℕ) := by
      push_cast
      ring
    rw [Terms.gross_eq (abs_lt.2 ⟨by omega, hlt⟩), halfUp_of_gt hhalf, hfloor,
      Rat.floor_intCast_div_natCast]
    rfl
  · right
    have hkeep := Decimal.pow_le_inContext le_rfl hge
    have hround := abs_le.1 (abs_gross_sub_le (t := t) (c := c))
    exact ⟨hge, by omega⟩

theorem paidComponents_sublist :
    (paidComponents trip day).Sublist (dayComponents (dayType trip day)) := by
  rw [paidComponents]
  split_ifs
  · exact List.nil_sublist _
  · exact List.filter_sublist

/-- Days pay what their components come to, each of them something. -/
theorem nonneg_of_paid (h : ∀ c ∈ paidComponents trip day, 0 ≤ t.gross c) :
    (∀ c ∈ (dayOf trip day t).components, 0 ≤ c.2) ∧ 0 ≤ (dayOf trip day t).amount := by
  have hnonneg : ∀ v ∈ (paidComponents trip day).map t.gross, 0 ≤ v := by
    intro v hv
    obtain ⟨c, hc, rfl⟩ := List.mem_map.1 hv
    exact h c hc
  constructor
  · intro c hc
    rw [components_dayOf] at hc
    obtain ⟨c', hc', rfl⟩ := List.mem_map.1 hc
    exact h c' hc'
  · rw [amount_dayOf]
    have hsum := List.sum_nonneg hnonneg
    rcases Decimal.contextSum_of_nonneg hnonneg with ⟨hexact, -⟩ | ⟨hlarge, -⟩ <;> omega

/-- A day whose components are not negative is their sum, which fits. -/
theorem DayFits.amount_eq (hfits : DayFits trip day t) (h : ∀ c ∈ paidComponents trip day, 0 ≤ t.gross c) :
    (dayOf trip day t).amount = ((paidComponents trip day).map t.gross).sum ∧
      ((paidComponents trip day).map t.gross).sum < 10 ^ 28 := by
  have hnonneg : ∀ v ∈ (paidComponents trip day).map t.gross, 0 ≤ v := by
    intro v hv
    obtain ⟨c, hc, rfl⟩ := List.mem_map.1 hv
    exact h c hc
  have hlt := hfits.amount
  rw [amount_dayOf] at hlt ⊢
  exact Decimal.contextSum_eq_of_fits hnonneg hlt

/-- A day without lodging pays at most its rate and a centavo where its percents say so. -/
theorem amount_le_iff (hfits : DayFits trip day t) (hgated : trip.gated = false)
    (hpaid : ∀ c ∈ paidComponents trip day, -50 < t.dailyRate * t.parts.pct c)
    (hlodging : Component.lodging ∉ dayComponents (dayType trip day))
    (hhundred : t.parts.lodging + t.parts.meals + t.parts.incidentals = 100)
    (hrate : 0 ≤ t.dailyRate) (hstored : t.dailyRate < 10 ^ 12) :
    (dayOf trip day t).amount ≤ t.dailyRate + 1 ↔
      if provided (controlling trip.legs day) .meals then
        -150 < t.dailyRate * (t.parts.lodging + t.parts.meals)
      else t.dailyRate * -t.parts.lodging ≤
        (t.dailyRate * t.parts.meals + 50) % 100 + (t.dailyRate * t.parts.incidentals + 50) % 100 := by
  have hcomponents : dayComponents (dayType trip day) = [.meals, .incidentals] := by
    revert hlodging
    cases dayType trip day <;> decide
  have hincidentals : provided (controlling trip.legs day) .incidentals = false := by
    cases controlling trip.legs day <;> rfl
  have hshares := sum_shares hhundred
  rw [(hfits.amount_eq fun c hc => gross_nonneg_iff.2 (hpaid c hc)).1]
  cases hmeals : provided (controlling trip.legs day) .meals with
  | true =>
      have hpaid' : paidComponents trip day = [.incidentals] := by
        simp [paidComponents, hgated, hcomponents, hmeals, hincidentals]
      have hpos := hpaid .incidentals (by simp [hpaid'])
      have hcases := gross_cases hpos
      simp only [Apportionment.pct] at hpos hcases
      rw [hpaid', if_pos rfl, List.map_singleton, List.sum_singleton, mul_add]
      omega
  | false =>
      have hpaid' : paidComponents trip day = [.meals, .incidentals] := by
        simp [paidComponents, hgated, hcomponents, hmeals, hincidentals]
      have hpos := hpaid .meals (by simp [hpaid'])
      have hpos' := hpaid .incidentals (by simp [hpaid'])
      have hcases := gross_cases hpos
      have hcases' := gross_cases hpos'
      simp only [Apportionment.pct] at hpos hpos' hcases hcases'
      rw [hpaid', if_neg Bool.false_ne_true, List.map_cons, List.map_singleton, List.sum_cons,
        List.sum_singleton, mul_neg]
      omega

/-- A sound day pays at most its rate and a centavo. -/
theorem SoundTerms.amount_le (h : SoundTerms trip day t) (hfits : DayFits trip day t)
    (hgated : trip.gated = false)
    (hhundred : t.parts.lodging + t.parts.meals + t.parts.incidentals = 100)
    (hrate : 0 ≤ t.dailyRate) (hstored : t.dailyRate < 10 ^ 12) :
    (dayOf trip day t).amount ≤ t.dailyRate + 1 := by
  have hpaid : ∀ c ∈ paidComponents trip day, -50 < t.dailyRate * t.parts.pct c :=
    fun c hc => h.positive c (paidComponents_sublist.subset hc)
  by_cases hlodging : Component.lodging ∈ dayComponents (dayType trip day)
  · have hcomponents : dayComponents (dayType trip day) = [.lodging, .meals, .incidentals] := by
      revert hlodging
      cases dayType trip day <;> decide
    have hpos := h.positive
    rw [hcomponents] at hpos
    have hshares := sum_shares hhundred
    have hlodging := gross_cases (hpos .lodging (by simp))
    have hmeals := gross_cases (hpos .meals (by simp))
    have hincidentals := gross_cases (hpos .incidentals (by simp))
    have hall : ((dayComponents (dayType trip day)).map t.gross).sum ≤ t.dailyRate + 1 := by
      have hlow := hpos .lodging (by simp)
      have hlow' := hpos .meals (by simp)
      have hlow'' := hpos .incidentals (by simp)
      simp only [Apportionment.pct] at hlodging hmeals hincidentals hlow hlow' hlow''
      rw [hcomponents, List.map_cons, List.map_cons, List.map_singleton, List.sum_cons,
        List.sum_cons, List.sum_singleton]
      omega
    rw [(hfits.amount_eq fun c hc => gross_nonneg_iff.2 (hpaid c hc)).1]
    refine ((paidComponents_sublist.map t.gross).sum_le_sum fun v hv => ?_).trans hall
    obtain ⟨c, hc, rfl⟩ := List.mem_map.1 hv
    exact gross_nonneg_iff.2 (h.positive c hc)
  · exact (amount_le_iff hfits hgated hpaid hlodging hhundred hrate hstored).2 (h.capped hlodging)

/-- Regaining a component among others that are not negative adds it to the day. -/
theorem amount_insert {trip' : Journey} {l l' : List Component}
    (hbefore : paidComponents trip day = l ++ l') (hafter : paidComponents trip' day = l ++ c :: l')
    (hfits : DayFits trip day t) (hpaid : ∀ c ∈ paidComponents trip day, 0 ≤ t.gross c)
    (hneg : t.gross c < 0) (hgross : |t.gross c| < 10 ^ 28) :
    (dayOf trip' day t).amount = (dayOf trip day t).amount + t.gross c := by
  obtain ⟨hamount, hlt⟩ := hfits.amount_eq hpaid
  have hnonneg : ∀ m ⊆ paidComponents trip day, ∀ v ∈ m.map t.gross, 0 ≤ v := by
    intro m hm v hv
    obtain ⟨c, hc, rfl⟩ := List.mem_map.1 hv
    exact hpaid c (hm hc)
  have hl := hnonneg l (by simp [hbefore])
  have hl' := hnonneg l' (by simp [hbefore])
  have hsum := List.sum_nonneg hl
  have hsum' := List.sum_nonneg hl'
  rw [hbefore, List.map_append, List.sum_append] at hamount hlt
  have hlow := (abs_lt.1 hgross).1
  rw [amount_dayOf, hafter, List.map_append, List.map_cons,
    Decimal.contextSum_insert hl hl' hlow (by omega) (by omega), hamount]
  ring

/-- Regaining one that is not negative costs nothing. -/
theorem amount_le_insert {trip' : Journey} {l l' : List Component}
    (hbefore : paidComponents trip day = l ++ l') (hafter : paidComponents trip' day = l ++ c :: l')
    (hfits : DayFits trip day t) (hfits' : DayFits trip' day t)
    (hpaid : ∀ c ∈ paidComponents trip day, 0 ≤ t.gross c) (hregained : 0 ≤ t.gross c) :
    (dayOf trip day t).amount ≤ (dayOf trip' day t).amount := by
  have hpaid' : ∀ c' ∈ paidComponents trip' day, 0 ≤ t.gross c' := by
    rw [hafter]
    intro c' hc'
    rcases List.mem_append.1 hc' with hc' | hc'
    · exact hpaid c' (by simp [hbefore, hc'])
    · rcases List.mem_cons.1 hc' with rfl | hc'
      · exact hregained
      · exact hpaid c' (by simp [hbefore, hc'])
  rw [(hfits.amount_eq hpaid).1, (hfits'.amount_eq hpaid').1, hbefore, hafter, List.map_append,
    List.map_append, List.map_cons, List.sum_append, List.sum_append, List.sum_cons]
  omega

end

/-! ## The whole trip -/

/-- Every day of a trip beyond the gate has sound terms. -/
def SoundTrip (x : PerDiemInput) : Prop :=
  x.gated = false → ∀ first last ts,
    tripSpan x.legs x.dateDepart x.dateReturn = .ok (first, last) →
    tripTerms (x.trip first last) (span first last) none = .ok ts →
    ∀ p ∈ (span first last).zip ts, SoundTerms (x.trip first last) p.1 p.2

/-- The rates are not negative, and their column holds them. -/
def RatesStored (rates : List RateRow) : Prop :=
  ∀ row ∈ rates, 0 ≤ row.dailyRate ∧ Storable row.dailyRate

section

variable {x : PerDiemInput} {r : PerDiemResult} {first last : Day} {ts : List Terms}

theorem RatesStored.dailyRate {trip : Journey} {day : Day} {prev : Option String} {t : Terms}
    (hrates : RatesStored trip.rates) (h : termsOn trip day prev = .ok t) :
    0 ≤ t.dailyRate ∧ t.dailyRate < 10 ^ 12 := by
  obtain ⟨row, hrow, hrate⟩ := dailyRate_of_termsOn h
  obtain ⟨hnonneg, hstored⟩ := hrates row hrow
  rw [← hrate]
  exact ⟨hnonneg, (abs_lt.1 hstored).2⟩

/-- A trip under the gate pays nothing. -/
theorem amount_gated (hgated : x.gated = true) {day : Day} {t : Terms} :
    (dayOf (x.trip first last) day t).amount = 0 := by
  rw [amount_dayOf, paidComponents, if_pos (by simpa [PerDiemInput.trip] using hgated)]
  rfl

theorem tripSpan_unstrip {n : ℕ} {c : Component} :
    tripSpan (x.unstrip n c).legs x.dateDepart x.dateReturn =
      tripSpan x.legs x.dateDepart x.dateReturn := by
  simp only [tripSpan, PerDiemInput.unstrip, legDates_unstrip]

/-- The trip with a strip undone is computed on the same terms, if its money still fits. -/
theorem run_unstrip_iff (h : x.run = .ok r)
    (hspan : tripSpan x.legs x.dateDepart x.dateReturn = .ok (first, last))
    (hts : tripTerms (x.trip first last) (span first last) none = .ok ts) {n : ℕ} {c : Component}
    {r' : PerDiemResult} : (x.unstrip n c).run = .ok r' ↔
      (∀ p ∈ (span first last).zip ts, DayFits ((x.unstrip n c).trip first last) p.1 p.2) ∧
      r'.days = ((span first last).zip ts).map
        (fun p => dayOf ((x.unstrip n c).trip first last) p.1 p.2) ∧
      sumMoney (r'.days.map (·.amount)) = .ok r'.perDiemTotal ∧
      r'.transportTotal = r.transportTotal := by
  obtain ⟨hlegs, hcheck, first', last', hspan', horder, hwithin, hdates, -, -, -, -, -, hfares⟩ :=
    PerDiemInput.run_eq_ok.1 h
  obtain ⟨rfl, rfl⟩ := Prod.mk.inj (Except.ok.inj (hspan.symm.trans hspan'))
  have hsum : sumFares (x.unstrip n c).legs = .ok r'.transportTotal ↔
      r'.transportTotal = r.transportTotal := by
    have hsame : sumFares (x.unstrip n c).legs = sumFares x.legs := sumFares_unstrip
    rw [hsame, hfares, Except.ok.injEq, eq_comm]
  rw [PerDiemInput.run_eq_ok, hsum]
  constructor
  · rintro ⟨-, -, _, _, hspan', -, -, -, ts', hts', hfits, hdays, hsums⟩
    have hsame := tripSpan_unstrip.symm.trans hspan'
    obtain ⟨rfl, rfl⟩ := Prod.mk.inj (Except.ok.inj (hspan.symm.trans hsame))
    obtain rfl := Except.ok.inj (hts.symm.trans (tripTerms_unstrip.symm.trans hts'))
    exact ⟨hfits, hdays, hsums⟩
  · rintro ⟨hfits, hdays, hsums⟩
    refine ⟨?_, ?_, first, last, tripSpan_unstrip.trans hspan, horder, ?_, hdates, ts,
      tripTerms_unstrip.trans hts, hfits, hdays, hsums⟩
    · simpa [PerDiemInput.unstrip] using hlegs
    · exact checkLegs_unstrip.trans hcheck
    · simpa only [PerDiemInput.unstrip, legDates_unstrip] using hwithin

/-- The leg controls no day but its own. -/
theorem amount_elsewhere {day day' : Day} {t : Terms} {n : ℕ} {c : Component} {leg : LegInput}
    (hgated : x.gated = false) (hrow : x.legs[n]? = some leg) (hdate : leg.legDate = some day')
    (hne : day ≠ day') : (dayOf ((x.unstrip n c).trip first last) day t).amount =
      (dayOf (x.trip first last) day t).amount := by
  rw [amount_dayOf, amount_dayOf]
  rcases paid_unstrip first last day hgated n c with hsame | ⟨leg', _, _, hrow', hdate', -⟩
  · rw [hsame]
  · obtain rfl := Option.some.inj (hrow.symm.trans hrow')
    exact absurd (Option.some.inj (hdate'.symm.trans hdate)) hne

/-- A day of the trip comes once. -/
theorem not_mem_others {before after : List (Day × Terms)} {p : Day × Terms}
    (hts : tripTerms (x.trip first last) (span first last) none = .ok ts)
    (hsplit : (span first last).zip ts = before ++ p :: after) :
    p.1 ∉ (before ++ after).map (·.1) := by
  have hdates : ((span first last).zip ts).map (·.1) = span first last :=
    List.map_fst_zip (termsOn_of_tripTerms hts).1.le
  have hnodup : (((span first last).zip ts).map (·.1)).Nodup := by
    rw [hdates]
    exact (span_increasing first last).imp ne_of_lt
  rw [hsplit, List.map_append, List.map_cons, List.nodup_middle, List.nodup_cons,
    ← List.map_append] at hnodup
  exact hnodup.1

/-- A strip undone on the leg of one day leaves the others as they are. -/
theorem amount_others {before after : List (Day × Terms)} {p : Day × Terms} {n : ℕ} {c : Component}
    {leg : LegInput} (hgated : x.gated = false) (hrow : x.legs[n]? = some leg)
    (hdate : leg.legDate = some p.1)
    (hts : tripTerms (x.trip first last) (span first last) none = .ok ts)
    (hsplit : (span first last).zip ts = before ++ p :: after) : ∀ q ∈ before ++ after,
      (dayOf ((x.unstrip n c).trip first last) q.1 q.2).amount =
        (dayOf (x.trip first last) q.1 q.2).amount := by
  intro q hq
  apply amount_elsewhere hgated hrow hdate
  intro hsame
  exact not_mem_others hts hsplit (hsame ▸ List.mem_map_of_mem hq)

section

variable {trip trip' : Journey} {days before after : List (Day × Terms)} {p : Day × Terms} {v : ℤ}

/-- The amounts of a trip and of one that differs from it in one day. -/
theorem amounts_split (hsplit : days = before ++ p :: after)
    (hday : (dayOf trip' p.1 p.2).amount = (dayOf trip p.1 p.2).amount + v)
    (hothers : ∀ q ∈ before ++ after, (dayOf trip' q.1 q.2).amount = (dayOf trip q.1 q.2).amount) :
    ∃ l l', (days.map fun q => dayOf trip q.1 q.2).map (·.amount) =
        l ++ (dayOf trip p.1 p.2).amount :: l' ∧
      (days.map fun q => dayOf trip' q.1 q.2).map (·.amount) =
        l ++ ((dayOf trip p.1 p.2).amount + v) :: l' := by
  subst hsplit
  refine ⟨before.map fun q => (dayOf trip q.1 q.2).amount,
    after.map fun q => (dayOf trip q.1 q.2).amount, ?_, ?_⟩
  · rw [List.map_map, List.map_append, List.map_cons]
    rfl
  · have hfirst : before.map (fun q => (dayOf trip' q.1 q.2).amount) =
        before.map fun q => (dayOf trip q.1 q.2).amount :=
      List.map_congr_left fun q hq => hothers q (List.mem_append_left _ hq)
    have hrest : after.map (fun q => (dayOf trip' q.1 q.2).amount) =
        after.map fun q => (dayOf trip q.1 q.2).amount :=
      List.map_congr_left fun q hq => hothers q (List.mem_append_right _ hq)
    rw [List.map_map, List.map_append, List.map_cons]
    exact congrArg₂ (· ++ ·) hfirst (congrArg₂ (· :: ·) hday hrest)

/-- A day that is worth something and one lowered from it both fit, and so do the others. -/
theorem fits_lowered (hsplit : days = before ++ p :: after)
    (hday : (dayOf trip' p.1 p.2).amount = (dayOf trip p.1 p.2).amount + v)
    (hothers : ∀ q ∈ before ++ after, (dayOf trip' q.1 q.2).amount = (dayOf trip q.1 q.2).amount)
    (hfits : ∀ q ∈ days, |(dayOf trip q.1 q.2).amount| < 10 ^ 28)
    (hpos : 0 ≤ (dayOf trip p.1 p.2).amount) (hneg : v < 0) (hlow : -10 ^ 28 < v) :
    ∀ q ∈ days, |(dayOf trip' q.1 q.2).amount| < 10 ^ 28 := by
  intro q hq
  have hkept := hfits q hq
  rw [hsplit] at hq
  rcases List.mem_append.1 hq with hq | hq
  · rwa [hothers q (List.mem_append_left _ hq)]
  · rcases List.mem_cons.1 hq with rfl | hq
    · have hhigh := (abs_lt.1 hkept).2
      rw [hday]
      apply abs_lt.2
      omega
    · rwa [hothers q (List.mem_append_right _ hq)]

end

/-- Undoing the strip of a component that costs money lowers its day, in a trip that is otherwise
worth something every day. -/
theorem exists_lowered (h : x.run = .ok r) (hgated : x.gated = false)
    (hspan : tripSpan x.legs x.dateDepart x.dateReturn = .ok (first, last))
    (hts : tripTerms (x.trip first last) (span first last) none = .ok ts)
    (hpaid : ∀ p ∈ (span first last).zip ts,
      ∀ c ∈ paidComponents (x.trip first last) p.1, 0 ≤ p.2.gross c)
    {p : Day × Terms} (hp : p ∈ (span first last).zip ts) {c : Component}
    (hc : c ∈ dayComponents (dayType (x.trip first last) p.1))
    (hprovided : provided (controlling x.legs p.1) c) (hneg : p.2.gross c < 0) :
    ∃ n r', (x.unstrip n c).run = .ok r' ∧
      ¬ List.Forall₂ (fun d d' => d.day = d'.day ∧ d.amount ≤ d'.amount) r.days r'.days := by
  obtain ⟨-, -, first', last', hspan', -, -, -, ts', hts', hfits, hdays, htotal, -⟩ :=
    PerDiemInput.run_eq_ok.1 h
  obtain ⟨rfl, rfl⟩ := Prod.mk.inj (Except.ok.inj (hspan.symm.trans hspan'))
  obtain rfl := Except.ok.inj (hts.symm.trans hts')
  obtain ⟨n, leg, l, l', hrow, hdate, hbefore, hafter⟩ := exists_unstrip hgated hc hprovided
  obtain ⟨before, after, hsplit⟩ := List.append_of_mem hp
  let undone := (x.unstrip n c).trip first last
  have hlow := (abs_lt.1 ((hfits p hp).gross c hc)).1
  have hnonneg : ∀ q ∈ (span first last).zip ts, 0 ≤ (dayOf (x.trip first last) q.1 q.2).amount :=
    fun q hq => (nonneg_of_paid (hpaid q hq)).2
  have hday : (dayOf undone p.1 p.2).amount = _ :=
    amount_insert hbefore hafter (hfits p hp) (hpaid p hp) hneg ((hfits p hp).gross c hc)
  have hothers := amount_others (c := c) hgated hrow hdate hts hsplit
  have hkept := fits_lowered hsplit hday hothers (fun q hq => (hfits q hq).amount)
    (hnonneg p hp) hneg hlow
  have hfits' : ∀ q ∈ (span first last).zip ts, DayFits undone q.1 q.2 :=
    fun q hq => ⟨(hfits q hq).gross, hkept q hq⟩
  obtain ⟨m, m', hold, hnew⟩ := amounts_split hsplit hday hothers
  have hall : ∀ b ∈ r.days.map (·.amount), 0 ≤ b := by
    intro b hb
    rw [hdays, List.map_map] at hb
    obtain ⟨q, hq, rfl⟩ := List.mem_map.1 hb
    exact hnonneg q hq
  have htotal := (sumMoney_eq_ok.1 htotal).2 ▸ (sumMoney_eq_ok.1 htotal).1
  rw [hdays, hold] at hall htotal
  have htotal' := Decimal.contextSum_lowered hall htotal hneg hlow
  rw [← hnew] at htotal'
  refine ⟨n, { days := ((span first last).zip ts).map fun q => dayOf undone q.1 q.2
               perDiemTotal := Decimal.contextSum _
               transportTotal := r.transportTotal },
    (run_unstrip_iff h hspan hts).2 ⟨hfits', rfl, sumMoney_eq_ok.2 ⟨htotal', rfl⟩, rfl⟩,
    fun hle => ?_⟩
  rw [hdays, List.forall₂_map_left_iff, List.forall₂_map_right_iff, List.forall₂_same] at hle
  have hlowered := (hle p hp).2
  rw [hday] at hlowered
  omega

theorem WithinEntitlement.soundTrip (hwithin : WithinEntitlement x r) (hrates : RatesStored x.rates)
    (h : x.run = .ok r) : SoundTrip x := by
  obtain ⟨-, -, first, last, hspan, -, -, -, ts, hts, hfits, hdays, -⟩ :=
    PerDiemInput.run_eq_ok.1 h
  intro hgated first' last' ts' hspan' hts' p hp
  obtain ⟨rfl, rfl⟩ := Prod.mk.inj (Except.ok.inj (hspan.symm.trans hspan'))
  obtain rfl := Except.ok.inj (hts.symm.trans hts')
  have hmem : ∀ p ∈ (span first last).zip ts, dayOf (x.trip first last) p.1 p.2 ∈ r.days := by
    intro p hp
    rw [hdays]
    exact List.mem_map_of_mem hp
  have hpaid : ∀ p ∈ (span first last).zip ts,
      ∀ c ∈ paidComponents (x.trip first last) p.1, 0 ≤ p.2.gross c := by
    intro p hp c hc
    refine hwithin.components _ (hmem _ hp) (c, p.2.gross c) ?_
    rw [components_dayOf]
    exact List.mem_map_of_mem hc
  obtain ⟨prev, ht⟩ := (termsOn_of_tripTerms hts).2 p hp
  obtain ⟨hnonneg, hstored⟩ := RatesStored.dailyRate hrates ht
  constructor
  · intro c hc
    rw [← gross_nonneg_iff]
    cases hprovided : provided (controlling x.legs p.1) c with
    | false =>
        refine hpaid p hp c ?_
        rw [paidComponents_beyond hgated]
        exact List.mem_filter.2 ⟨hc, by simpa using hprovided⟩
    | true =>
        by_contra hneg
        obtain ⟨n, r', hr', hlowered⟩ :=
          exists_lowered h hgated hspan hts hpaid hp hc hprovided (not_le.1 hneg)
        exact hlowered (hwithin.unstripped n c r' hr')
  · intro hlodging
    exact (amount_le_iff (hfits p hp) hgated (fun c hc => gross_nonneg_iff.1 (hpaid p hp c hc))
      hlodging (hundred_of_apportionment (parts_of_termsOn ht)) hnonneg hstored).1
        (hwithin.capped _ (hmem _ hp))

theorem SoundTrip.within (hsound : SoundTrip x) (hrates : RatesStored x.rates) (h : x.run = .ok r) :
    WithinEntitlement x r := by
  obtain ⟨-, -, first, last, hspan, -, -, -, ts, hts, hfits, hdays, -⟩ :=
    PerDiemInput.run_eq_ok.1 h
  have hpaid : ∀ p ∈ (span first last).zip ts,
      ∀ c ∈ paidComponents (x.trip first last) p.1, 0 ≤ p.2.gross c := by
    intro p hp c hc
    cases hgated : x.gated with
    | true => simp [paidComponents, PerDiemInput.trip, hgated] at hc
    | false =>
        exact gross_nonneg_iff.2 ((hsound hgated first last ts hspan hts p hp).positive c
          (paidComponents_sublist.subset hc))
  constructor
  · intro d hd
    rw [hdays] at hd
    obtain ⟨p, hp, rfl⟩ := List.mem_map.1 hd
    exact (nonneg_of_paid (hpaid p hp)).1
  · intro d hd
    rw [hdays] at hd
    obtain ⟨p, hp, rfl⟩ := List.mem_map.1 hd
    exact (nonneg_of_paid (hpaid p hp)).2
  · intro d hd
    rw [hdays] at hd
    obtain ⟨p, hp, rfl⟩ := List.mem_map.1 hd
    obtain ⟨prev, ht⟩ := (termsOn_of_tripTerms hts).2 p hp
    obtain ⟨hnonneg, hstored⟩ := RatesStored.dailyRate hrates ht
    cases hgated : x.gated with
    | true =>
        rw [amount_gated hgated]
        exact hnonneg.trans (Int.le_add_one le_rfl)
    | false =>
        exact (hsound hgated first last ts hspan hts p hp).amount_le (hfits p hp) hgated
          (hundred_of_apportionment (parts_of_termsOn ht)) hnonneg hstored
  · intro n c r' hr'
    obtain ⟨hfits', hdays', -⟩ := (run_unstrip_iff h hspan hts).1 hr'
    rw [hdays, hdays', List.forall₂_map_left_iff, List.forall₂_map_right_iff, List.forall₂_same]
    intro p hp
    refine ⟨rfl, ?_⟩
    cases hgated : x.gated with
    | true => rw [amount_gated hgated, amount_gated (x := x.unstrip n c) hgated]
    | false =>
        rcases paid_unstrip first last p.1 hgated n c with
          hsame | ⟨_, l, l', -, -, hc, hbefore, hafter⟩
        · rw [amount_dayOf, amount_dayOf, hsame]
        · have hpositive := (hsound hgated first last ts hspan hts p hp).positive c hc
          exact amount_le_insert hbefore hafter (hfits p hp) (hfits' p hp) (hpaid p hp)
            (gross_nonneg_iff.2 hpositive)

/-- The bounds hold of a computed trip exactly when every day beyond the gate has sound terms. -/
theorem withinEntitlement_iff (hrates : RatesStored x.rates) (h : x.run = .ok r) :
    WithinEntitlement x r ↔ SoundTrip x :=
  ⟨fun hwithin => hwithin.soundTrip hrates h, fun hsound => hsound.within hrates h⟩

end

theorem oddRate_withinEntitlement : ∃ r, oddRate.run = .ok r ∧
    (WithinEntitlement oddRate r ↔ SoundTrip oddRate) := by
  obtain ⟨r, hr, -⟩ := exists_eq_ok (x := oddRate.run) (fun _ => true) (by decide +kernel)
  exact ⟨r, hr, withinEntitlement_iff (by unfold RatesStored; decide) hr⟩

/-- Percents that add up to a hundred, two of them negative; the departure percent matches. -/
def negativeMeals : PerDiemInput :=
  { oddRate with configs := [
    { key := apportionmentKey, effectiveFrom := 0
      value := some [("lodging", .int 150), ("meals", .int (-30)), ("incidentals", .int (-20))] },
    { key := departureRateKey, effectiveFrom := 0, value := some [("pct", .int (-50))] }] }

/-- The validators let them through, and the way back costs the traveller money. -/
theorem negativeMeals_underpays : ∃ r, negativeMeals.run = .ok r ∧
    ¬ WithinEntitlement negativeMeals r := by
  obtain ⟨r, hr, hnegative⟩ := exists_eq_ok (x := negativeMeals.run)
    (fun r => r.days.any fun d => d.amount < 0) (by decide +kernel)
  refine ⟨r, hr, fun hwithin => ?_⟩
  obtain ⟨d, hd, hamount⟩ := List.any_eq_true.1 hnegative
  exact absurd (hwithin.amounts d hd) (not_le.2 (by simpa using hamount))

end OfficeConnect.Reimbursement
