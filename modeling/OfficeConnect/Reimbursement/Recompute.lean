import OfficeConnect.Reimbursement.Ledger

/-!
# Money that is never stale

A snapshot of a claim's money is what computing it again would write.  The computation reads the
trip, the live legs, the linked advance and the tables; every call that changes one of them clears
the snapshot or writes it anew.
-/

namespace OfficeConnect.Reimbursement

open Lib Workflow

/-! ## What the computation reads -/

/-- The rate, region and config tables are the same. -/
structure Env.SameTables (env base : Env) : Prop where
  regions : env.regions = base.regions
  rates : env.rates = base.rates
  configs : env.configs = base.configs

/-- The rows of one claim's itinerary are as they were. -/
def SameLegs (legs legs' : List Leg) (i : ℕ) : Prop :=
  ∀ (id : ℕ) (leg : Leg), leg.claimId = i → (legs'[id]? = some leg ↔ legs[id]? = some leg)

/-- No row but one claim's differs. -/
def OnlyLegsOf (j : ℕ) (legs legs' : List Leg) : Prop :=
  ∀ id : ℕ, legs'[id]? = legs[id]? ∨
    (∀ leg : Leg, legs[id]? = some leg → leg.claimId = j) ∧
      ∀ leg : Leg, legs'[id]? = some leg → leg.claimId = j

section

variable {env base : Env} {σ σ₁ σ' : Store} {i j k : ℕ} {claim claim' : Claim} {c : Call}
variable {now : Time} {legs legs' : List Leg} {result : PerDiemResult}

theorem SameLegs.of_eq (h : legs' = legs) : SameLegs legs legs' i := fun _ _ _ => by rw [h]

theorem OnlyLegsOf.sameLegs (h : OnlyLegsOf j legs legs') (hne : i ≠ j) :
    SameLegs legs legs' i := by
  intro id leg hleg
  rcases h id with heq | ⟨hold, hnew⟩
  · rw [heq]
  · constructor
    · intro hrow
      exact absurd (hleg.symm.trans (hnew leg hrow)) hne
    · intro hrow
      exact absurd (hleg.symm.trans (hold leg hrow)) hne

/-- The rows of the itinerary query, before they are sorted. -/
theorem mem_liveLegs {id : ℕ} {leg : Leg} :
    (id, leg) ∈ (σ.legs.zipIdx.map Prod.swap).filter
        (fun l => l.2.claimId = i ∧ ¬ l.2.deleted) ↔
      σ.legs[id]? = some leg ∧ leg.claimId = i ∧ leg.deleted = false := by
  simp only [List.mem_filter, List.mem_map, decide_eq_true_eq, Bool.not_eq_true]
  constructor
  · rintro ⟨⟨⟨a, m⟩, hrow, hswap⟩, hlive⟩
    obtain ⟨rfl, rfl⟩ := Prod.mk.inj hswap
    exact ⟨List.mem_zipIdx_iff_getElem?.1 hrow, hlive⟩
  · rintro ⟨hrow, hlive⟩
    exact ⟨⟨(leg, id), List.mem_zipIdx_iff_getElem?.2 hrow, rfl⟩, hlive⟩

theorem mem_claimLegs {id : ℕ} {leg : Leg} :
    (id, leg) ∈ σ.claimLegs i ↔ σ.legs[id]? = some leg ∧ leg.claimId = i ∧ leg.deleted = false := by
  rw [Store.claimLegs, List.mem_insertionSort, mem_liveLegs]

theorem increasing_liveLegs (p : ℕ × Leg → Bool) :
    ((σ.legs.zipIdx.map Prod.swap).filter p).Pairwise fun a b => a.1 < b.1 := by
  refine List.Pairwise.filter _ (List.pairwise_map.2 ?_)
  have hids : (σ.legs.zipIdx.map Prod.snd).Pairwise (· < ·) := by
    rw [List.zipIdx_map_snd]
    exact List.pairwise_lt_range'
  exact List.pairwise_map.1 hids

theorem nodup_claimLegs : ((σ.claimLegs i).map Prod.fst).Nodup := by
  have hperm := (List.perm_insertionSort
    (fun a b : ℕ × Leg => a.2.seq < b.2.seq ∨ a.2.seq = b.2.seq ∧ a.1 ≤ b.1)
    ((σ.legs.zipIdx.map Prod.swap).filter fun l => l.2.claimId = i ∧ ¬ l.2.deleted)).map Prod.fst
  refine hperm.nodup_iff.2 (List.pairwise_map.2 ?_)
  exact (increasing_liveLegs _).imp fun hlt => hlt.ne

theorem pairwise_claimLegs : (σ.claimLegs i).Pairwise
    fun a b => a.2.seq < b.2.seq ∨ a.2.seq = b.2.seq ∧ a.1 ≤ b.1 := by
  have : Std.Total fun a b : ℕ × Leg => a.2.seq < b.2.seq ∨ a.2.seq = b.2.seq ∧ a.1 ≤ b.1 :=
    ⟨fun a b => by omega⟩
  have : IsTrans (ℕ × Leg) fun a b => a.2.seq < b.2.seq ∨ a.2.seq = b.2.seq ∧ a.1 ≤ b.1 :=
    ⟨fun a b c => by omega⟩
  exact List.pairwise_insertionSort _ _

/-- The query reads nothing but the claim's live rows. -/
theorem claimLegs_congr (h : SameLegs σ.legs σ'.legs i) : σ'.claimLegs i = σ.claimLegs i := by
  have hrows : (σ'.legs.zipIdx.map Prod.swap).filter (fun l => l.2.claimId = i ∧ ¬ l.2.deleted) =
      (σ.legs.zipIdx.map Prod.swap).filter (fun l => l.2.claimId = i ∧ ¬ l.2.deleted) := by
    refine List.Perm.eq_of_pairwise (fun a b _ _ hab hba => absurd hab hba.asymm)
      (increasing_liveLegs _) (increasing_liveLegs _) ?_
    refine (List.perm_ext_iff_of_nodup ?_ ?_).2 ?_
    · exact (increasing_liveLegs _).imp fun hlt heq => absurd (congrArg Prod.fst heq) hlt.ne
    · exact (increasing_liveLegs _).imp fun hlt heq => absurd (congrArg Prod.fst heq) hlt.ne
    · rintro ⟨id, leg⟩
      rw [mem_liveLegs, mem_liveLegs]
      constructor
      · rintro ⟨hrow, hclaim, hlive⟩
        exact ⟨(h id leg hclaim).1 hrow, hclaim, hlive⟩
      · rintro ⟨hrow, hclaim, hlive⟩
        exact ⟨(h id leg hclaim).2 hrow, hclaim, hlive⟩
  rw [Store.claimLegs, Store.claimLegs, hrows]

/-- What the breakdown reads of the itinerary. -/
def Store.legInputs (σ : Store) (i : ℕ) : List LegInput :=
  (σ.claimLegs i).map fun l => l.2.input l.1

/-- The legs of claim `i` with their computed columns written. -/
def pricedLegs (i : ℕ) (result : PerDiemResult) (legs : List Leg) : List Leg :=
  legs.mapIdx fun id leg => if leg.claimId = i ∧ ¬ leg.deleted then leg.computed result id else leg

/-- Writing the computed columns moves no live leg. -/
theorem claimLegs_priced (hlegs : σ'.legs = pricedLegs i result σ.legs) :
    σ'.claimLegs i = (σ.claimLegs i).map fun l => (l.1, l.2.computed result l.1) := by
  let f : ℕ × Leg → ℕ × Leg := fun l => (l.1, l.2.computed result l.1)
  have hrows : (σ'.legs.zipIdx.map Prod.swap).filter (fun l => l.2.claimId = i ∧ ¬ l.2.deleted) =
      ((σ.legs.zipIdx.map Prod.swap).filter fun l => l.2.claimId = i ∧ ¬ l.2.deleted).map f := by
    have hmap : σ'.legs.zipIdx.map Prod.swap = (σ.legs.zipIdx.map Prod.swap).map fun l =>
        (l.1, if l.2.claimId = i ∧ ¬ l.2.deleted then l.2.computed result l.1 else l.2) := by
      refine List.ext_getElem? fun n => ?_
      rw [hlegs, pricedLegs]
      simp only [List.getElem?_map, List.getElem?_zipIdx, List.getElem?_mapIdx, Option.map_map]
      cases σ.legs[n]? <;> simp
    rw [hmap, List.filter_map, List.map_congr_left]
    · congr 1
      refine List.filter_congr fun l _ => ?_
      simp only [Function.comp_apply]
      split_ifs <;> rfl
    · intro l hl
      have hlive := (List.mem_filter.1 hl).2
      simp only [Function.comp_apply] at hlive
      have hlive' : l.2.claimId = i ∧ ¬ l.2.deleted = true := by
        split_ifs at hlive with hcond
        · exact hcond
        · simpa using hlive
      simp only [f, if_pos hlive']
  have hsort := List.map_insertionSort
    (fun a b : ℕ × Leg => a.2.seq < b.2.seq ∨ a.2.seq = b.2.seq ∧ a.1 ≤ b.1)
    (fun a b : ℕ × Leg => a.2.seq < b.2.seq ∨ a.2.seq = b.2.seq ∧ a.1 ≤ b.1) f
    ((σ.legs.zipIdx.map Prod.swap).filter fun l => l.2.claimId = i ∧ ¬ l.2.deleted)
    fun _ _ _ _ => Iff.rfl
  rw [Store.claimLegs, hrows, ← hsort]
  rfl

/-- The computed columns are not read. -/
theorem legInputs_priced (hlegs : σ'.legs = pricedLegs i result σ.legs) :
    σ'.legInputs i = σ.legInputs i := by
  rw [Store.legInputs, Store.legInputs, claimLegs_priced hlegs, List.map_map]
  rfl

/-! ## A fresh snapshot -/

/-- The snapshot is what the computation makes of the rows, and so are the computed columns of the
live legs. -/
def Current (base : Env) (σ : Store) (i : ℕ) (claim : Claim) (t : Totals) : Prop :=
  ∃ result, claimPerDiem base σ i claim = .ok result ∧
    t = totalsOf result claim.trip.otherTotal (σ.advanceAmount claim) t.computedAt ∧
    MoneyFits σ i result t ∧
    ∀ (id : ℕ) (leg : Leg), σ.legs[id]? = some leg → leg.claimId = i → leg.deleted = false →
      leg.computed result id = leg

/-- A claim with a snapshot has the one its rows give, and a linked advance exists. -/
structure Fresh (base : Env) (i : ℕ) (σ : Store) : Prop where
  priced : ∀ claim t, σ.claims[i]? = some claim → claim.totals = some t → Current base σ i claim t
  linked : ∀ claim k, σ.claims[i]? = some claim → claim.cashAdvanceId = some k →
    ∃ a, σ.advances[k]? = some a

/-- The claim keeps its snapshot, its legs, its link and the inputs of the computation. -/
structure Carried (σ σ' : Store) (i : ℕ) (claim claim' : Claim) : Prop where
  row : σ.claims[i]? = some claim
  trip : ¬ claim.trip.stale claim'.trip
  totals : claim'.totals = claim.totals
  link : claim'.cashAdvanceId = claim.cashAdvanceId
  legs : SameLegs σ.legs σ'.legs i

/-- The rows of the advances stay, and the amount of one the claim links to. -/
def KeepsAdvances (σ σ' : Store) (i : ℕ) : Prop :=
  ∀ (k : ℕ) (a : CashAdvance), σ.advances[k]? = some a → ∃ a', σ'.advances[k]? = some a' ∧
    ∀ claim, σ.claims[i]? = some claim → claim.cashAdvanceId = some k → a'.amount = a.amount

theorem KeepsAdvances.of_eq (h : σ'.advances = σ.advances) : KeepsAdvances σ σ' i :=
  fun _ a ha => ⟨a, h ▸ ha, fun _ _ _ => rfl⟩

theorem claimPerDiem_congr (hbase : env.SameTables base) (htrip : ¬ claim.trip.stale claim'.trip)
    (hlegs : σ'.legInputs i = σ.legInputs i) :
    claimPerDiem env σ' i claim' = claimPerDiem base σ i claim := by
  simp only [Trip.stale, not_or, not_not] at htrip
  obtain ⟨hout, hback, hregion, hwithin, hstay, -⟩ := htrip
  unfold Store.legInputs at hlegs
  rw [claimPerDiem, claimPerDiem, hlegs, hbase.regions, hbase.rates, hbase.configs, hout, hback,
    hregion, hwithin, hstay]

theorem advanceAmount_none (h : claim.cashAdvanceId = none) : σ.advanceAmount claim = 0 := by
  simp [Store.advanceAmount, h]

theorem advanceAmount_some {a : CashAdvance} (h : claim.cashAdvanceId = some k)
    (ha : σ.advances[k]? = some a) : σ.advanceAmount claim = a.amount := by
  simp [Store.advanceAmount, h, ha]

theorem Carried.current {t : Totals} (h : Carried σ σ' i claim claim') (hfresh : Fresh base i σ)
    (hadv : KeepsAdvances σ σ' i) (ht : Current base σ i claim t) :
    Current base σ' i claim' t := by
  obtain ⟨result, hresult, htotals, hfits, hlegs⟩ := ht
  have hinputs : σ'.legInputs i = σ.legInputs i := by
    rw [Store.legInputs, Store.legInputs, claimLegs_congr h.legs]
  have hamount : σ'.advanceAmount claim' = σ.advanceAmount claim := by
    cases hlink : claim.cashAdvanceId with
    | none => rw [advanceAmount_none hlink, advanceAmount_none (h.link.trans hlink)]
    | some k =>
        obtain ⟨a, ha⟩ := hfresh.linked claim k h.row hlink
        obtain ⟨a', ha', hsame⟩ := hadv k a ha
        rw [advanceAmount_some hlink ha, advanceAmount_some (h.link.trans hlink) ha']
        exact hsame claim h.row hlink
  have hother : claim'.trip.otherTotal = claim.trip.otherTotal := by
    have htrip := h.trip
    simp only [Trip.stale, not_or, not_not] at htrip
    exact htrip.2.2.2.2.2.symm
  refine ⟨result, ?_, ?_, ⟨hfits.grand, hfits.settled, hfits.other, ?_⟩,
    fun id leg hrow hclaim hlive => ?_⟩
  · rw [claimPerDiem_congr ⟨rfl, rfl, rfl⟩ h.trip hinputs, hresult]
  · rw [hother, hamount]
    exact htotals
  · rw [claimLegs_congr h.legs]
    exact hfits.legs
  · exact hlegs id leg ((h.legs id leg hclaim).1 hrow) hclaim hlive

/-- The step lemma: a claim that is carried over stays fresh, and one without a snapshot is. -/
theorem Fresh.step (h : Fresh base i σ) (hadv : KeepsAdvances σ σ' i)
    (hrow : ∀ claim', σ'.claims[i]? = some claim' →
      (∃ claim, Carried σ σ' i claim claim') ∨
      (claim'.totals = none ∧
        ∀ k, claim'.cashAdvanceId = some k → ∃ a, σ.advances[k]? = some a)) :
    Fresh base i σ' := by
  constructor
  · intro claim' t hclaim' ht
    rcases hrow claim' hclaim' with ⟨claim, hcarried⟩ | ⟨hnone, -⟩
    · exact hcarried.current h hadv (h.priced claim t hcarried.row (hcarried.totals ▸ ht))
    · rw [hnone] at ht
      cases ht
  · intro claim' k hclaim' hlink
    have hold : ∃ a, σ.advances[k]? = some a := by
      rcases hrow claim' hclaim' with ⟨claim, hcarried⟩ | ⟨-, hexists⟩
      · exact h.linked claim k hcarried.row (hcarried.link ▸ hlink)
      · exact hexists k hlink
    obtain ⟨a, ha⟩ := hold
    obtain ⟨a', ha', -⟩ := hadv k a ha
    exact ⟨a', ha'⟩

/-- Whatever leaves the trip, the snapshot and the link of every claim. -/
def Claim.sheet (c : Claim) : Trip × Option Totals × Option ℕ := (c.trip, c.totals, c.cashAdvanceId)

def Store.sheets (σ : Store) : List (Trip × Option Totals × Option ℕ) := σ.claims.map Claim.sheet

theorem Trip.not_stale_self (t : Trip) : ¬ t.stale t := by simp [Trip.stale]

theorem carried_of_sheet (hrow : σ.claims[i]? = some claim) (hsheet : claim'.sheet = claim.sheet)
    (hlegs : SameLegs σ.legs σ'.legs i) : Carried σ σ' i claim claim' := by
  obtain ⟨htrip, hrest⟩ := Prod.mk.inj hsheet
  obtain ⟨htotals, hlink⟩ := Prod.mk.inj hrest
  exact ⟨hrow, by rw [htrip]; exact Trip.not_stale_self _, htotals, hlink, hlegs⟩

theorem Fresh.of_sheets (h : Fresh base i σ) (hsheets : σ'.sheets = σ.sheets)
    (hlegs : SameLegs σ.legs σ'.legs i) (hadv : KeepsAdvances σ σ' i) : Fresh base i σ' := by
  refine h.step hadv fun claim' hclaim' => .inl ?_
  have hold : σ.sheets[i]? = some claim'.sheet := by
    rw [← hsheets]
    simp [Store.sheets, hclaim']
  obtain ⟨claim, hclaim, hsheet⟩ : ∃ claim, σ.claims[i]? = some claim ∧
      claim.sheet = claim'.sheet := by simpa [Store.sheets] using hold
  exact ⟨claim, carried_of_sheet hclaim hsheet.symm hlegs⟩

theorem Fresh.of_eq (h : Fresh base i σ) (hclaims : σ'.claims = σ.claims)
    (hlegs : σ'.legs = σ.legs) (hadv : σ'.advances = σ.advances) : Fresh base i σ' :=
  h.of_sheets (by rw [Store.sheets, Store.sheets, hclaims]) (.of_eq hlegs) (.of_eq hadv)

/-! ## The computation itself -/

theorem pricedLegs_getElem? {id : ℕ} : (pricedLegs i result legs)[id]? =
    legs[id]?.map fun leg =>
      if leg.claimId = i ∧ ¬ leg.deleted then leg.computed result id else leg := by
  rw [pricedLegs, List.getElem?_mapIdx]

theorem onlyLegsOf_priced : OnlyLegsOf i legs (pricedLegs i result legs) := by
  intro id
  rw [pricedLegs_getElem?]
  cases hrow : legs[id]? with
  | none => exact .inl rfl
  | some leg =>
      by_cases hcond : leg.claimId = i ∧ ¬ leg.deleted
      · refine .inr ⟨fun l hl => ?_, fun l hl => ?_⟩
        · obtain rfl := Option.some.inj hl
          exact hcond.1
        · rw [Option.map_some, if_pos hcond] at hl
          obtain rfl := Option.some.inj hl
          exact hcond.1
      · left
        rw [Option.map_some, if_neg hcond]

/-- A leg computed twice is computed once. -/
theorem Leg.computed_computed (leg : Leg) (id : ℕ) :
    (leg.computed result id).computed result id = leg.computed result id := rfl

/-- The row the computation leaves. -/
theorem claims_computed {other : Option ℚ} (hok : computeClaimTotals env σ i other = .ok σ') :
    ∃ claim result, σ.claims[i]? = some claim ∧ claimPerDiem env σ i claim = .ok result ∧
      σ'.legs = pricedLegs i result σ.legs ∧ σ'.advances = σ.advances ∧
      σ'.claims[i]? = some { claim with
        trip := { claim.trip with
          otherTotal := (other.map toMoney).getD claim.trip.otherTotal }
        totals := some (totalsOf result ((other.map toMoney).getD claim.trip.otherTotal)
          (σ.advanceAmount claim) env.utcNow) } := by
  obtain ⟨claim, result, hclaim, hresult, hσ'⟩ := computeClaimTotals_eq_ok hok
  have hclaims : σ'.claims = σ.claims.modify i _ := congrArg Store.claims hσ'
  refine ⟨claim, result, hclaim, hresult, ?_, ?_, ?_⟩
  · rw [hσ']
    rfl
  · rw [hσ']
    rfl
  · rw [hclaims, getElem?_modify_self _ hclaim]

/-- A snapshot just written is current. -/
theorem current_computed {other : Option ℚ} (hbase : env.SameTables base)
    (hok : computeClaimTotals env σ i other = .ok σ') (hclaim : σ'.claims[i]? = some claim)
    {t : Totals} (ht : claim.totals = some t) : Current base σ' i claim t := by
  obtain ⟨old, result, hold, hresult, hlegs, hadv, hrow⟩ := claims_computed hok
  obtain ⟨old', result', hold', hresult', hfits⟩ := computeClaimTotals_fits hok
  obtain rfl := Option.some.inj (hold.symm.trans hold')
  obtain rfl := Except.ok.inj (hresult.symm.trans hresult')
  obtain rfl := Option.some.inj (hrow.symm.trans hclaim)
  obtain rfl := Option.some.inj ht
  refine ⟨result, ?_, ?_, ⟨hfits.grand, hfits.settled, hfits.other, ?_⟩,
    fun id leg hleg hid hlive => ?_⟩
  · have hinputs := legInputs_priced hlegs
    unfold Store.legInputs at hinputs
    rw [← hresult, claimPerDiem, claimPerDiem, hinputs, hbase.regions, hbase.rates, hbase.configs]
  · simp only [Store.advanceAmount, hadv]
    rfl
  · rw [claimLegs_priced hlegs]
    intro l hl
    obtain ⟨row, hrow, rfl⟩ := List.mem_map.1 hl
    obtain ⟨hpct, hamount, htotal⟩ := hfits.legs row hrow
    exact ⟨hpct, hamount, htotal⟩
  · rw [hlegs, pricedLegs_getElem?] at hleg
    obtain ⟨old, -, hold⟩ := Option.map_eq_some_iff.1 hleg
    split_ifs at hold with hcond
    · rw [← hold, Leg.computed_computed]
    · rw [hold] at hcond
      exact absurd ⟨hid, by simp [hlive]⟩ hcond

theorem Fresh.computed {other : Option ℚ} (h : Fresh base i σ) (hbase : env.SameTables base)
    (hok : computeClaimTotals env σ j other = .ok σ') : Fresh base i σ' := by
  obtain ⟨claim, result, hclaim, -, hlegs, hadv, hrow⟩ := claims_computed hok
  by_cases hij : i = j
  · subst hij
    refine ⟨fun claim' t hclaim' ht => current_computed hbase hok hclaim' ht, ?_⟩
    intro claim' k hclaim' hlink
    obtain rfl := Option.some.inj (hrow.symm.trans hclaim')
    rw [hadv]
    exact h.linked claim k hclaim hlink
  · refine h.step (.of_eq hadv) fun claim' hclaim' => .inl ⟨claim', ?_⟩
    obtain ⟨_, _, -, -, hσ'⟩ := computeClaimTotals_eq_ok hok
    have hsame : σ'.claims[i]? = σ.claims[i]? := by
      have hnew : σ'.claims = σ.claims.modify j _ := congrArg Store.claims hσ'
      rw [hnew, List.getElem?_modify_ne _ _ (Ne.symm hij)]
    exact carried_of_sheet (hsame ▸ hclaim') rfl
      (hlegs ▸ onlyLegsOf_priced.sameLegs hij)

/-! ## The calls -/

theorem fresh_claimAction {r : ActionRequest} (h : Fresh base i σ) (hbase : env.SameTables base)
    (hok : claimAction env r σ = .ok σ') : Fresh base i σ' := by
  obtain ⟨claim, j, inst, σ₁, priced, amount, v, e, inst', dest, returns, ha⟩ :=
    claimAction_acted hok
  have hprepared : Fresh base i σ₁ := by
    rcases prepareAction_eq_ok.1 ha.prepared with ⟨-, hrefresh⟩ | ⟨-, rfl, -⟩
    · obtain ⟨σ₂, claim₂, htotals, -, rfl⟩ := refreshForResubmit_eq_ok hrefresh
      exact (h.computed hbase htotals).of_eq rfl rfl rfl
    · exact h
  obtain ⟨claims, history, hmirror, rfl⟩ := ha.performed.result
  rcases hmirror with ⟨-, rfl, -⟩ | ⟨-, holder, -, rfl, -, -⟩
  · exact hprepared.of_eq rfl rfl rfl
  · refine hprepared.of_sheets (map_modify_of_eq (fun c => ?_) _ _) (.of_eq rfl) (.of_eq rfl)
    rfl

theorem fresh_submitClaim {r : Submit} (h : Fresh base i σ) (hbase : env.SameTables base)
    (hok : submitClaim env r σ = .ok σ') : Fresh base i σ' := by
  obtain ⟨claim, priced, packet, inst, v, e, inst', dest, entered, hs⟩ := submitClaim_eq_ok hok
  obtain ⟨σ₁, htotals, -, hpacket⟩ := preparePacket_eq_ok hs.prepared
  change packet = _ at hpacket
  have hpriced : Fresh base i packet := by
    rw [hpacket]
    exact (h.computed hbase htotals).of_eq rfl rfl rfl
  have hentered : Fresh base i entered := by
    rw [hs.store]
    refine hpriced.of_sheets (map_modify_of_eq (fun c => ?_) _ _) (.of_eq rfl) (.of_eq rfl)
    rfl
  obtain ⟨claims, history, hmirror, rfl⟩ := hs.performed.result
  rcases hmirror with ⟨-, rfl, -⟩ | ⟨-, holder, -, rfl, -, -⟩
  · exact hentered.of_eq rfl rfl rfl
  · refine hentered.of_sheets (map_modify_of_eq (fun c => ?_) _ _) (.of_eq rfl) (.of_eq rfl)
    rfl

/-- A new claim has no snapshot; rows of its own may be added to the itineraries. -/
theorem Fresh.filed (h : Fresh base i σ) (hclaims : σ'.claims = σ.claims ++ [claim])
    (htotals : claim.totals = none)
    (hlink : ∀ k, claim.cashAdvanceId = some k → ∃ a, σ.advances[k]? = some a)
    (hlegs : OnlyLegsOf σ.claims.length σ.legs σ'.legs) (hadv : KeepsAdvances σ σ' i) :
    Fresh base i σ' := by
  refine h.step hadv fun claim' hclaim' => ?_
  rw [hclaims] at hclaim'
  rcases getElem?_concat_eq_some hclaim' with hold | ⟨-, rfl⟩
  · have hlt : i < σ.claims.length := (List.getElem?_eq_some_iff.1 hold).1
    exact .inl ⟨claim', carried_of_sheet hold rfl (hlegs.sameLegs hlt.ne)⟩
  · exact .inr ⟨htotals, hlink⟩

theorem onlyLegsOf_self : OnlyLegsOf j legs legs := fun _ => .inl rfl

theorem onlyLegsOf_append {added : List Leg} (h : ∀ leg ∈ added, leg.claimId = j) :
    OnlyLegsOf j legs (legs ++ added) := by
  intro id
  rcases Nat.lt_or_ge id legs.length with hlt | hge
  · exact .inl (List.getElem?_append_left hlt)
  · refine .inr ⟨fun leg hleg => ?_, fun leg hleg => ?_⟩
    · rw [List.getElem?_eq_none hge] at hleg
      cases hleg
    · rw [List.getElem?_append_right hge] at hleg
      exact h leg (List.mem_of_getElem? hleg)

theorem OnlyLegsOf.trans {legs₁ : List Leg} (h : OnlyLegsOf j legs legs₁)
    (h' : OnlyLegsOf j legs₁ legs') : OnlyLegsOf j legs legs' := by
  intro id
  rcases h id with heq | ⟨hold, hmid⟩
  · rcases h' id with heq' | ⟨hmid', hnew⟩
    · exact .inl (heq'.trans heq)
    · exact .inr ⟨heq ▸ hmid', hnew⟩
  · rcases h' id with heq' | ⟨-, hnew⟩
    · exact .inr ⟨hold, heq' ▸ hmid⟩
    · exact .inr ⟨hold, hnew⟩

theorem keepsAdvances_flip {f : CashAdvance → CashAdvance} (hf : ∀ a, (f a).amount = a.amount)
    (hadv : σ'.advances = σ.advances.modify k f) : KeepsAdvances σ σ' i := by
  intro n a ha
  by_cases hn : k = n
  · subst hn
    exact ⟨f a, by rw [hadv, getElem?_modify_self _ ha], fun _ _ _ => hf a⟩
  · exact ⟨a, by rw [hadv, List.getElem?_modify_ne _ _ hn, ha], fun _ _ _ => rfl⟩

theorem fresh_createDraft {actor : ℕ} {kind : Kind} {r : ℕ × Store} (h : Fresh base i σ)
    (hok : createDraftClaim env σ actor kind now = .ok r) : Fresh base i r.2 := by
  obtain ⟨staff, rfl⟩ := createDraftClaim_eq_ok hok
  refine h.filed rfl rfl (fun k hk => ?_) onlyLegsOf_self (.of_eq rfl)
  cases hk

theorem fresh_startLiquidation {r : StartLiquidation} (h : Fresh base i σ)
    (hok : startLiquidation env r σ = .ok σ') : Fresh base i σ' := by
  simp only [startLiquidation, bind_eq_ok, found_eq_ok, refuse_eq_ok, onConflict_eq_ok,
    flushClaims_eq_ok, pure_eq_ok] at hok
  obtain ⟨a, hrow, -, -, actor, -, -, -, -, -, ⟨id, σ₁⟩, hdraft, _, ⟨rfl, -⟩, rfl⟩ := hok
  obtain ⟨staff, hr⟩ := createDraftClaim_eq_ok hdraft
  obtain ⟨rfl, rfl⟩ := Prod.mk.inj hr
  refine h.filed (modify_length_append _ _ _) rfl (fun k hk => ?_) onlyLegsOf_self
    (keepsAdvances_flip (k := r.cashAdvanceId) (fun a => ?_) rfl)
  · obtain rfl := Option.some.inj hk
    exact ⟨a, hrow⟩
  · split_ifs <;> rfl

theorem fresh_spawn {r : Spawn} (h : Fresh base i σ) (hbase : env.SameTables base)
    (hok : spawnReimbursement env r σ = .ok σ') : Fresh base i σ' := by
  simp only [spawnReimbursement, spawnable, bind_eq_ok, found_eq_ok, onConflict_eq_ok,
    flushClaims_eq_ok, pure_eq_ok] at hok
  obtain ⟨_, ⟨source, -, _, -, actor, -, _, -, advanceId, -, advance, hadvance, _, -, _, -, rfl⟩,
    ⟨id, σ₁⟩, hdraft, σ₂, ⟨hσ₂, -⟩, htotals⟩ := hok
  obtain ⟨staff, hr⟩ := createDraftClaim_eq_ok hdraft
  obtain ⟨rfl, rfl⟩ := Prod.mk.inj hr
  have hfiled : Fresh base i σ₂ := by
    rw [hσ₂]
    refine h.filed (modify_length_append _ _ _) rfl (fun k hk => ?_)
      (onlyLegsOf_append fun leg hleg => ?_) (.of_eq rfl)
    · obtain rfl := Option.some.inj hk
      exact ⟨advance, hadvance⟩
    · obtain ⟨l, -, rfl⟩ := List.mem_map.1 hleg
      rfl
  exact hfiled.computed hbase htotals

theorem fresh_updateDraftFields {r : DraftEdit} (h : Fresh base i σ)
    (hok : updateDraftFields env r σ = .ok σ') : Fresh base i σ' := by
  simp only [updateDraftFields, bind_eq_ok, pure_eq_ok] at hok
  obtain ⟨claim, hclaim, _, -, _, -, _, -, rfl⟩ := hok
  refine h.step (.of_eq rfl) fun claim' hclaim' => ?_
  rcases getElem?_modify_eq_some hclaim' with ⟨rfl, old, hold, rfl⟩ | ⟨-, hold⟩
  · obtain rfl : claim = old :=
      Option.some.inj ((ownedEditableClaim_eq_ok hclaim).1.symm.trans hold)
    by_cases hstale : claim.trip.stale (r.applyTo claim.trip)
    · exact .inr ⟨if_pos hstale, fun k hk => h.linked claim k hold hk⟩
    · exact .inl ⟨claim, hold, hstale, if_neg hstale, rfl, .of_eq rfl⟩
  · exact .inl ⟨claim', carried_of_sheet hold rfl (.of_eq rfl)⟩

theorem onlyLegsOf_writeLegs {live : List ℕ} (body : List LegIn) (pos : ℤ)
    (hlive : ∀ id ∈ live, ∀ leg : Leg, legs[id]? = some leg → leg.claimId = j)
    (hok : writeLegs j live body pos legs = .ok legs') : OnlyLegsOf j legs legs' := by
  induction body generalizing pos legs with
  | nil =>
      obtain rfl := Except.ok.inj hok
      exact onlyLegsOf_self
  | cons row body ih =>
      cases hid : row.id with
      | none =>
          simp only [writeLegs, hid] at hok
          have hadded : OnlyLegsOf j legs
              (legs ++ [{ claimId := j, seq := pos, inputs := row.inputs }]) :=
            onlyLegsOf_append (by simp)
          refine hadded.trans (ih (pos + 1) (fun id hmem leg hleg => ?_) hok)
          rcases getElem?_concat_eq_some hleg with hold | ⟨-, rfl⟩
          · exact hlive id hmem leg hold
          · rfl
      | some id =>
          simp only [writeLegs, hid, bind_eq_ok, refuse_eq_ok, not_not] at hok
          obtain ⟨-, hmem, hok⟩ := hok
          refine OnlyLegsOf.trans (fun n => ?_) (ih (pos + 1) (fun n hn leg hleg => ?_) hok)
          · by_cases hn : id = n
            · subst hn
              refine .inr ⟨hlive id hmem, fun leg hleg => ?_⟩
              rcases getElem?_modify_eq_some hleg with ⟨-, old, hold, rfl⟩ | ⟨hne, -⟩
              · exact hlive id hmem old hold
              · exact absurd rfl hne
            · exact .inl (List.getElem?_modify_ne _ _ hn)
          · rcases getElem?_modify_eq_some hleg with ⟨rfl, old, hold, rfl⟩ | ⟨-, hold⟩
            · exact hlive n hmem old hold
            · exact hlive n hn leg hold

/-- A new itinerary writes rows of its claim only. -/
theorem onlyLegsOf_replaceLegs {r : ReplaceLegs} (hok : replaceLegs env r σ = .ok σ') :
    OnlyLegsOf r.claimId σ.legs σ'.legs := by
  simp only [replaceLegs, bind_eq_ok, pure_eq_ok] at hok
  obtain ⟨claim, hclaim, legs, hwrite, rfl⟩ := hok
  have hlive : ∀ id ∈ (σ.claimLegs r.claimId).map (·.1), ∀ leg : Leg, σ.legs[id]? = some leg →
      leg.claimId = r.claimId := by
    intro id hid leg hleg
    obtain ⟨⟨_, old⟩, hold, rfl⟩ := List.mem_map.1 hid
    obtain ⟨hrow, hclaim, -⟩ := mem_claimLegs.1 hold
    obtain rfl := Option.some.inj (hrow.symm.trans hleg)
    exact hclaim
  have hwritten := onlyLegsOf_writeLegs r.legs 1 hlive hwrite
  refine hwritten.trans fun id => ?_
  rw [List.getElem?_mapIdx]
  cases hrow : legs[id]? with
  | none => exact .inl rfl
  | some leg =>
      by_cases hdrop : id ∈ (σ.claimLegs r.claimId).map (·.1) ∧ id ∉ r.legs.filterMap (·.id)
      · have hown : leg.claimId = r.claimId := by
          rcases hwritten id with heq | ⟨-, hnew⟩
          · exact hlive id hdrop.1 leg (heq ▸ hrow)
          · exact hnew leg hrow
        refine .inr ⟨fun l hl => ?_, fun l hl => ?_⟩
        · obtain rfl := Option.some.inj hl
          exact hown
        · rw [Option.map_some, if_pos hdrop] at hl
          obtain rfl := Option.some.inj hl
          exact hown
      · left
        rw [Option.map_some, if_neg hdrop]

theorem fresh_replaceLegs {r : ReplaceLegs} (h : Fresh base i σ)
    (hok : replaceLegs env r σ = .ok σ') : Fresh base i σ' := by
  have hlegs := onlyLegsOf_replaceLegs hok
  simp only [replaceLegs, bind_eq_ok, pure_eq_ok] at hok
  obtain ⟨claim, hclaim, legs, hwrite, rfl⟩ := hok
  refine h.step (.of_eq rfl) fun claim' hclaim' => ?_
  rcases getElem?_modify_eq_some hclaim' with ⟨rfl, old, hold, rfl⟩ | ⟨hne, hold⟩
  · exact .inr ⟨rfl, fun k hk => h.linked old k hold hk⟩
  · exact .inl ⟨claim', carried_of_sheet hold rfl (hlegs.sameLegs hne)⟩

theorem fresh_cancelDraft {r : CancelDraft} (h : Fresh base i σ)
    (hok : cancelDraftClaim env r σ = .ok σ') : Fresh base i σ' := by
  simp only [cancelDraftClaim, bind_eq_ok, flushClaims_eq_ok] at hok
  obtain ⟨claim, -, -, -, -, -, -, -, -, -, rfl, -⟩ := hok
  refine h.of_sheets (map_modify_of_eq (fun c => ?_) _ _) (.of_eq rfl) (.of_eq rfl)
  rfl

theorem fresh_createCashAdvance {r : CreateAdvance} (h : Fresh base i σ)
    (hok : createCashAdvance env r σ = .ok σ') : Fresh base i σ' := by
  simp only [createCashAdvance, bind_eq_ok, onConflict_eq_ok, flushAdvances_eq_ok] at hok
  obtain ⟨_, -, _, -, _, -, rfl, -⟩ := hok
  refine h.of_sheets rfl (.of_eq rfl) fun k a ha => ⟨a, ?_, fun _ _ _ => rfl⟩
  have hlt : k < σ.advances.length := (List.getElem?_eq_some_iff.1 ha).1
  exact (List.getElem?_append_left hlt).trans ha

theorem sheets_remirror (deadline : Option Day) :
    (remirrorDeadline σ k deadline).sheets = σ.sheets := by
  simp only [Store.sheets, remirrorDeadline, List.map_map]
  refine List.map_congr_left fun c _ => ?_
  simp only [Function.comp_apply]
  split_ifs <;> rfl

/-- The tables are the base's, and an edit of the advance the claim links to keeps its amount. -/
structure FixedInputs (base : Env) (i : ℕ) (σ : Store) (c : Call) : Prop where
  tables : c.env.SameTables base
  advance : ∀ r claim a a', c.op = .updateAdvance r → σ.claims[i]? = some claim →
    claim.cashAdvanceId = some r.cashAdvanceId → σ.advances[r.cashAdvanceId]? = some a →
    updatedAdvance c.env r a = .ok a' → a'.amount = a.amount

theorem fresh_updateCashAdvance {r : UpdateAdvance} (h : Fresh base i σ) (hc : c.op = .updateAdvance r)
    (hfixed : FixedInputs base i σ c) (hok : updateCashAdvance c.env r σ = .ok σ') :
    Fresh base i σ' := by
  simp only [updateCashAdvance, bind_eq_ok, found_eq_ok, flushAdvances_eq_ok] at hok
  obtain ⟨a, hrow, a', hedit, _, ⟨rfl, -⟩, hok⟩ := hok
  have hadv : KeepsAdvances σ (σ.setAdvance r.cashAdvanceId fun _ => a') i := by
    intro n b hb
    by_cases hn : r.cashAdvanceId = n
    · subst hn
      obtain rfl := Option.some.inj (hrow.symm.trans hb)
      exact ⟨a', getElem?_modify_self _ hb, fun claim hclaim hlink =>
        hfixed.advance r claim a a' hc hclaim hlink hrow hedit⟩
    · exact ⟨b, (List.getElem?_modify_ne _ _ hn).trans hb, fun _ _ _ => rfl⟩
  split_ifs at hok
  · obtain rfl := pure_eq_ok.1 hok
    exact h.of_sheets rfl (.of_eq rfl) hadv
  · obtain rfl := pure_eq_ok.1 hok
    exact h.of_sheets (sheets_remirror _) (.of_eq rfl) hadv

theorem fresh_recordSettlement {r : Settle} (h : Fresh base i σ) (hbase : env.SameTables base)
    (hok : recordSettlement env r σ = .ok σ') : Fresh base i σ' := by
  obtain ⟨k, t, -, hact⟩ := recordSettlement_eq_ok.1 hok
  have hrecorded : Fresh base i (r.recorded env k t σ) :=
    h.of_sheets rfl (.of_eq rfl) (keepsAdvances_flip (fun a => by rfl) rfl)
  exact fresh_claimAction hrecorded hbase hact

theorem fresh_recordPayout {r : Payout} (h : Fresh base i σ) (hbase : env.SameTables base)
    (hok : recordPayout env r σ = .ok σ') : Fresh base i σ' := by
  simp only [recordPayout, recordExternalEvent, bind_eq_ok, Prod.exists, pure_eq_ok] at hok
  obtain ⟨reference, day, -, _, ⟨_, -, _, -, claim, -, _, -, rfl⟩, hact⟩ := hok
  refine fresh_claimAction ?_ hbase hact
  refine h.of_sheets (map_modify_of_eq (fun c => ?_) _ _) (.of_eq rfl) (.of_eq rfl)
  rfl

/-- A call that leaves the inputs fixed keeps the snapshot fresh. -/
theorem Fresh.call (h : Fresh base i σ) (hfixed : FixedInputs base i σ c)
    (hok : c.step σ = .ok σ') : Fresh base i σ' := by
  have hbase := hfixed.tables
  obtain ⟨env, op⟩ := c
  cases op with
  | createDraft actor kind now =>
      obtain ⟨r, hr, rfl⟩ := map_eq_ok.1 hok
      exact fresh_createDraft h hr
  | editDraft r => exact fresh_updateDraftFields h hok
  | replaceLegs r => exact fresh_replaceLegs h hok
  | recomputeTotals claimId actor =>
      simp only [Call.step, recomputeTotals, bind_eq_ok] at hok
      obtain ⟨claim, -, htotals⟩ := hok
      exact h.computed hbase htotals
  | attachEvidence claimId catalogId actor =>
      simp only [Call.step, attachEvidence, bind_eq_ok, pure_eq_ok] at hok
      obtain ⟨_, -, _, -, _, -, rfl⟩ := hok
      exact h.of_eq rfl rfl rfl
  | detachEvidence claimId catalogId actor =>
      simp only [Call.step, detachEvidence, bind_eq_ok, pure_eq_ok] at hok
      obtain ⟨_, -, _, -, rfl⟩ := hok
      exact h.of_eq rfl rfl rfl
  | markGenerated claimId code =>
      simp only [Call.step, markGenerated, bind_eq_ok, pure_eq_ok] at hok
      obtain ⟨_, -, _, -, _, -, rfl⟩ := hok
      exact h.of_eq rfl rfl rfl
  | cancelDraft r => exact fresh_cancelDraft h hok
  | submit r => exact fresh_submitClaim h hbase hok
  | act r => exact fresh_claimAction h hbase hok
  | createAdvance r => exact fresh_createCashAdvance h hok
  | updateAdvance r => exact fresh_updateCashAdvance h rfl hfixed hok
  | markOverdue advanceId =>
      obtain rfl := Except.ok.inj hok
      refine h.of_sheets rfl (.of_eq rfl) (keepsAdvances_flip (fun a => ?_) rfl)
      split_ifs <;> rfl
  | startLiquidation r => exact fresh_startLiquidation h hok
  | settle r => exact fresh_recordSettlement h hbase hok
  | payout r => exact fresh_recordPayout h hbase hok
  | relay r =>
      simp only [Call.step, recordExternalEvent, bind_eq_ok, pure_eq_ok] at hok
      obtain ⟨_, -, _, -, claim, -, _, -, rfl⟩ := hok
      exact h.of_eq rfl rfl rfl
  | spawn r => exact fresh_spawn h hbase hok
  | sweep now instanceId picked =>
      obtain rfl := Except.ok.inj hok
      exact h.of_eq rfl rfl rfl
  | remind instanceId stepId level revisionNo =>
      obtain rfl := Except.ok.inj hok
      exact h.of_eq rfl rfl rfl

theorem runStore_fresh {calls : List Call} (hcalls : Conforms Call.step (FixedInputs base i) {} calls) :
    Fresh base i (runStore calls) := by
  refine run_invariant (fun σ c σ' hc h hok => h.call hc hok) calls _ ?_ hcalls
  constructor
  · intro claim t hclaim
    simp at hclaim
  · intro claim k hclaim
    simp at hclaim

/-! ## Computing again -/

/-- Computing a claim with a current snapshot again writes the same legs and the same totals, with
the clock of the new computation; a total of other expenses that comes along is the one it has. -/
theorem Current.recompute {t : Totals} {other : Option ℚ} (h : Current base σ i claim t)
    (hbase : env.SameTables base) (hclaim : σ.claims[i]? = some claim)
    (hnonneg : ¬ ∃ q ∈ other, q < 0)
    (hother : (other.map toMoney).getD claim.trip.otherTotal = claim.trip.otherTotal) :
    computeClaimTotals env σ i other = .ok (σ.setClaim i fun c =>
      { c with totals := some { t with computedAt := env.utcNow } }) := by
  obtain ⟨result, hresult, htotals, hfits, hlegs⟩ := h
  have hagain : claimPerDiem env σ i claim = .ok result := by
    rw [← hresult]
    exact claimPerDiem_congr hbase (Trip.not_stale_self _) rfl
  have hrows : pricedLegs i result σ.legs = σ.legs := by
    refine List.ext_getElem? fun id => ?_
    rw [pricedLegs_getElem?]
    cases hrow : σ.legs[id]? with
    | none => rfl
    | some leg =>
        rw [Option.map_some]
        split_ifs with hcond
        · rw [hlegs id leg hrow hcond.1 (by simpa using hcond.2)]
        · rfl
  have hwritten : σ.claims.modify i (fun c => { c with
        trip := { c.trip with otherTotal := claim.trip.otherTotal }
        totals := some (totalsOf result claim.trip.otherTotal (σ.advanceAmount claim)
          env.utcNow) }) =
      σ.claims.modify i fun c => { c with
        totals := some { t with computedAt := env.utcNow } } := by
    rw [modify_congr_self hclaim, modify_congr_self hclaim fun c => { c with
      totals := some { t with computedAt := env.utcNow } }, htotals]
    rfl
  have hcontext : ¬ (10 ^ 28 ≤ |(totalsOf result claim.trip.otherTotal (σ.advanceAmount claim)
        env.utcNow).grand| ∨
      10 ^ 28 ≤ |(totalsOf result claim.trip.otherTotal (σ.advanceAmount claim)
        env.utcNow).advance - (totalsOf result claim.trip.otherTotal (σ.advanceAmount claim)
        env.utcNow).grand|) := by
    rw [htotals] at hfits
    exact not_or.2 ⟨not_le.2 hfits.grand, not_le.2 hfits.settled⟩
  have hcolumns : ¬ (¬ Storable claim.trip.otherTotal ∨
      ∃ l ∈ σ.claimLegs i, ¬ l.2.Holds result l.1) := by
    rw [htotals] at hfits
    rintro (hother | ⟨l, hl, hover⟩)
    · exact hother hfits.other
    · exact hover (hfits.legs l hl)
  rw [computeClaimTotals, refuse_of_not _ hnonneg, ok_bind, lockedClaim, hclaim, found_some,
    ok_bind, hagain, ok_bind]
  simp only [hother, Store.setClaim]
  rw [refuse_of_not _ hcontext, ok_bind, refuse_of_not _ hcolumns, ok_bind]
  rw [hwritten, ← pricedLegs, hrows]
  rfl

/-- A snapshot is never stale: in every run whose calls find the same rate, region and config
tables and never move the amount of the advance a claim links to, computing a claim that has a
snapshot again gives the same totals and the same legs. -/
theorem runStore_totals_current {calls : List Call}
    (hcalls : Conforms Call.step (FixedInputs base i) {} calls)
    (hclaim : (runStore calls).claims[i]? = some claim) {t : Totals} (ht : claim.totals = some t)
    (hbase : env.SameTables base) :
    computeClaimTotals env (runStore calls) i = .ok ((runStore calls).setClaim i fun c =>
      { c with totals := some { t with computedAt := env.utcNow } }) :=
  ((runStore_fresh hcalls).priced _ _ hclaim ht).recompute hbase hclaim (by simp) rfl

/-- The call edits an advance. -/
def Op.editsAdvance : Op → Bool
  | .updateAdvance _ => true
  | _ => false

theorem fixedInputs_of_quiet (henv : c.env = base) (hop : c.op.editsAdvance = false) :
    FixedInputs base i σ c := by
  refine ⟨henv ▸ ⟨rfl, rfl, rfl⟩, fun r _ _ _ hr _ _ _ _ => ?_⟩
  rw [hr] at hop
  cases hop

theorem submitTrip_totals_current : ∃ claim t,
    (runStore (inOffice (submitTrip 3000))).claims[0]? = some claim ∧ claim.totals = some t ∧
      computeClaimTotals office (runStore (inOffice (submitTrip 3000))) 0 =
        .ok ((runStore (inOffice (submitTrip 3000))).setClaim 0 fun c =>
          { c with totals := some { t with computedAt := office.utcNow } }) := by
  obtain ⟨claim, hclaim, hpriced⟩ :=
    exists_eq_some (o := (runStore (inOffice (submitTrip 3000))).claims[0]?)
      (fun claim => claim.totals.isSome) (by decide +kernel)
  obtain ⟨t, ht⟩ := Option.isSome_iff_exists.1 hpriced
  have hquiet : ∀ c ∈ inOffice (submitTrip 3000), c.env = office ∧ c.op.editsAdvance = false := by
    simp [inOffice, submitTrip, fileTrip, fillTrip, Op.editsAdvance]
  have hfixed : Conforms Call.step (FixedInputs office 0) {} (inOffice (submitTrip 3000)) :=
    (conforms_of_forall hquiet _).mono fun _ _ h => fixedInputs_of_quiet h.1 h.2
  exact ⟨claim, t, hclaim, ht, runStore_totals_current hfixed hclaim ht ⟨rfl, rfl, rfl⟩⟩

end

end OfficeConnect.Reimbursement
