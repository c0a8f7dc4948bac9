import OfficeConnect.Reimbursement.Store

/-!
# Computing a claim's money

The one entry point that writes the computed columns of a claim's legs and its `totals` snapshot.
-/

namespace OfficeConnect.Reimbursement

open Lib

def Leg.input (id : ℕ) (leg : Leg) : LegInput :=
  { id := some id
    seq := leg.seq
    legDate := leg.inputs.legDate
    destinationRegionCode := leg.inputs.destinationRegionCode
    transportMode := leg.inputs.transportMode
    fare := leg.inputs.fare
    lodgingProvided := leg.inputs.lodgingProvided
    mealsProvided := leg.inputs.mealsProvided }

def Leg.computed (result : PerDiemResult) (id : ℕ) (leg : Leg) : Leg :=
  let (pct, amount) := result.legValue id
  { leg with
    perDiemPct := some pct
    perDiemAmount := some amount
    legTotal := some (countedFare leg.inputs.transportMode leg.inputs.fare + amount) }

/-- The computed columns of a leg hold what is written into them: an `integer` and two
`numeric(12, 2)`. -/
structure Leg.Holds (result : PerDiemResult) (id : ℕ) (leg : Leg) : Prop where
  pct : -2 ^ 31 ≤ (result.legValue id).1 ∧ (result.legValue id).1 < 2 ^ 31
  amount : Storable (result.legValue id).2
  total : Storable (countedFare leg.inputs.transportMode leg.inputs.fare + (result.legValue id).2)

instance (result : PerDiemResult) (id : ℕ) (leg : Leg) : Decidable (leg.Holds result id) :=
  decidable_of_iff
    ((-2 ^ 31 ≤ (result.legValue id).1 ∧ (result.legValue id).1 < 2 ^ 31) ∧
      Storable (result.legValue id).2 ∧
      Storable (countedFare leg.inputs.transportMode leg.inputs.fare + (result.legValue id).2))
    ⟨fun h => ⟨h.1, h.2.1, h.2.2⟩, fun h => ⟨h.pct, h.amount, h.total⟩⟩

/-- The amount of the advance a claim nets; none counts as zero. -/
def Store.advanceAmount (σ : Store) (claim : Claim) : ℤ :=
  match claim.cashAdvanceId.bind fun id => σ.advances[id]? with
  | some advance => advance.amount
  | none => 0

def totalsOf (result : PerDiemResult) (other advance : ℤ) (now : Time) : Totals :=
  let grand := result.perDiemTotal + result.transportTotal + other
  let (toReimburse, toRefund) := settle grand advance
  { perDiem := result.perDiemTotal
    transport := result.transportTotal
    other := other
    grand := grand
    advance := advance
    toReimburse := toReimburse
    toRefund := toRefund
    computedAt := now
    days := result.days }

/-- The per-diem breakdown of a claim as its rows stand. -/
def claimPerDiem (env : Env) (σ : Store) (claimId : ℕ) (claim : Claim) :
    Except Raised PerDiemResult :=
  computePerDiem ((σ.claimLegs claimId).map fun l => l.2.input l.1)
    claim.trip.dateDepart claim.trip.dateReturn claim.trip.destinationRegionCode
    claim.trip.isWithin50km claim.trip.overnightStay env.regions env.rates
    (env.configs.filter fun c => (c.key = apportionmentKey ∨ c.key = departureRateKey) ∧ c.isActive)

def computeClaimTotals (env : Env) (σ : Store) (claimId : ℕ) (otherTotal : Option ℚ := none) :
    Except Raised Store := do
  refuse (∃ q ∈ otherTotal, q < 0) (.valueError "other_total cannot be negative")
  let claim ← lockedClaim σ claimId
  let result ← claimPerDiem env σ claimId claim
  let other := (otherTotal.map toMoney).getD claim.trip.otherTotal
  let totals := totalsOf result other (σ.advanceAmount claim) env.utcNow
  -- fares and other expenses are not negative: a sum that leaves the context does not come back
  refuse (10 ^ 28 ≤ |totals.grand| ∨ 10 ^ 28 ≤ |totals.advance - totals.grand|) .invalidOperation
  -- the flush
  refuse (¬ Storable other ∨ ∃ l ∈ σ.claimLegs claimId, ¬ l.2.Holds result l.1) .dataError
  return {
    σ.setClaim claimId fun c =>
      { c with trip := { c.trip with otherTotal := other }, totals := some totals } with
    legs := σ.legs.mapIdx fun id leg =>
      if leg.claimId = claimId ∧ ¬ leg.deleted then leg.computed result id else leg }

end OfficeConnect.Reimbursement
