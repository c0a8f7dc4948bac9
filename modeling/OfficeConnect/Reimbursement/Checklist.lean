import OfficeConnect.Reimbursement.Compute

/-!
# The documentary packet

The reconciliation of the requirement catalog with the items a claim already has, and the two gates:
the submit side materializes the packet and refuses a missing required item, the approve side reads
the persisted rows only.
-/

namespace OfficeConnect.Reimbursement

open Lib

/-! ## Facts -/

/-- Only a liquidation is measured against its advance's deadline. -/
def deadlineFacts (σ : Store) (claim : Claim) : Option Day :=
  if claim.kind = .liquidation then
    (claim.cashAdvanceId.bind fun id => σ.advances[id]?).bind (·.deadlineDate)
  else none

def buildClaimFacts (env : Env) (σ : Store) (claimId : ℕ) (claim : Claim) (now : Time) : Facts :=
  let today := manilaDate now
  let legs := (σ.claimLegs claimId).map (·.2)
  { kind := claim.kind
    isJoCos := claim.isJoCos
    fundSource := claim.trip.fundSource
    isWithin50km := claim.trip.isWithin50km
    overnightStay := claim.trip.overnightStay
    activityId := claim.trip.activityId
    purpose := claim.trip.purpose
    destination := claim.trip.destination
    destinationRegionCode := claim.trip.destinationRegionCode
    transportModes := ((legs.filterMap (·.inputs.transportMode)).dedup).insertionSort
      fun a b => a.text ≤ b.text
    fare := legs.filterMap (·.inputs.fare)
    legs := legs.map fun leg =>
      { seq := leg.seq
        legDate := leg.inputs.legDate
        place := leg.inputs.place
        destinationRegionCode := leg.inputs.destinationRegionCode
        transportMode := leg.inputs.transportMode
        fare := leg.inputs.fare }
    dateDepart := claim.trip.dateDepart
    dateReturn := claim.trip.dateReturn
    totals := claim.totals
    otherTotal := claim.trip.otherTotal
    config := effectiveConfig env.configs today
    liquidationDeadline := deadlineFacts σ claim
    today := today }

/-! ## The plan -/

inductive PlanAction where
  | create | keep | restore | makeDormant
deriving DecidableEq, Repr

structure ItemState where
  itemId : ℕ
  evidence : EvidenceCount
  generated : Bool
  waived : Bool
  dormant : Bool
deriving DecidableEq, Repr

/-- Deleting the row would destroy work someone did. -/
def ItemState.holdsSomething (s : ItemState) : Bool :=
  s.evidence.usable ≠ 0 ∨ s.waived ∨ s.generated

inductive EvidenceState where
  | missing | attached | generated | waived
deriving DecidableEq, Repr

structure ItemPlan where
  catalog : CatalogRow
  itemId : Option ℕ
  action : PlanAction
  required : Bool
  evidenceState : EvidenceState
  derivedStatus : ItemStatus
  checks : List CheckOutcome

/-- A waiver outranks a generated document, which outranks an upload, which outranks the verdict
that only describes the upload. -/
def derive (spec : CatalogRow) (state : Option ItemState) (checks : List CheckOutcome) :
    EvidenceState × ItemStatus :=
  let flagged := CheckOutcome.flagged ∈ checks
  let passed := CheckOutcome.passed ∈ checks
  if state.any (·.waived) then (.waived, .waived)
  else if state.any (·.generated) then (.generated, .generated)
  else if spec.evidence = .dataOnly then (.attached, if flagged then .autoFlagged else .autoPassed)
  else if state.any (0 < ·.evidence.usable) then
    (.attached, if flagged then .autoFlagged else if passed then .autoPassed else .attached)
  else (.missing, .missing)

def itemFacts (state : Option ItemState) : ItemFacts :=
  { evidence := (state.map (·.evidence)).getD {}
    waived := state.any (·.waived)
    generated := state.any (·.generated) }

/-- One row of the plan; a rule that does not apply and has nothing behind it leaves none. -/
def planItem (facts : Facts) (state? : ℕ → Option ItemState) (spec : CatalogRow) :
    Option ItemPlan :=
  let state := state? spec.id
  let outcome := spec.requiredRule facts
  if ¬ outcome.required ∧ ¬ outcome.unparseable ∧ (state = none ∨ state.any (·.dormant)) then none
  else if outcome.unparseable ∧ state.any (·.dormant) then none
  else
    let checks := spec.autoChecks facts (itemFacts state)
    let (evidenceState, derivedStatus) := derive spec state checks
    some {
      catalog := spec
      itemId := state.map (·.itemId)
      action := match state with
        | none => .create
        | some s =>
            if outcome.required then if s.dormant then .restore else .keep
            else if s.holdsSomething then .keep
            else .makeDormant
      required := outcome.required
      evidenceState := evidenceState
      derivedStatus := derivedStatus
      checks := checks }

/-- `ORDER BY sort, code`. -/
def CatalogRow.le (a b : CatalogRow) : Prop := a.sort < b.sort ∨ a.sort = b.sort ∧ a.code ≤ b.code

instance : DecidableRel CatalogRow.le := fun a b =>
  inferInstanceAs (Decidable (a.sort < b.sort ∨ a.sort = b.sort ∧ a.code ≤ b.code))

def planChecklist (catalog : List CatalogRow) (state? : ℕ → Option ItemState) (facts : Facts) :
    List ItemPlan :=
  (catalog.insertionSort CatalogRow.le).filterMap (planItem facts state?)

/-- The kinds of evidence a human must supply. -/
def Evidence.blocks (e : Evidence) : Bool := e = .upload ∨ e = .externalWetSign

/-- The required rows that still miss what a human must supply. -/
def blockingRows (plan : List ItemPlan) : List CatalogRow :=
  (plan.filter fun p =>
    p.required ∧ p.catalog.evidence.blocks ∧ p.evidenceState = .missing).map (·.catalog)

/-! ## The claim's packet -/

def activeCatalog (env : Env) (kind : Kind) : List CatalogRow :=
  env.catalog.filter fun row => row.isActive ∧ (row.claimKind = none ∨ row.claimKind = some kind)

/-- The claim's row for a catalog id, dormant ones included. -/
def Store.item? (σ : Store) (claimId catalogId : ℕ) : Option (ℕ × ChecklistItem) :=
  ((σ.items.zipIdx.map Prod.swap).filter fun i =>
    i.2.claimId = claimId ∧ i.2.catalogId = catalogId).getLast?

def itemState (env : Env) (item : ℕ × ChecklistItem) : ItemState :=
  { itemId := item.1
    evidence := env.evidenceCounts item.1
    generated := item.2.status = .generated
    waived := item.2.waiverReason ≠ none
    dormant := item.2.deleted }

def buildPlan (env : Env) (σ : Store) (claimId : ℕ) (claim : Claim) (now : Time) : List ItemPlan :=
  planChecklist (activeCatalog env claim.kind)
    (fun catalogId => (σ.item? claimId catalogId).map (itemState env))
    (buildClaimFacts env σ claimId claim now)

/-- Apply one row of the plan. -/
def applyPlan (claimId : ℕ) (items : List ChecklistItem) (p : ItemPlan) : List ChecklistItem :=
  match p.action, p.itemId with
  | .create, _ => items ++ [{
      claimId := claimId
      catalogId := p.catalog.id
      status := p.derivedStatus
      circularVersion := p.catalog.circularVersion }]
  | _, none => items
  | .makeDormant, some id => items.modify id fun i => { i with deleted := true }
  | .restore, some id => items.modify id fun i =>
      { i with deleted := false, status := p.derivedStatus }
  | .keep, some id => items.modify id fun i => { i with status := p.derivedStatus }

/-- Materialize the plan onto the claim's items. -/
def refreshChecklist (env : Env) (σ : Store) (claimId : ℕ) (claim : Claim) (now : Time) : Store :=
  { σ with items := (buildPlan env σ claimId claim now).foldl (applyPlan claimId) σ.items }

/-! ## The gates -/

def packetIncomplete (rows : List CatalogRow) (actorIsOwner : Bool) : Raised :=
  let listed := ", ".intercalate ((rows.take 5).map fun r => r.code ++ " (" ++ r.label ++ ")")
  let more := if 5 < rows.length then s!", and {rows.length - 5} more" else ""
  let remedy := if actorIsOwner then "Attach them on the Documents step, then submit again."
    else "Return the claim so the claimant can complete the packet."
  let noun := if rows.length = 1 then "document" else "documents"
  .api 422 "reimb_packet_incomplete"
    s!"{rows.length} required {noun} still missing: {listed}{more}. {remedy}"

/-- Materialize, then refuse if anything is missing. -/
def assertPacketComplete (env : Env) (σ : Store) (claimId : ℕ) (now : Time) :
    Except Raised Store := do
  let claim ← lockedClaim σ claimId
  let σ' := refreshChecklist env σ claimId claim now
  let blocking := blockingRows (buildPlan env σ' claimId claim now)
  refuse (blocking.length ≠ 0) (packetIncomplete blocking true)
  return σ'

/-- The live items of a claim that hold nothing and whose row needs a human's evidence. -/
def persistedBlocking (env : Env) (σ : Store) (claimId : ℕ) : List CatalogRow :=
  (σ.items.zipIdx.filter fun i => i.1.claimId = claimId ∧ ¬ i.1.deleted).filterMap fun i =>
    (env.catalog.find? (·.id = i.1.catalogId)).bind fun row =>
      if row.evidence.blocks ∧ i.1.waiverReason = none ∧ i.1.status ≠ .generated ∧
          (env.evidenceCounts i.2).usable = 0
      then some row else none

/-- The approve side: nothing is evaluated again. -/
def assertPersistedPacketComplete (env : Env) (σ : Store) (claimId : ℕ) : Except Raised Unit :=
  refuse ((persistedBlocking env σ claimId).length ≠ 0)
    (packetIncomplete (persistedBlocking env σ claimId) false)

end OfficeConnect.Reimbursement
