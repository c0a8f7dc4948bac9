import OfficeConnect.Reimbursement.Settlement

/-!
# Editing a claimant-held claim

The wizard's write path beside the lifecycle.  A change to an input of the computation clears the
`totals` snapshot; nothing here touches the status or the engine.
-/

namespace OfficeConnect.Reimbursement

open Lib

/-! ## Errors -/

def claimNotEditable : Raised :=
  .api 409 "reimb_claim_not_editable"
    ("This claim is in the approval workflow and can no longer be edited — " ++
      "wait for it to be returned, or cancel and start again.")

def legUnknown (legId : ℕ) : Raised :=
  .api 422 "reimb_leg_unknown" s!"Itinerary leg id {legId} does not belong to this claim."

def unknownActivity (activityId : ℕ) : Raised :=
  .api 422 "reimb_unknown_activity"
    (s!"Activity {activityId} does not exist — pick one from the " ++
      "activity spine or leave the claim unlinked.")

def invalidTripDates : Raised :=
  .api 422 "reimb_invalid_trip_dates"
    "The return date is before the departure date — fix the trip dates."

def unknownCatalogItem (catalogId : ℕ) : Raised :=
  .api 422 "reimb_unknown_catalog_item"
    (s!"Checklist item {catalogId} is not in the active catalog for this " ++
      "claim — refresh the packet and try again.")

def evidenceNotUploadable (code : String) (evidence : Evidence) : Raised :=
  .api 422 "reimb_evidence_not_uploadable"
    ("'" ++ code ++ "' is a " ++ evidence.label ++ " item — there is nothing " ++
      "for you to upload against it.")

def unknownCatalogCode (code : String) : Raised :=
  .api 422 "reimb_unknown_catalog_code"
    ("'" ++ code ++ "' is not in the active catalog for this claim kind — the " ++
      "template binding points at a requirement that no longer exists.")

def documentNotGeneratable (code : String) (evidence : Evidence) : Raised :=
  .api 422 "reimb_document_not_generatable"
    ("'" ++ code ++ "' is a " ++ evidence.label ++ " item — the system does " ++
      "not generate it.")

/-! ## Who may edit -/

def ownedEditableClaim (env : Env) (σ : Store) (claimId actor : ℕ) : Except Raised Claim := do
  let claim ← lockedClaim σ claimId
  refuse (¬ isClaimOwner env claim actor) notClaimOwner
  refuse (claim.status ≠ .draft ∧ claim.status ≠ .returned) claimNotEditable
  return claim

/-! ## The header -/

/-- A partial update; the outer `none` is a field the caller did not send, and an explicit null on a
column that has none is no change. -/
structure DraftEdit where
  claimId : ℕ
  actorUserId : ℕ
  activityId : Option (Option ℕ) := none
  dpoNo : Option (Option String) := none
  dpoDate : Option (Option Day) := none
  purpose : Option (Option String) := none
  destination : Option (Option String) := none
  destinationRegionCode : Option (Option String) := none
  dateDepart : Option (Option Day) := none
  dateReturn : Option (Option Day) := none
  isWithin50km : Option Bool := none
  overnightStay : Option Bool := none
  fundSource : Option (Option FundSource) := none
  otherTotal : Option ℚ := none
deriving DecidableEq, Repr

def DraftEdit.applyTo (r : DraftEdit) (trip : Trip) : Trip :=
  { trip with
    activityId := r.activityId.getD trip.activityId
    dpoNo := r.dpoNo.getD trip.dpoNo
    dpoDate := r.dpoDate.getD trip.dpoDate
    purpose := r.purpose.getD trip.purpose
    destination := r.destination.getD trip.destination
    destinationRegionCode := r.destinationRegionCode.getD trip.destinationRegionCode
    dateDepart := r.dateDepart.getD trip.dateDepart
    dateReturn := r.dateReturn.getD trip.dateReturn
    isWithin50km := r.isWithin50km.getD trip.isWithin50km
    overnightStay := r.overnightStay.getD trip.overnightStay
    fundSource := r.fundSource.getD trip.fundSource
    otherTotal := (r.otherTotal.map toMoney).getD trip.otherTotal }

/-- An input of the computation differs. -/
def Trip.stale (before after : Trip) : Prop :=
  before.dateDepart ≠ after.dateDepart ∨ before.dateReturn ≠ after.dateReturn ∨
    before.destinationRegionCode ≠ after.destinationRegionCode ∨
    before.isWithin50km ≠ after.isWithin50km ∨ before.overnightStay ≠ after.overnightStay ∨
    before.otherTotal ≠ after.otherTotal

instance (before after : Trip) : Decidable (before.stale after) :=
  inferInstanceAs (Decidable (_ ∨ _ ∨ _ ∨ _ ∨ _ ∨ _))

def updateDraftFields (env : Env) (r : DraftEdit) (σ : Store) : Except Raised Store := do
  let claim ← ownedEditableClaim env σ r.claimId r.actorUserId
  refuse (∃ q ∈ r.otherTotal, toMoney q < 0) (.valueError "other_total cannot be negative")
  absent ((r.activityId.getD none).filter (· ∉ env.activities)) unknownActivity
  let trip := r.applyTo claim.trip
  refuse (∃ out ∈ trip.dateDepart, ∃ back ∈ trip.dateReturn, back < out) invalidTripDates
  return σ.setClaim r.claimId fun c => { c with
    trip := trip
    totals := if claim.trip.stale trip then none else c.totals }

/-! ## The itinerary -/

/-- `inputs.fare` is the amount after `to_money`. -/
structure LegIn where
  id : Option ℕ := none
  inputs : LegInputs
deriving DecidableEq, Repr

structure ReplaceLegs where
  claimId : ℕ
  actorUserId : ℕ
  legs : List LegIn
deriving DecidableEq, Repr

/-- Write the body in order: a row with an id updates that live leg, the others are inserted, and
every written row loses its computed columns. -/
def writeLegs (claimId : ℕ) (live : List ℕ) : List LegIn → ℤ → List Leg → Except Raised (List Leg)
  | [], _, legs => .ok legs
  | leg :: rest, pos, legs =>
      match leg.id with
      | none =>
          writeLegs claimId live rest (pos + 1)
            (legs ++ [{ claimId := claimId, seq := pos, inputs := leg.inputs }])
      | some id => do
          refuse (id ∉ live) (legUnknown id)
          writeLegs claimId live rest (pos + 1) (legs.modify id fun row => { row with
            seq := pos
            inputs := leg.inputs
            perDiemPct := none
            perDiemAmount := none
            legTotal := none })

def replaceLegs (env : Env) (r : ReplaceLegs) (σ : Store) : Except Raised Store := do
  let _ ← ownedEditableClaim env σ r.claimId r.actorUserId
  let live := (σ.claimLegs r.claimId).map (·.1)
  let kept := r.legs.filterMap (·.id)
  let legs ← writeLegs r.claimId live r.legs 1 σ.legs
  return {
    σ.setClaim r.claimId fun c => { c with totals := none } with
    legs := legs.mapIdx fun id leg =>
      if id ∈ live ∧ id ∉ kept then { leg with deleted := true } else leg }

/-! ## Evidence -/

/-- The claim's live row for a catalog row, revived or created on demand. -/
def materializeItem (items : List ChecklistItem) (existing : Option (ℕ × ChecklistItem))
    (claimId : ℕ) (row : CatalogRow) (status : ItemStatus → ItemStatus) : List ChecklistItem :=
  match existing with
  | some (id, _) => items.modify id fun i => { i with deleted := false, status := status i.status }
  | none => items ++ [{
      claimId := claimId
      catalogId := row.id
      status := status .missing
      circularVersion := row.circularVersion }]

/-- An upload onto a checklist item; the counts of `env` are those after it. -/
def attachEvidence (env : Env) (claimId catalogId actor : ℕ) (σ : Store) : Except Raised Store := do
  let claim ← ownedEditableClaim env σ claimId actor
  let row ← found ((activeCatalog env claim.kind).find? (·.id = catalogId))
    (unknownCatalogItem catalogId)
  refuse (¬ row.evidence.blocks) (evidenceNotUploadable row.code row.evidence)
  let σ := { σ with
    items := materializeItem σ.items (σ.item? claimId catalogId) claimId row id }
  return refreshChecklist env σ claimId claim env.utcNow

/-- A file removed from a checklist item; the counts of `env` are those after it. -/
def detachEvidence (env : Env) (claimId catalogId actor : ℕ) (σ : Store) : Except Raised Store := do
  let claim ← ownedEditableClaim env σ claimId actor
  refuse (¬ ∃ i ∈ σ.items, i.claimId = claimId ∧ i.catalogId = catalogId ∧ ¬ i.deleted)
    (unknownCatalogItem catalogId)
  return refreshChecklist env σ claimId claim env.utcNow

/-- The generator's write: the item of a generated document, flipped to `generated`. -/
def markGenerated (env : Env) (claimId : ℕ) (code : String) (σ : Store) : Except Raised Store := do
  let claim ← lockedClaim σ claimId
  let row ← found ((activeCatalog env claim.kind).find? (·.code = code)) (unknownCatalogCode code)
  refuse (row.evidence ≠ .generatedDoc) (documentNotGeneratable code row.evidence)
  let σ := { σ with
    items := materializeItem σ.items (σ.item? claimId row.id) claimId row fun _ => .generated }
  return refreshChecklist env σ claimId claim env.utcNow

/-! ## The money step -/

def recomputeTotals (env : Env) (claimId actor : ℕ) (σ : Store) : Except Raised Store := do
  let _ ← ownedEditableClaim env σ claimId actor
  computeClaimTotals env σ claimId

end OfficeConnect.Reimbursement
