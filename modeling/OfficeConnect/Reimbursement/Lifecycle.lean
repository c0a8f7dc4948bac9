import OfficeConnect.Lib.Keys
import OfficeConnect.Reimbursement.Checklist
import OfficeConnect.Workflow.Machine

/-!
# The claim lifecycle

The only path onto the workflow engine.  Every call runs the engine and mirrors its event onto the
claim (status, holder, next action, a history row) in one transaction, so a call that raises leaves
the store as it was.
-/

namespace OfficeConnect.Reimbursement

open Lib Workflow
open Ingest (strip)

/-! ## Errors -/

def claimAlreadySubmitted : Raised :=
  .api 409 "reimb_claim_already_submitted" "This claim is already in the approval workflow."

def claimantNoOrgUnit : Raised :=
  .api 422 "reimb_claimant_no_org_unit"
    ("The claimant's staff record has no division/section — scoped " ++
      "approvers cannot be resolved. Fix the directory record first.")

def noEligibleHolder (code : Status) : Raised :=
  .api 422 "reimb_no_eligible_holder"
    (s!"No approver holds the '{code}' gate's permission for this " ++
      "claim's org unit — assign the scoped role before routing work here.")

def notClaimOwner : Raised :=
  .api 403 "reimb_not_claim_owner"
    "Only the claimant may do this (on-behalf filing is not enabled)."

def claimNotInWorkflow : Raised :=
  .api 409 "reimb_claim_not_in_workflow"
    "This claim has not been submitted — there is no workflow to act on."

def returnReasonRequired : Raised :=
  .api 422 "reimb_return_reason_required" "Select at least one reason for returning this claim."

def unknownReturnReason (ids : List ℕ) : Raised :=
  .api 422 "reimb_unknown_return_reason"
    ("Return reason id(s) " ++ ", ".intercalate (ids.map toString) ++
      " are not in the active return-reason taxonomy — pick from the published catalog.")

def unsupportedClaimAction (action : Action) : Raised :=
  .api 422 "reimb_unsupported_claim_action"
    (s!"'{action}' is not a claim action (submit via submit_claim; " ++
      "approve/return/resubmit/cancel via claim_action).")

def noStaffLink : Raised :=
  .api 422 "reimb_no_staff_link"
    ("Your login is not linked to a staff record — claims are filed " ++
      "against the directory. Ask an administrator to link your account.")

def claimCancelled : Raised :=
  .api 409 "reimb_claim_cancelled"
    ("This claim was cancelled — cancelled claims cannot be revived. " ++
      "Start a new claim instead.")

def settlementRequired : Raised :=
  .api 409 "reimb_settlement_required"
    ("Record the settlement before closing this liquidation — the refund " ++
      "receipt or the amount still due has to be on the cash advance first.")

def liquidationWithoutAdvance : Raised :=
  .api 409 "reimb_liquidation_without_advance"
    "This liquidation is not linked to a cash advance, so there is nothing to settle."

def spawnBelowAdvance : Raised :=
  .api 422 "reimb_spawn_below_advance"
    ("This claim now totals less than the cash advance it nets, so nothing " ++
      "is due to you. Check the itinerary and the other expenses.")

def payoutRequired : Raised :=
  .api 409 "reimb_payout_required"
    ("Record the payment reference before closing this claim — 'Paid' is " ++
      "the one status that has to say what it was paid against.")

/-! ## Who may act -/

/-- The claimant's live login. -/
def ownerUser (env : Env) (claimantId : ℕ) : Option User :=
  env.directory.users.find? fun u => u.staffId = some claimantId ∧ u.isActive

def isClaimOwner (env : Env) (claim : Claim) (actor : ℕ) : Bool :=
  (env.directory.user? actor).any fun u => u.staffId = some claim.claimantId

/-- The claimant's section, else their division. -/
def staffUnit (env : Env) (staffId : ℕ) : Option ℕ :=
  (env.directory.staff? staffId).bind fun s => orId s.sectionId s.divisionId

/-- The instance's unit once submitted, else the claimant's. -/
def claimUnit (env : Env) (σ : Store) (claim : Claim) : Option ℕ :=
  match (claim.workflowInstanceId.bind fun id => σ.instances[id]?).bind (·.orgUnitId) with
  | some unit => some unit
  | none => staffUnit env claim.claimantId

def oversightPerms : List String := [reviewPerm, fmsPerm, approvePerm]

def maySeeClaim (env : Env) (σ : Store) (claim : Claim) (actor : ℕ) : Bool :=
  isClaimOwner env claim actor ||
    match claimUnit env σ claim with
    | none => false
    | some unit =>
        oversightPerms.any fun perm => env.directory.authorizeScoped actor perm (some unit)

/-! ## Guards -/

def assertAdvanceSettled (σ : Store) (claim : Claim) : Except Raised Unit := do
  let advanceId ← found claim.cashAdvanceId liquidationWithoutAdvance
  refuse (¬ ∃ a ∈ σ.advances[advanceId]?, a.status = .settled) settlementRequired

def assertPayoutRecorded (claim : Claim) : Except Raised Unit :=
  refuse (strip (claim.payoutRef.getD "") = "") payoutRequired

def assertReturnReasons (env : Env) (reasonIds : List ℕ) : Except Raised Unit := do
  refuse (reasonIds = []) returnReasonRequired
  let unknown := reasonIds.eraseDups.filter fun id =>
    ¬ ∃ r ∈ env.returnReasons, r.id = id ∧ r.isActive
  refuse (unknown ≠ []) (unknownReturnReason unknown)

/-! ## The holder -/

/-- The rank of the unit in the ancestry; the last one where it repeats. -/
def proximity (ancestry : List ℕ) (unit : ℕ) : ℕ :=
  ancestry.length - 1 - ancestry.reverse.idxOf unit

/-- The scoped holders of the gate's permission with the distance of their grant, originator
excluded under segregation. -/
def holderCandidates (env : Env) (inst : Instance) (state : State Status) : List (ℕ × ℕ) :=
  let ancestry := env.directory.ancestorsOrSelf inst.orgUnitId
  match state.requiredPermission with
  | none => []
  | some perm =>
      (env.directory.permissionHolders perm inst.orgUnitId).filterMap fun (user, unit) =>
        unit.bind fun unit =>
          if unit ∈ ancestry ∧ ¬ (state.enforceSegregation ∧ inst.originatorUserId = some user)
          then some (proximity ancestry unit, user) else none

def resolveHolder (env : Env) (claim : Claim) (inst : Instance) (state : State Status) :
    Except Raised (Option HolderKind × Option ℕ) :=
  let vocab := vocabulary claim.kind
  if state.kind = .terminal then .ok (none, none)
  else if state.code ∈ vocab.claimant then
    .ok (some .user, ((ownerUser env claim.claimantId).map (·.id)).or inst.originatorUserId)
  else if state.code ∈ vocab.external then .ok (some .externalFms, none)
  else
    match (holderCandidates env inst state).insertionSort
        fun a b => a.1 < b.1 ∨ a.1 = b.1 ∧ a.2 ≤ b.2 with
    | [] => .error (noEligibleHolder state.code)
    | (_, user) :: _ => .ok (some .user, some user)

/-! ## The read-model -/

/-- The row of the state an event led to. -/
def eventState (event : Event) : Except Raised (State Status) :=
  found (event.toStateId.bind state?) .attributeError

/-- The claim as it stands in a state. -/
def Claim.mirror (dest : State Status) (holder : Option HolderKind × Option ℕ) (now : Time)
    (c : Claim) : Claim :=
  { c with
    status := dest.code
    holderKind := holder.1
    holderId := holder.2
    holderSince := if holder.1 = none then none else some now
    nextAction := (vocabulary c.kind).nextAction? dest.code }

def mirrorRow (claimId : ℕ) (claim : Claim) (dest : State Status) (event : Event) : StatusHistory :=
  { claimId := claimId
    fromStatus := some claim.status
    toStatus := dest.code
    actorId := event.actorUserId
    note := event.comment }

/-- Mirror an engine event onto the claim; an event that leads to the claim's own status changes
nothing. -/
def syncClaimFromEvent (env : Env) (σ : Store) (claimId : ℕ) (event : Event) (now : Time) :
    Except Raised Store := do
  let claim ← lockedClaim σ claimId
  let dest ← eventState event
  if dest.code = claim.status then return σ
  else
    let inst ← found (claim.workflowInstanceId.bind fun id => σ.instances[id]?) .attributeError
    let holder ← resolveHolder env claim inst dest
    flushClaims {
      σ.setClaim claimId (Claim.mirror dest holder now) with
      history := σ.history ++ [mirrorRow claimId claim dest event] }

def slaKey : String := "sla.approval_working_days"

/-- The end of the Manila working day, the configured number of working days from now. -/
def slaDue (env : Env) (now : Time) : Time :=
  let today := manilaDate now
  let days := configInt env.configs slaKey "working_days" 3 today
  let nonworking := loadNonworkingDates env.holidays today (today + days * 4 + 14)
  manilaInstant (addWorkingDays today days nonworking) 17

/-- The due date on the freshly activated rows of a gate held inside the bureau. -/
def stamped (kind : Kind) (state : State Status) (due : Time) (inst : Instance) : Instance :=
  if ¬ state.isApprovalGate ∨ state.code ∈ (vocabulary kind).external then inst
  else Workflow.stampSla state.id due inst

def stampSla (env : Env) (σ : Store) (kind : Kind) (instanceId : ℕ) (event : Event) (now : Time) :
    Except Raised Store := do
  let state ← eventState event
  return σ.setInstance instanceId (stamped kind state (slaDue env now))

/-! ## Drafts -/

def joCosStatuses : List String := ["job_order", "contract_of_service"]

def draftClaim (kind : Kind) (staff : Staff) (actor : ℕ) (now : Time) : Claim :=
  { kind := kind
    claimantId := staff.id
    isJoCos := staff.employmentStatus ∈ joCosStatuses
    status := .draft
    holderKind := some .user
    holderId := some actor
    holderSince := some now
    nextAction := (vocabulary kind).nextAction? .draft }

/-- The id of the new claim and the store with it. -/
def createDraftClaim (env : Env) (σ : Store) (actor : ℕ) (kind : Kind) (now : Time) :
    Except Raised (ℕ × Store) := do
  let staff ← found (((env.directory.user? actor).bind (·.staffId)).bind env.directory.staff?)
    noStaffLink
  return (σ.claims.length, { σ with
    claims := σ.claims ++ [draftClaim kind staff actor now]
    history := σ.history ++ [{
      claimId := σ.claims.length
      fromStatus := none
      toStatus := .draft
      actorId := some actor }] })

structure CancelDraft where
  claimId : ℕ
  actorUserId : ℕ
  comment : String
deriving DecidableEq, Repr

def cancelDraftClaim (env : Env) (r : CancelDraft) (σ : Store) : Except Raised Store := do
  let claim ← lockedClaim σ r.claimId
  refuse (¬ isClaimOwner env claim r.actorUserId) notClaimOwner
  refuse (claim.workflowInstanceId ≠ none) claimAlreadySubmitted
  refuse (r.comment = "") commentRequired
  refuse (claim.status = .cancelled) claimCancelled
  flushClaims {
    σ.setClaim r.claimId fun c => { c with
      status := .cancelled
      holderKind := none
      holderId := none
      holderSince := none
      nextAction := none } with
    history := σ.history ++ [{
      claimId := r.claimId
      fromStatus := some claim.status
      toStatus := .cancelled
      actorId := some r.actorUserId
      note := some r.comment }] }

/-! ## Submitting -/

def refScope : Kind → String
  | .reimbursement => "RB"
  | .liquidation => "LQ"

/-- The next number of the series, its counter row created on demand. -/
def allocateReferenceNumber (sequences : List ReferenceSequence) (scope : String) (year : ℤ) :
    String × List ReferenceSequence :=
  let row := fun (s : ReferenceSequence) => s.scope = scope ∧ s.year = year
  let last := ((sequences.find? fun s => row s).map (·.lastValue)).getD 0
  (scope ++ "-" ++ padded 4 year ++ "-" ++ padded 4 (last + 1),
    if sequences.any fun s => row s then
      sequences.map fun s => if row s then { s with lastValue := s.lastValue + 1 } else s
    else sequences ++ [{ scope := scope, year := year, lastValue := 1 }])

structure Submit where
  claimId : ℕ
  actorUserId : ℕ
  idempotencyKey : Option String := none
  now : Option Time := none
deriving DecidableEq, Repr

def submitKey (claimId revisionNo : ℕ) : String :=
  joinColon ["submit", toString claimId, toString revisionNo]

/-- The checks before any money is computed: the unit the claim will be routed in. -/
def submittable (env : Env) (claim : Claim) (actor : ℕ) : Except Raised ℕ := do
  refuse (¬ isClaimOwner env claim actor) notClaimOwner
  refuse (claim.workflowInstanceId ≠ none) claimAlreadySubmitted
  refuse (claim.status = .cancelled) claimCancelled
  found (staffUnit env claim.claimantId) claimantNoOrgUnit

/-- Totals and packet of a claim about to enter the workflow. -/
def preparePacket (env : Env) (σ : Store) (claimId : ℕ) (now : Time) :
    Except Raised (Claim × Store) := do
  let σ ← computeClaimTotals env σ claimId
  let claim ← lockedClaim σ claimId
  refuse (claim.kind = .reimbursement ∧ claim.cashAdvanceId ≠ none ∧
    ∃ t ∈ claim.totals, 0 < t.toRefund) spawnBelowAdvance
  let σ ← assertPacketComplete env σ claimId now
  return (claim, σ)

/-- Write the new instance and the claim's link and number. -/
def enterWorkflow (σ : Store) (claimId : ℕ) (claim : Claim) (inst : Instance) (now : Time) :
    Except Raised Store :=
  let (refNo, sequences) := match claim.refNo with
    | some refNo => (refNo, σ.sequences)
    | none => allocateReferenceNumber σ.sequences (refScope claim.kind) (year (manilaDate now))
  flushClaims {
    σ.setClaim claimId fun c => { c with
      refNo := some refNo
      workflowInstanceId := some σ.instances.length } with
    instances := σ.instances ++ [inst]
    sequences := sequences }

/-- Run the engine on an instance and mirror the event. -/
def performAction (env : Env) (σ : Store) (claimId instanceId : ℕ) (r : Request)
    (record : Event → Instance → Except Raised (List ReturnEvent)) : Except Raised Store := do
  let now := env.at r.now
  let claim ← lockedClaim σ claimId
  let inst ← found σ.instances[instanceId]? instanceNotFound
  let v ← found (version? inst.definitionVersionId) .attributeError
  let (event, inst') ← executeAction env.directory v.toVersion inst r
  let returns ← record event inst'
  let σ := { σ.setInstance instanceId fun _ => inst' with
    returnEvents := σ.returnEvents ++ returns }
  let σ ← syncClaimFromEvent env σ claimId event now
  stampSla env σ claim.kind instanceId event now

def submitClaim (env : Env) (r : Submit) (σ : Store) : Except Raised Store := do
  let now := env.at r.now
  let claim ← lockedClaim σ r.claimId
  let unit ← submittable env claim r.actorUserId
  let (claim, σ) ← preparePacket env σ r.claimId now
  let inst ← startInstance env.enabled (definitionCode claim.kind)
    (some (chain claim.kind).toVersion)
    { actorUserId := some r.actorUserId
      orgUnitId := some unit
      amount := claim.totals.map (·.grand) } now
  let instanceId := σ.instances.length
  let σ ← enterWorkflow σ r.claimId claim inst now
  performAction env σ r.claimId instanceId
    { action := .submit
      actorUserId := r.actorUserId
      idempotencyKey := orText r.idempotencyKey (some (submitKey r.claimId inst.revisionNo))
      now := some now }
    fun _ _ => .ok []

/-! ## Acting on a submitted claim -/

structure ActionRequest where
  claimId : ℕ
  action : Action
  actorUserId : ℕ
  comment : Option String := none
  reasonIds : List ℕ := []
  idempotencyKey : Option String := none
  expectedVersion : Option ℕ := none
  now : Option Time := none
deriving DecidableEq, Repr

def claimActions : List Action := [.approve, .return, .resubmit, .cancel]

/-- A return names its reasons; resubmit and cancel are the owner's, or a reviewer's. -/
def actionAllowed (env : Env) (claim : Claim) (inst : Instance) (r : ActionRequest) :
    Except Raised Unit :=
  match r.action with
  | .return => assertReturnReasons env r.reasonIds
  | .resubmit | .cancel =>
      refuse (¬ (isClaimOwner env claim r.actorUserId ∨
        env.directory.authorizeScoped r.actorUserId reviewPerm inst.orgUnitId)) notClaimOwner
  | _ => .ok ()

/-- Fresh money and a fresh packet before a resubmission is routed. -/
def refreshForResubmit (env : Env) (σ : Store) (claimId instanceId : ℕ) (now : Time) :
    Except Raised Store := do
  let σ ← computeClaimTotals env σ claimId
  let σ ← assertPacketComplete env σ claimId now
  let claim ← lockedClaim σ claimId
  return σ.setInstance instanceId fun inst =>
    { inst with amount := claim.totals.map (·.grand) }

/-- An approval needs a complete packet and, out of `handed_to_fms`, the money on record. -/
def approveAllowed (env : Env) (σ : Store) (claimId : ℕ) (claim : Claim) : Except Raised Unit := do
  assertPersistedPacketComplete env σ claimId
  if claim.status = .handedToFms then
    match claim.kind with
    | .liquidation => assertAdvanceSettled σ claim
    | .reimbursement => assertPayoutRecorded claim
  else return ()

/-- What a verb prepares before the engine is called. -/
def prepareAction (env : Env) (σ : Store) (claim : Claim) (instanceId : ℕ) (r : ActionRequest) :
    Except Raised Store :=
  match r.action with
  | .resubmit => refreshForResubmit env σ r.claimId instanceId (env.at r.now)
  | .approve => do
      approveAllowed env σ r.claimId claim
      return σ
  | _ => .ok σ

def actionKey (action : Action) (claimId revisionNo stateId actor : ℕ) : String :=
  joinColon [toString action, toString claimId, toString revisionNo, toString stateId,
    toString actor]

/-- The caller's key, or the default built from where the instance stands. -/
def ActionRequest.key (r : ActionRequest) (inst : Instance) : Option String :=
  orText r.idempotencyKey
    (some (actionKey r.action r.claimId inst.revisionNo inst.currentStateId r.actorUserId))

/-- The learning-loop row of a return that is not a replay. -/
def returnRecord (r : ActionRequest) (replayed : Bool) (event : Event) (inst : Instance) :
    Except Raised (List ReturnEvent) :=
  if r.action = .return ∧ ¬ replayed then do
    let toState ← eventState event
    return [{
      claimId := r.claimId
      stepId := inst.steps.findIdx? fun s =>
        some s.stateId = event.fromStateId ∧ some s.revisionNo = event.revisionNo ∧
          s.status = .returned
      reasonIds := r.reasonIds
      freeComment := r.comment
      returnedTo := if toState.code = .returned then .claimant else .previousStep }]
  else .ok []

def claimAction (env : Env) (r : ActionRequest) (σ : Store) : Except Raised Store := do
  refuse (r.action ∉ claimActions) (unsupportedClaimAction r.action)
  let claim ← lockedClaim σ r.claimId
  refuse (¬ maySeeClaim env σ claim r.actorUserId) notClaimOwner
  let instanceId ← found claim.workflowInstanceId claimNotInWorkflow
  let inst ← found σ.instances[instanceId]? .attributeError
  actionAllowed env claim inst r
  let σ ← prepareAction env σ claim instanceId r
  let key := r.key inst
  let replayed := inst.events.any (·.idempotencyKey = key)
  performAction env σ r.claimId instanceId
    { action := r.action
      actorUserId := r.actorUserId
      comment := r.comment
      idempotencyKey := key
      expectedVersion := r.expectedVersion
      now := some (env.at r.now) }
    (returnRecord r replayed)

end OfficeConnect.Reimbursement
