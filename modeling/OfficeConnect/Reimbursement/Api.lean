import OfficeConnect.Reimbursement.Settlement

/-!
# The claim routes

What a route adds to the service it calls: the claim it reads first, and the service it picks or
the permission it asks for on what it read.
-/

namespace OfficeConnect.Reimbursement.Api

open Lib

def getClaim (σ : Store) (claimId : ℕ) : Except Raised Claim :=
  found σ.claims[claimId]? claimNotFound

/-! ## Submitting and cancelling -/

/-- `POST /claims/{id}/submit`: a returned claim is resubmitted, any other submitted. -/
def submitClaim (env : Env) (claimId actor : ℕ) (σ : Store) : Except Raised Store := do
  let claim ← getClaim σ claimId
  if claim.status = .returned then
    claimAction env { claimId := claimId, action := .resubmit, actorUserId := actor } σ
  else Reimbursement.submitClaim env { claimId := claimId, actorUserId := actor } σ

/-- `POST /claims/{id}/cancel`. -/
def cancelClaim (env : Env) (claimId actor : ℕ) (comment : String) (σ : Store) :
    Except Raised Store :=
  cancelDraftClaim env { claimId := claimId, actorUserId := actor, comment := comment } σ

/-! ## Closing -/

def externalUpdateNotPermitted : Raised :=
  .api 403 "reimb_external_update_not_permitted"
    ("Relaying FMS updates and recording payments is the Admin Officer's job. " ++
      "You can follow this claim's progress on its tracker.")

/-- The claimant's section, else their division, deleted staff included. -/
def displayUnit (env : Env) (staffId : ℕ) : Option ℕ :=
  (env.directory.staff.find? (·.id = staffId)).bind fun s => orId s.sectionId s.divisionId

/-- The instance's unit once submitted, else the claimant's. -/
def claimOrgUnit (env : Env) (σ : Store) (claim : Claim) : Option ℕ :=
  match claim.workflowInstanceId.bind fun id => σ.instances[id]? with
  | some inst => inst.orgUnitId
  | none => displayUnit env claim.claimantId

def hasScopedGrant (env : Env) (σ : Store) (claim : Claim) (actor : ℕ) (permissions : List String) :
    Bool :=
  match claimOrgUnit env σ claim with
  | none => false
  | some unit => permissions.any fun perm => env.directory.authorizeScoped actor perm (some unit)

def managePerm : String := "reimb.cash_advance.manage"

def canManageCashAdvances (env : Env) (actor claimantId : ℕ) : Bool :=
  match displayUnit env claimantId with
  | none => false
  | some unit => env.directory.authorizeScoped actor managePerm (some unit)

/-- `POST /claims/{id}/mark-paid`. -/
def markClaimPaid (env : Env) (r : Payout) (σ : Store) : Except Raised Store := do
  let claim ← getClaim σ r.claimId
  refuse (¬ hasScopedGrant env σ claim r.actorUserId [fmsPerm]) externalUpdateNotPermitted
  recordPayout env r σ

/-- `POST /claims/{id}/settle`. -/
def settleClaim (env : Env) (r : Settle) (σ : Store) : Except Raised Store := do
  let claim ← getClaim σ r.claimId
  refuse (¬ canManageCashAdvances env r.actorUserId claim.claimantId) notClaimOwner
  recordSettlement env r σ

end OfficeConnect.Reimbursement.Api
