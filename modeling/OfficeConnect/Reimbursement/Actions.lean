import OfficeConnect.Reimbursement.Api

/-!
# The verbs on offer

What a screen may show an actor for a claim: the engine's own offer, less an approval whose packet
is incomplete, with the approval out of FMS under the name of the route that records the money, and
the two verbs that are no transitions.
-/

namespace OfficeConnect.Reimbursement.Actions

open Lib Workflow

inductive Verb where
  | act (action : Action)
  | settle
  | markPaid
  | relayFms
  | spawn
deriving DecidableEq, Repr

def terminalVerb : Kind → Verb
  | .liquidation => .settle
  | .reimbursement => .markPaid

def persistedPacketComplete (env : Env) (σ : Store) (claimId : ℕ) : Bool :=
  (assertPersistedPacketComplete env σ claimId).toOption.isSome

def canRelay (env : Env) (σ : Store) (claim : Claim) (actor : ℕ) : Bool :=
  claim.status = .handedToFms ∧ ∃ inst ∈ claim.workflowInstanceId.bind fun id => σ.instances[id]?,
    inst.orgUnitId ≠ none ∧ env.directory.authorizeScoped actor fmsPerm inst.orgUnitId = true

def canSpawn (env : Env) (σ : Store) (claimId : ℕ) (claim : Claim) (actor : ℕ) : Bool :=
  claim.kind = .liquidation ∧ claim.status = .settled ∧ isClaimOwner env claim actor ∧
    (∃ a ∈ claim.cashAdvanceId.bind fun id => σ.advances[id]?,
      a.settlementMode = some .overAdvance) ∧
    spawnForLiquidation σ claimId = none

/-- The engine's offer under the names of the routes. -/
def renamed (env : Env) (σ : Store) (claimId : ℕ) (claim : Claim) (offered : List Action) :
    List Verb :=
  let verbs := if persistedPacketComplete env σ claimId then offered
    else offered.filter (· ≠ .approve)
  verbs.map fun action =>
    if action = .approve ∧ claim.status = .handedToFms then terminalVerb claim.kind
    else .act action

def claimActions (env : Env) (σ : Store) (claimId : ℕ) (claim : Claim) (actor : ℕ)
    (now : Option Time := none) : Except Raised (List Verb) :=
  match claim.workflowInstanceId with
  | none =>
      if claim.status = .draft ∧ isClaimOwner env claim actor then
        .ok [.act .submit, .act .cancel]
      else .ok []
  | some instanceId => do
      let inst ← found σ.instances[instanceId]? instanceNotFound
      let v ← found (version? inst.definitionVersionId) .attributeError
      let offered := availableActions env.directory v.toVersion inst actor now
      return renamed env σ claimId claim offered ++
        (if canRelay env σ claim actor then [.relayFms] else []) ++
        (if canSpawn env σ claimId claim actor then [.spawn] else [])

end OfficeConnect.Reimbursement.Actions
