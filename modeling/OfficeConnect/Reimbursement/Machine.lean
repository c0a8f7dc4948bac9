import OfficeConnect.Reimbursement.Drafts

/-!
# The module as a machine

Every call that writes the reimbursement tables, in one type.  A run is a list of calls by anyone,
each with the environment it finds, from the empty store; a call that raises is rolled back.
-/

namespace OfficeConnect.Reimbursement

open Lib Workflow

inductive Op where
  | createDraft (actor : ℕ) (kind : Kind) (now : Option Time)
  | editDraft (r : DraftEdit)
  | replaceLegs (r : ReplaceLegs)
  | recomputeTotals (claimId actor : ℕ)
  | attachEvidence (claimId catalogId actor : ℕ)
  | detachEvidence (claimId catalogId actor : ℕ)
  | markGenerated (claimId : ℕ) (code : String)
  | cancelDraft (r : CancelDraft)
  | submit (r : Submit)
  | act (r : ActionRequest)
  | createAdvance (r : CreateAdvance)
  | updateAdvance (r : UpdateAdvance)
  | markOverdue (advanceId : ℕ)
  | startLiquidation (r : StartLiquidation)
  | settle (r : Settle)
  | payout (r : Payout)
  | relay (r : Relay)
  | spawn (r : Spawn)
  | sweep (now : Time) (instanceId : ℕ) (picked : List ℕ)
  | remind (instanceId stepId level revisionNo : ℕ)

/-- A call and what it reads. -/
structure Call where
  env : Env
  op : Op

def Call.step (c : Call) (σ : Store) : Except Raised Store :=
  match c.op with
  | .createDraft actor kind now => Prod.snd <$> createDraftClaim c.env σ actor kind (c.env.at now)
  | .editDraft r => updateDraftFields c.env r σ
  | .replaceLegs r => replaceLegs c.env r σ
  | .recomputeTotals claimId actor => recomputeTotals c.env claimId actor σ
  | .attachEvidence claimId catalogId actor => attachEvidence c.env claimId catalogId actor σ
  | .detachEvidence claimId catalogId actor => detachEvidence c.env claimId catalogId actor σ
  | .markGenerated claimId code => markGenerated c.env claimId code σ
  | .cancelDraft r => cancelDraftClaim c.env r σ
  | .submit r => submitClaim c.env r σ
  | .act r => claimAction c.env r σ
  | .createAdvance r => createCashAdvance c.env r σ
  | .updateAdvance r => updateCashAdvance c.env r σ
  | .markOverdue advanceId => markOverdue advanceId σ
  | .startLiquidation r => startLiquidation c.env r σ
  | .settle r => recordSettlement c.env r σ
  | .payout r => recordPayout c.env r σ
  | .relay r => recordExternalEvent c.env r false σ
  | .spawn r => spawnReimbursement c.env r σ
  | .sweep now instanceId picked => .ok (σ.setInstance instanceId (sweepDueSteps now picked))
  | .remind instanceId stepId level revisionNo => .ok (σ.setInstance instanceId fun inst =>
      { inst with events := inst.events ++ [{
          eventType := .reminder
          stepId := some stepId
          escalationLevel := some level
          revisionNo := some revisionNo }] })

/-- The store a run of calls leads to. -/
def runStore (calls : List Call) : Store := run Call.step {} calls

/-! ## A small office -/

/-- One unit: user 1 travels, user 2 approves and certifies, user 3 reviews and relays FMS. -/
def office : Env where
  directory := {
    users := [
      { id := 1, staffId := some 1 }, { id := 2, staffId := none }, { id := 3, staffId := none }]
    staff := [{ id := 1, sectionId := some 1, divisionId := none }]
    orgUnits := [{ id := 1, parentOrgUnitId := none }]
    grants := [
      { userId := 2, permission := approvePerm, orgUnitId := some 1 },
      { userId := 2, permission := certifyPerm, orgUnitId := some 1 },
      { userId := 3, permission := reviewPerm, orgUnitId := some 1 },
      { userId := 3, permission := fmsPerm, orgUnitId := some 1 }]
    utcNow := 1767225600 }
  regions := [{ regionCode := "13", cluster := "I", effectiveFrom := 0 }]
  rates := [{ cluster := "I", dailyRate := 220000, effectiveFrom := 0 }]
  configs := [
    { key := apportionmentKey, effectiveFrom := 0
      value := some [("lodging", .int 50), ("meals", .int 30), ("incidentals", .int 20)] },
    { key := departureRateKey, effectiveFrom := 0, value := some [("pct", .int 50)] }]
  returnReasons := [{ id := 1 }]

/-- The calls of these operations, all in the office as it stands. -/
def inOffice (ops : List Op) : List Call := ops.map fun op => { env := office, op := op }

/-- The traveller fills claim `i` with a day in region 13. -/
def fillTrip (i : ℕ) : List Op := [
  .editDraft { claimId := i, actorUserId := 1, destinationRegionCode := some (some "13") },
  .replaceLegs {
    claimId := i, actorUserId := 1, legs := [{ inputs := { legDate := some 20454 } }] }]

/-- The traveller fills claim `i` and submits it. -/
def fileTrip (i : ℕ) : List Op := fillTrip i ++ [.submit { claimId := i, actorUserId := 1 }]

/-- The first approver's signature on claim `i`, under a key of their own. -/
def firstSignature (i : ℕ) : ActionRequest :=
  { claimId := i, action := .approve, actorUserId := 2, idempotencyKey := some "k1" }

/-- Both gates of claim `i` sign it on to FMS. -/
def signTrip (i : ℕ) : List Op := [
  .act { claimId := i, action := .approve, actorUserId := 2 },
  .act { claimId := i, action := .approve, actorUserId := 3, comment := some "signed" }]

/-- An advance of `amount` pesos, and claim 0 submitted to liquidate it. -/
def submitTrip (amount : ℚ) : List Op := [
  .createAdvance { claimantId := 1, amount := amount },
  .startLiquidation { cashAdvanceId := 0, actorUserId := 1 }] ++ fileTrip 0

/-- An advance of `amount` pesos, liquidated by claim 0 up to FMS. -/
def liquidateTrip (amount : ℚ) : List Op := submitTrip amount ++ signTrip 0

/-- An advance of `amount` pesos, liquidated and settled by claim 0. -/
def settleTrip (amount : ℚ) : List Op :=
  liquidateTrip amount ++ [.settle { claimId := 0, actorUserId := 3 }]

end OfficeConnect.Reimbursement
