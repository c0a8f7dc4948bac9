import OfficeConnect.Reimbursement.Advances

/-!
# The money before the terminal

A liquidation closes by a settlement recorded on its advance, a reimbursement by the payment
reference FMS gave.  Each is recorded and the claim's `approve` is driven in one transaction.  An
over-advance leaves a difference the traveller claims by a spawned reimbursement.
-/

namespace OfficeConnect.Reimbursement

open Lib Workflow
open Ingest (strip)

/-! ## Errors -/

def notALiquidation : Raised :=
  .api 422 "reimb_not_a_liquidation"
    ("Only a liquidation is settled against a cash advance — a reimbursement " ++
      "claim is paid, not settled.")

def settlementWrongState (status : Status) : Raised :=
  .api 409 "reimb_settlement_wrong_state"
    ("A liquidation is settled once FMS has processed it; this one is " ++
      s!"'{status}'. Walk the certifications first.")

def settlementAlreadyRecorded (orNo : Option String) (settledAt : Option Day) : Raised :=
  let date := match settledAt with
    | none => ""
    | some d => " on " ++ isoDate d
  let which := match orNo with
    | none | some "" => ""
    | some no => " (OR " ++ no ++ ")"
  .api 409 "reimb_settlement_already_recorded"
    ("This cash advance was already settled" ++ date ++ which ++ ". A settled advance " ++
      "is a closed record.")

def settlementTotalsMissing : Raised :=
  .api 422 "reimb_settlement_totals_missing"
    ("This liquidation's amounts have not been worked out, so there is no " ++
      "settlement figure to record. Recompute the claim first.")

def refundReceiptRequired (amount : String) : Raised :=
  .api 422 "reimb_refund_receipt_required"
    (s!"₱{amount} is refundable, so the DOH official receipt number and date " ++
      "are required — the receipt is the only proof the money came back.")

def refundReceiptNotApplicable : Raised :=
  .api 422 "reimb_refund_receipt_not_applicable"
    ("Nothing is refundable on this liquidation, so there is no official " ++
      "receipt to record.")

def refundAmountMismatch (expected given : String) : Raised :=
  .api 422 "reimb_refund_amount_mismatch"
    (s!"The refund on this liquidation is ₱{expected}, not ₱{given} — your " ++
      "screen is out of date. Reload and record it again.")

def spawnNotOverAdvance (mode : Option SettlementMode) : Raised :=
  let which := match mode with
    | some m => "settled as '" ++ m.text ++ "'"
    | none => "has not been settled yet"
  .api 409 "reimb_spawn_not_over_advance"
    ("A reimbursement is only claimed when the actual expenses exceeded the " ++
      s!"advance; this liquidation {which}.")

def spawnExists (existing : Option (ℕ × Option String)) : Raised :=
  .api 409 "reimb_spawn_exists" <|
    match existing with
    | none => "This liquidation already has its reimbursement claim. Reload to open it."
    | some (id, refNo) =>
        let which := match refNo with
          | none | some "" => ""
          | some no => no ++ " "
        s!"This liquidation already has its reimbursement claim ({which}#{id}). " ++
          "Open that one instead of starting another."

def externalStatusIsTerminal : Raised :=
  .api 422 "reimb_external_status_is_terminal"
    ("'Paid' closes the claim rather than updating it, so it is recorded " ++
      "with the payment reference FMS gave you — use Mark paid, not the " ++
      "status update.")

def externalEventWrongState (status : String) : Raised :=
  .api 409 "reimb_external_event_wrong_state"
    ("FMS statuses can only be relayed while FMS has the packet; this " ++
      s!"claim is '{status}'.")

def externalEventFutureDate : Raised :=
  .api 422 "reimb_external_event_future_date"
    ("That date is in the future — record the date FMS actually moved it, " ++
      "not a date it is expected to.")

def payoutRefRequired : Raised :=
  .api 422 "reimb_payout_ref_required"
    ("Record the payment reference FMS gave you — closing a claim is final " ++
      "and nothing can add it afterwards. If you do not have it yet, relay " ++
      "'Payment processing' instead.")

def payoutDateRequired : Raised :=
  .api 422 "reimb_payout_date_required" "Record the date FMS paid this claim."

def payoutAlreadyRecorded (payoutRef : String) (paidOn : Option Day) : Raised :=
  let date := match paidOn with
    | none => ""
    | some d => " on " ++ isoDate d
  let which := if payoutRef = "" then "" else " (" ++ payoutRef ++ ")"
  .api 409 "reimb_payout_already_recorded"
    ("This claim was already paid" ++ date ++ which ++ ". A paid claim is a closed record.")

def payoutWrongState (status : String) : Raised :=
  .api 409 "reimb_payout_wrong_state"
    ("A claim is marked paid once FMS has processed it; this one is " ++ s!"'{status}'.")

def payoutNotAReimbursement : Raised :=
  .api 422 "reimb_payout_not_a_reimbursement"
    ("A liquidation is settled against its cash advance rather than paid out " ++
      "— record the settlement instead.")

/-! ## Recording a settlement -/

/-- The branch the money took, read from the snapshot. -/
def settlementMode (totals : Totals) : SettlementMode :=
  if 0 < totals.toRefund then .refund
  else if 0 < totals.toReimburse then .overAdvance
  else .exactMatch

structure Settle where
  claimId : ℕ
  actorUserId : ℕ
  orNo : Option String := none
  orDate : Option Day := none
  refundAmount : Option ℚ := none
  comment : Option String := none
  expectedVersion : Option ℕ := none
  now : Option Time := none
deriving DecidableEq, Repr

/-- The receipt matches the branch, and an echoed refund matches the computed one. -/
def validateReceipt (mode : SettlementMode) (toRefund : ℤ) (r : Settle) : Except Raised Unit := do
  if mode = .refund then
    refuse (blank r.orNo ∨ r.orDate = none) (refundReceiptRequired (moneyStr toRefund))
  else
    refuse (¬ blank r.orNo ∨ r.orDate ≠ none) refundReceiptNotApplicable
  let expected := if mode = .refund then toRefund else 0
  absent (r.refundAmount.filter fun given => toMoney given ≠ expected) fun given =>
    refundAmountMismatch (moneyStr expected) (moneyStr (toMoney given))

/-- Close the advance and record how it closed. -/
def CashAdvance.markSettled (a : CashAdvance) (actor : ℕ) (mode : SettlementMode) (toRefund : ℤ)
    (r : Settle) (now : Time) : CashAdvance :=
  { a with
    status := .settled
    settledAt := some now
    settledBy := some actor
    settlementMode := some mode
    refundAmount := if mode = .refund then some toRefund else none
    refundOrNo := if mode = .refund then r.orNo else none
    refundOrDate := if mode = .refund then r.orDate else none }

/-- Everything a settlement checks before it writes: the advance and the snapshot it reads. -/
def settleable (r : Settle) (σ : Store) : Except Raised (ℕ × Totals) := do
  let claim ← lockedClaim σ r.claimId
  refuse (claim.kind ≠ .liquidation) notALiquidation
  let advanceId ← found claim.cashAdvanceId liquidationWithoutAdvance
  let advance ← found σ.advances[advanceId]? cashAdvanceNotFound
  refuse (advance.status = .settled)
    (settlementAlreadyRecorded advance.refundOrNo (advance.settledAt.map (· / 86400)))
  refuse (claim.status ≠ .handedToFms) (settlementWrongState claim.status)
  let totals ← found claim.totals settlementTotalsMissing
  validateReceipt (settlementMode totals) totals.toRefund r
  return (advanceId, totals)

def recordSettlement (env : Env) (r : Settle) (σ : Store) : Except Raised Store := do
  let now := env.at r.now
  let (advanceId, totals) ← settleable r σ
  let σ := σ.setAdvance advanceId fun a =>
    a.markSettled r.actorUserId (settlementMode totals) totals.toRefund r now
  claimAction env
    { claimId := r.claimId
      action := .approve
      actorUserId := r.actorUserId
      comment := r.comment
      expectedVersion := r.expectedVersion
      now := some now } σ

/-! ## The spawn -/

/-- The live claim spawned from a liquidation. -/
def spawnForLiquidation (σ : Store) (liquidationId : ℕ) : Option (ℕ × Claim) :=
  (σ.claims.zipIdx.map Prod.swap).find? fun c =>
    c.2.spawnedFromClaimId = some liquidationId ∧
      c.2.status ∈ reimbursementVocabulary.allStates ∧ c.2.status ≠ .cancelled

structure Spawn where
  liquidationClaimId : ℕ
  actorUserId : ℕ
  now : Option Time := none
deriving DecidableEq, Repr

/-- The source liquidation and its advance.  Nothing here reads the source's status. -/
def spawnable (env : Env) (r : Spawn) (σ : Store) : Except Raised (Claim × ℕ) := do
  let source ← lockedClaim σ r.liquidationClaimId
  refuse (source.kind ≠ .liquidation) notALiquidation
  let actor ← found (env.directory.user? r.actorUserId) notAdvanceHolder
  refuse (actor.staffId ≠ some source.claimantId) notAdvanceHolder
  let advanceId ← found source.cashAdvanceId liquidationWithoutAdvance
  let advance ← found σ.advances[advanceId]? liquidationWithoutAdvance
  refuse (advance.settlementMode ≠ some .overAdvance) (spawnNotOverAdvance advance.settlementMode)
  absent (spawnForLiquidation σ r.liquidationClaimId) fun c => spawnExists (some (c.1, c.2.refNo))
  return (source, advanceId)

def spawnReimbursement (env : Env) (r : Spawn) (σ : Store) : Except Raised Store := do
  let (source, advanceId) ← spawnable env r σ
  let legs := (σ.claimLegs r.liquidationClaimId).zipIdx 1
  let (claimId, σ) ← createDraftClaim env σ r.actorUserId .reimbursement (env.at r.now)
  let σ ← onConflict spawnIndex (spawnExists none) <| flushClaims {
    σ.setClaim claimId fun c => { c with
      trip := source.trip
      cashAdvanceId := some advanceId
      spawnedFromClaimId := some r.liquidationClaimId } with
    legs := σ.legs ++ legs.map fun l => { claimId := claimId, seq := l.2, inputs := l.1.2.inputs } }
  computeClaimTotals env σ claimId

/-! ## The FMS journey -/

structure Relay where
  claimId : ℕ
  status : ExternalStatus
  actorUserId : ℕ
  notedBy : Option String := none
  note : Option String := none
  eventDate : Option Day := none
  now : Option Time := none
deriving DecidableEq, Repr

/-- `(text or "").strip() or None`. -/
def stripped (text : Option String) : Option String :=
  let s := strip (text.getD "")
  if s = "" then none else some s

def assertNotFuture (eventDate : Option Day) (now : Time) : Except Raised Unit :=
  refuse (∃ d ∈ eventDate, manilaDate now < d) externalEventFutureDate

def recordExternalEvent (env : Env) (r : Relay) (allowTerminal : Bool) (σ : Store) :
    Except Raised Store := do
  refuse (r.status = .paid ∧ ¬ allowTerminal) externalStatusIsTerminal
  assertNotFuture r.eventDate (env.at r.now)
  let claim ← lockedClaim σ r.claimId
  refuse (claim.status ≠ .handedToFms)
    (externalEventWrongState ((vocabulary claim.kind).label claim.status))
  return { σ with
    externalEvents := σ.externalEvents ++ [{
      claimId := r.claimId
      status := r.status
      notedBy := stripped r.notedBy
      note := stripped r.note
      eventDate := r.eventDate
      createdBy := r.actorUserId }] }

structure Payout where
  claimId : ℕ
  actorUserId : ℕ
  payoutRef : Option String
  paidOn : Option Day
  comment : Option String := none
  expectedVersion : Option ℕ := none
  now : Option Time := none
deriving DecidableEq, Repr

/-- Everything a payout checks before it writes: the reference and the date. -/
def payable (r : Payout) (now : Time) (σ : Store) : Except Raised (String × Day) := do
  let claim ← lockedClaim σ r.claimId
  refuse (claim.kind ≠ .reimbursement) payoutNotAReimbursement
  absent claim.payoutRef fun ref => payoutAlreadyRecorded ref claim.paidOn
  refuse (claim.status ≠ .handedToFms)
    (payoutWrongState ((vocabulary claim.kind).label claim.status))
  let reference ← found (stripped r.payoutRef) payoutRefRequired
  let paidOn ← found r.paidOn payoutDateRequired
  assertNotFuture (some paidOn) now
  return (reference, paidOn)

def recordPayout (env : Env) (r : Payout) (σ : Store) : Except Raised Store := do
  let now := env.at r.now
  let (reference, paidOn) ← payable r now σ
  let σ := σ.setClaim r.claimId fun c => { c with
    payoutRef := some reference
    paidOn := some paidOn
    paidBy := some r.actorUserId }
  let σ ← recordExternalEvent env
    { claimId := r.claimId
      status := .paid
      actorUserId := r.actorUserId
      note := some s!"Payment reference {reference}."
      eventDate := some paidOn
      now := some now } true σ
  claimAction env
    { claimId := r.claimId
      action := .approve
      actorUserId := r.actorUserId
      comment := r.comment
      expectedVersion := r.expectedVersion
      now := some now } σ

end OfficeConnect.Reimbursement
