import OfficeConnect.Reimbursement.Machine

/-!
# What each operation writes

The operations inverted, once: the checks a returning call has passed and the tables it leaves.
-/

namespace OfficeConnect.Reimbursement

open Lib Workflow

variable {env : Env} {σ σ' : Store} {i j : ℕ} {claim : Claim} {now : Time}

/-! ## Flushing -/

/-- The unique indexes of the claims table hold. -/
structure Indexed (claims : List Claim) : Prop where
  refNo : (claims.filterMap (·.refNo)).Nodup
  link : (claims.filterMap (·.workflowInstanceId)).Nodup
  spawn : (claims.filterMap Claim.liveSpawn).Nodup
  liquidation : (claims.filterMap Claim.liveLiquidation).Nodup

theorem flushClaims_eq_ok : flushClaims σ = .ok σ' ↔ σ' = σ ∧ Indexed σ.claims := by
  simp only [flushClaims, bind_eq_ok, refuse_eq_ok, not_not, pure_eq_ok]
  constructor
  · rintro ⟨-, h₁, -, h₂, -, h₃, -, h₄, rfl⟩
    exact ⟨rfl, h₁, h₂, h₃, h₄⟩
  · rintro ⟨rfl, h⟩
    exact ⟨(), h.refNo, (), h.link, (), h.spawn, (), h.liquidation, rfl⟩

theorem onConflict_eq_ok {α : Type} {index : String} {e : Raised} {x : Except Raised α} {a : α} :
    onConflict index e x = .ok a ↔ x = .ok a := by
  unfold onConflict
  split
  · simp
  · rfl

theorem lockedClaim_eq_ok : lockedClaim σ i = .ok claim ↔ σ.claims[i]? = some claim := found_eq_ok

/-! ## Money and packet -/

theorem computeClaimTotals_eq_ok {other : Option ℚ}
    (h : computeClaimTotals env σ i other = .ok σ') :
    ∃ claim result, σ.claims[i]? = some claim ∧ claimPerDiem env σ i claim = .ok result ∧
      let amount := (other.map toMoney).getD claim.trip.otherTotal
      σ' = {
        σ.setClaim i fun c => { c with
          trip := { c.trip with otherTotal := amount }
          totals := some (totalsOf result amount (σ.advanceAmount claim) env.utcNow) } with
        legs := σ.legs.mapIdx fun id leg =>
          if leg.claimId = i ∧ ¬ leg.deleted then leg.computed result id else leg } := by
  simp only [computeClaimTotals, bind_eq_ok, pure_eq_ok, lockedClaim_eq_ok] at h
  obtain ⟨-, -, claim, hc, result, hres, -, -, -, -, rfl⟩ := h
  exact ⟨claim, result, hc, hres, rfl⟩

/-- The money of a computation fits into the context and into its columns. -/
structure MoneyFits (σ : Store) (i : ℕ) (result : PerDiemResult) (t : Totals) : Prop where
  grand : |t.grand| < 10 ^ 28
  settled : |t.advance - t.grand| < 10 ^ 28
  other : Storable t.other
  legs : ∀ l ∈ σ.claimLegs i, l.2.Holds result l.1

theorem computeClaimTotals_fits {other : Option ℚ}
    (h : computeClaimTotals env σ i other = .ok σ') :
    ∃ claim result, σ.claims[i]? = some claim ∧ claimPerDiem env σ i claim = .ok result ∧
      MoneyFits σ i result (totalsOf result ((other.map toMoney).getD claim.trip.otherTotal)
        (σ.advanceAmount claim) env.utcNow) := by
  simp only [computeClaimTotals, bind_eq_ok, pure_eq_ok, lockedClaim_eq_ok, refuse_eq_ok, not_or,
    not_le, not_not, not_exists, not_and] at h
  obtain ⟨-, -, claim, hc, result, hres, -, ⟨hgrand, hsettled⟩, -, ⟨hother, hlegs⟩, -⟩ := h
  exact ⟨claim, result, hc, hres, hgrand, hsettled, hother, hlegs⟩

theorem assertPacketComplete_eq_ok :
    assertPacketComplete env σ i now = .ok σ' ↔
      ∃ claim, σ.claims[i]? = some claim ∧ σ' = refreshChecklist env σ i claim now ∧
        (blockingRows (buildPlan env σ' i claim now)).length = 0 := by
  simp only [assertPacketComplete, bind_eq_ok, refuse_eq_ok, not_not, pure_eq_ok,
    lockedClaim_eq_ok]
  constructor
  · rintro ⟨claim, hc, -, hb, rfl⟩
    exact ⟨claim, hc, rfl, hb⟩
  · rintro ⟨claim, hc, rfl, hb⟩
    exact ⟨claim, hc, (), hb, rfl⟩

/-! ## Running the engine and mirroring the event -/

theorem eventState_eq_ok {e : Event} {dest : State Status} :
    eventState e = .ok dest ↔ ∃ id, e.toStateId = some id ∧ state? id = some dest := by
  simp only [eventState, found_eq_ok, Option.bind_eq_some_iff]

/-- The mirror of an event: nothing when it leads to the claim's own status, else the claim as it
stands in the new state and its history row. -/
def Mirrored (env : Env) (σ : Store) (i : ℕ) (claim : Claim) (inst : Instance)
    (dest : State Status) (e : Event) (now : Time) (claims : List Claim)
    (history : List StatusHistory) : Prop :=
  (dest.code = claim.status ∧ claims = σ.claims ∧ history = σ.history) ∨
    (dest.code ≠ claim.status ∧ ∃ holder, resolveHolder env claim inst dest = .ok holder ∧
      claims = σ.claims.modify i (Claim.mirror dest holder now) ∧
      history = σ.history ++ [mirrorRow i claim dest e] ∧ Indexed claims)

/-- The engine ran on a claim's instance and the event was mirrored: what was read, what the engine
said and the store it leaves. -/
structure Performed (env : Env) (σ : Store) (i j : ℕ) (r : Request) (claim : Claim)
    (inst : Instance) (v : Published Status) (e : Event) (inst' : Instance) (dest : State Status)
    (returns : List ReturnEvent) (σ' : Store) : Prop where
  row : σ.claims[i]? = some claim
  live : σ.instances[j]? = some inst
  version : version? inst.definitionVersionId = some v
  exec : executeAction env.directory v.toVersion inst r = .ok (e, inst')
  target : eventState e = .ok dest
  result : ∃ claims history,
    Mirrored env σ i claim inst' dest e (env.at r.now) claims history ∧
      σ' = { σ with
        claims := claims
        history := history
        instances := σ.instances.modify j fun _ =>
          stamped claim.kind dest (slaDue env (env.at r.now)) inst'
        returnEvents := σ.returnEvents ++ returns }

theorem syncClaimFromEvent_eq_ok {e : Event} {inst : Instance}
    (hclaim : σ.claims[i]? = some claim) (hlink : claim.workflowInstanceId = some j)
    (hinst : σ.instances[j]? = some inst) :
    syncClaimFromEvent env σ i e now = .ok σ' ↔
      ∃ dest, eventState e = .ok dest ∧ ∃ claims history,
        Mirrored env σ i claim inst dest e now claims history ∧
          σ' = { σ with claims := claims, history := history } := by
  simp only [syncClaimFromEvent, bind_eq_ok, lockedClaim_eq_ok, hclaim, Option.some.injEq,
    exists_eq_left', Mirrored]
  refine exists_congr fun dest => and_congr_right fun _ => ?_
  split_ifs with hsame
  · simp [hsame, pure_eq_ok, eq_comm (a := σ)]
  · simp only [bind_eq_ok, found_eq_ok, flushClaims_eq_ok, hlink, Option.bind_some, hinst,
      Option.some.injEq, exists_eq_left', hsame, false_and, not_false_eq_true, true_and, false_or,
      ne_eq]
    constructor
    · rintro ⟨holder, hholder, rfl, hidx⟩
      exact ⟨_, _, ⟨holder, hholder, rfl, rfl, hidx⟩, rfl⟩
    · rintro ⟨_, _, ⟨holder, hholder, rfl, rfl, hidx⟩, rfl⟩
      exact ⟨holder, hholder, rfl, hidx⟩

theorem performAction_eq_ok {r : Request}
    {record : Event → Instance → Except Raised (List ReturnEvent)}
    (hlink : ∀ c, σ.claims[i]? = some c → c.workflowInstanceId = some j) :
    performAction env σ i j r record = .ok σ' ↔
      ∃ claim inst v e inst' dest returns, record e inst' = .ok returns ∧
        Performed env σ i j r claim inst v e inst' dest returns σ' := by
  simp only [performAction, bind_eq_ok, found_eq_ok, lockedClaim_eq_ok, Prod.exists]
  refine exists_congr fun claim => ?_
  constructor
  · rintro ⟨hc, inst, hinst, v, hv, e, inst', hexec, returns, hrec, σ₁, hsync, hstamp⟩
    rw [syncClaimFromEvent_eq_ok (σ := { σ.setInstance j fun _ => inst' with
      returnEvents := σ.returnEvents ++ returns }) hc (hlink claim hc)
      (getElem?_modify_self _ hinst)] at hsync
    obtain ⟨dest, hdest, claims, history, hmirror, rfl⟩ := hsync
    simp only [stampSla, bind_eq_ok, hdest, Except.ok.injEq, exists_eq_left', pure_eq_ok] at hstamp
    refine ⟨inst, v, e, inst', dest, returns, hrec, hc, hinst, hv, hexec, hdest, claims, history,
      hmirror, ?_⟩
    rw [← hstamp]
    simp [Store.setInstance, List.modify_modify_eq, Function.comp_def]
  · rintro ⟨inst, v, e, inst', dest, returns, hrec, h⟩
    obtain ⟨claims, history, hmirror, rfl⟩ := h.result
    refine ⟨h.row, inst, h.live, v, h.version, e, inst', h.exec, returns, hrec, ?_⟩
    refine ⟨_, (syncClaimFromEvent_eq_ok (σ := { σ.setInstance j fun _ => inst' with
      returnEvents := σ.returnEvents ++ returns }) h.row (hlink claim h.row)
      (getElem?_modify_self _ h.live)).2 ⟨dest, h.target, claims, history, hmirror, rfl⟩, ?_⟩
    simp only [stampSla, bind_eq_ok, h.target, Except.ok.injEq, exists_eq_left', pure_eq_ok]
    simp [Store.setInstance, List.modify_modify_eq, Function.comp_def]

/-- A claim without where it stands. -/
def Claim.body (c : Claim) : Claim :=
  { c with status := .draft, holderKind := none, holderId := none, holderSince := none,
           nextAction := none }

/-- The claim after the mirror shows the event's state and is else as it was. -/
theorem Performed.claim_after {r : Request} {inst inst' : Instance} {v : Published Status}
    {e : Event} {dest : State Status} {returns : List ReturnEvent}
    (h : Performed env σ i j r claim inst v e inst' dest returns σ') :
    ∃ after, σ'.claims[i]? = some after ∧ after.status = dest.code ∧ after.body = claim.body := by
  obtain ⟨claims, history, hmirror, rfl⟩ := h.result
  rcases hmirror with ⟨hsame, rfl, -⟩ | ⟨-, holder, -, rfl, -, -⟩
  · exact ⟨claim, h.row, hsame.symm, rfl⟩
  · exact ⟨_, getElem?_modify_self _ h.row, rfl, rfl⟩

/-! ## Acting on a submitted claim -/

/-- The engine request a claim action makes where its instance stands. -/
def ActionRequest.request (env : Env) (r : ActionRequest) (inst : Instance) : Request :=
  { action := r.action
    actorUserId := r.actorUserId
    comment := r.comment
    idempotencyKey := r.key inst
    expectedVersion := r.expectedVersion
    now := some (env.at r.now) }

theorem refreshForResubmit_eq_ok (h : refreshForResubmit env σ i j now = .ok σ') :
    ∃ σ₁ claim, computeClaimTotals env σ i = .ok σ₁ ∧ σ₁.claims[i]? = some claim ∧
      σ' = (refreshChecklist env σ₁ i claim now).setInstance j fun inst =>
        { inst with amount := claim.totals.map (·.grand) } := by
  simp only [refreshForResubmit, bind_eq_ok, assertPacketComplete_eq_ok, lockedClaim_eq_ok,
    pure_eq_ok] at h
  obtain ⟨σ₁, htotals, _, ⟨claim, hclaim, rfl, -⟩, claim', hclaim', rfl⟩ := h
  obtain rfl : claim = claim' := Option.some.inj (hclaim.symm.trans hclaim')
  exact ⟨σ₁, claim, htotals, hclaim, rfl⟩

/-- The money of a claim about to leave `handed_to_fms` is on record. -/
def moneyRecorded (σ : Store) (claim : Claim) : Except Raised Unit :=
  match claim.kind with
  | .liquidation => assertAdvanceSettled σ claim
  | .reimbursement => assertPayoutRecorded claim

/-- An approval is let through when the packet is complete and, out of FMS, the money is on record. -/
theorem approveAllowed_eq_ok :
    approveAllowed env σ i claim = .ok () ↔
      assertPersistedPacketComplete env σ i = .ok () ∧
        (claim.status = .handedToFms → moneyRecorded σ claim = .ok ()) := by
  simp only [approveAllowed, bind_eq_ok, moneyRecorded]
  by_cases hstatus : claim.status = .handedToFms
  · simp only [hstatus, true_imp_iff]
    constructor
    · rintro ⟨_, hpacket, hmoney⟩
      exact ⟨hpacket, hmoney⟩
    · rintro ⟨hpacket, hmoney⟩
      exact ⟨(), hpacket, hmoney⟩
  · simp only [hstatus, false_imp_iff, and_true]
    constructor
    · rintro ⟨_, hpacket, -⟩
      exact hpacket
    · intro hpacket
      exact ⟨(), hpacket, rfl⟩

/-- A resubmission refreshes money and packet, an approval checks them, the rest prepare nothing. -/
theorem prepareAction_eq_ok {r : ActionRequest} :
    prepareAction env σ claim j r = .ok σ' ↔
      (r.action = .resubmit ∧
        refreshForResubmit env σ r.claimId j (env.at r.now) = .ok σ') ∨
      (r.action ≠ .resubmit ∧ σ' = σ ∧
        (r.action = .approve → approveAllowed env σ r.claimId claim = .ok ())) := by
  unfold prepareAction
  cases ha : r.action with
  | resubmit => simp
  | approve =>
      simp only [bind_eq_ok, pure_eq_ok, reduceCtorEq, false_and, false_or, ne_eq,
        not_false_eq_true, true_and, true_imp_iff]
      constructor
      · rintro ⟨_, hok, rfl⟩
        exact ⟨rfl, hok⟩
      · rintro ⟨rfl, hok⟩
        exact ⟨(), hok, rfl⟩
  | _ => simp [eq_comm]

theorem claimAction_eq_ok {r : ActionRequest} :
    claimAction env r σ = .ok σ' ↔
      r.action ∈ claimActions ∧ ∃ claim j inst σ₁, σ.claims[r.claimId]? = some claim ∧
        maySeeClaim env σ claim r.actorUserId = true ∧ claim.workflowInstanceId = some j ∧
        σ.instances[j]? = some inst ∧ actionAllowed env claim inst r = .ok () ∧
        prepareAction env σ claim j r = .ok σ₁ ∧
        performAction env σ₁ r.claimId j (r.request env inst)
          (returnRecord r (inst.events.any (·.idempotencyKey = r.key inst))) = .ok σ' := by
  simp only [claimAction, bind_eq_ok, refuse_eq_ok, lockedClaim_eq_ok, found_eq_ok, not_not]
  constructor
  · rintro ⟨-, hverb, claim, hclaim, -, hsee, j, hlink, inst, hinst, _, hallowed, σ₁, hprep, hperf⟩
    exact ⟨hverb, claim, j, inst, σ₁, hclaim, hsee, hlink, hinst, hallowed, hprep, hperf⟩
  · rintro ⟨hverb, claim, j, inst, σ₁, hclaim, hsee, hlink, hinst, hallowed, hprep, hperf⟩
    exact ⟨(), hverb, claim, hclaim, (), hsee, j, hlink, inst, hinst, (), hallowed, σ₁, hprep,
      hperf⟩

/-- The approval a settlement drives. -/
def Settle.approval (env : Env) (r : Settle) : ActionRequest :=
  { claimId := r.claimId
    action := .approve
    actorUserId := r.actorUserId
    comment := r.comment
    expectedVersion := r.expectedVersion
    now := some (env.at r.now) }

/-- The approval a payout drives. -/
def Payout.approval (env : Env) (r : Payout) : ActionRequest :=
  { claimId := r.claimId
    action := .approve
    actorUserId := r.actorUserId
    comment := r.comment
    expectedVersion := r.expectedVersion
    now := some (env.at r.now) }

/-- The claim action a call performs. -/
def Call.action? (c : Call) : Option ActionRequest :=
  match c.op with
  | .act r => some r
  | .settle r => some (r.approval c.env)
  | .payout r => some (r.approval c.env)
  | _ => none

/-! ## Settling, paying and submitting -/

theorem settleable_eq_ok {r : Settle} {advanceId : ℕ} {totals : Totals} :
    settleable r σ = .ok (advanceId, totals) ↔
      ∃ claim advance, σ.claims[r.claimId]? = some claim ∧ claim.kind = .liquidation ∧
        claim.cashAdvanceId = some advanceId ∧ σ.advances[advanceId]? = some advance ∧
        advance.status ≠ .settled ∧ claim.status = .handedToFms ∧ claim.totals = some totals ∧
        validateReceipt (settlementMode totals) totals.toRefund r = .ok () := by
  simp only [settleable, bind_eq_ok, refuse_eq_ok, lockedClaim_eq_ok, found_eq_ok, pure_eq_ok,
    not_not, Prod.mk.injEq]
  constructor
  · rintro ⟨claim, hclaim, -, hkind, a, ha, advance, hadv, -, hopen, -, hst, t, ht, _, hrec, rfl,
      rfl⟩
    exact ⟨claim, advance, hclaim, hkind, ha, hadv, hopen, hst, ht, hrec⟩
  · rintro ⟨claim, advance, hclaim, hkind, ha, hadv, hopen, hst, ht, hrec⟩
    exact ⟨claim, hclaim, (), hkind, advanceId, ha, advance, hadv, (), hopen, (), hst, totals, ht,
      (), hrec, rfl, rfl⟩

/-- The store a settlement hands to its approval. -/
def Settle.recorded (env : Env) (r : Settle) (advanceId : ℕ) (totals : Totals) (σ : Store) :
    Store :=
  σ.setAdvance advanceId fun a =>
    a.markSettled r.actorUserId (settlementMode totals) totals.toRefund r (env.at r.now)

theorem recordSettlement_eq_ok {r : Settle} :
    recordSettlement env r σ = .ok σ' ↔
      ∃ advanceId totals, settleable r σ = .ok (advanceId, totals) ∧
        claimAction env (r.approval env) (r.recorded env advanceId totals σ) = .ok σ' := by
  simp only [recordSettlement, bind_eq_ok, Prod.exists]
  rfl

/-- A payout hands its approval a store with the payment columns written. -/
theorem recordPayout_eq_ok {r : Payout} (h : recordPayout env r σ = .ok σ') :
    ∃ reference day σ₁, σ₁.claims = σ.claims.modify r.claimId (fun c => { c with
        payoutRef := some reference
        paidOn := some day
        paidBy := some r.actorUserId }) ∧
      σ₁.instances = σ.instances ∧ σ₁.history = σ.history ∧ σ₁.advances = σ.advances ∧
      claimAction env (r.approval env) σ₁ = .ok σ' := by
  simp only [recordPayout, recordExternalEvent, bind_eq_ok, Prod.exists, pure_eq_ok] at h
  obtain ⟨reference, day, -, _, ⟨_, -, _, -, claim, -, _, -, rfl⟩, hact⟩ := h
  refine ⟨reference, day, _, ?_, ?_, ?_, ?_, hact⟩ <;> rfl

theorem preparePacket_eq_ok {r : Claim × Store} (h : preparePacket env σ i now = .ok r) :
    ∃ σ₁, computeClaimTotals env σ i = .ok σ₁ ∧ σ₁.claims[i]? = some r.1 ∧
      r.2 = refreshChecklist env σ₁ i r.1 now := by
  simp only [preparePacket, bind_eq_ok, lockedClaim_eq_ok, assertPacketComplete_eq_ok,
    pure_eq_ok] at h
  obtain ⟨σ₁, htotals, claim, hclaim, _, -, _, ⟨claim', hclaim', rfl, -⟩, rfl⟩ := h
  obtain rfl : claim = claim' := Option.some.inj (hclaim.symm.trans hclaim')
  exact ⟨σ₁, htotals, hclaim, rfl⟩

/-- The number a claim enters the workflow under, and the series after it. -/
def entryNumber (sequences : List ReferenceSequence) (claim : Claim) (now : Time) :
    String × List ReferenceSequence :=
  match claim.refNo with
  | some refNo => (refNo, sequences)
  | none => allocateReferenceNumber sequences (refScope claim.kind) (year (manilaDate now))

theorem enterWorkflow_eq_ok {inst : Instance} :
    enterWorkflow σ i claim inst now = .ok σ' ↔ Indexed σ'.claims ∧ σ' = {
      σ.setClaim i fun c => { c with
        refNo := some (entryNumber σ.sequences claim now).1
        workflowInstanceId := some σ.instances.length } with
      instances := σ.instances ++ [inst]
      sequences := (entryNumber σ.sequences claim now).2 } := by
  refine flushClaims_eq_ok.trans ?_
  constructor
  · rintro ⟨rfl, hidx⟩
    exact ⟨hidx, rfl⟩
  · rintro ⟨hidx, rfl⟩
    exact ⟨rfl, hidx⟩

/-- The request a submission makes on its new instance. -/
def Submit.request (env : Env) (r : Submit) (inst : Instance) : Request :=
  { action := .submit
    actorUserId := r.actorUserId
    idempotencyKey := orText r.idempotencyKey (some (submitKey r.claimId inst.revisionNo))
    now := some (env.at r.now) }

/-- A returning submission: the claim it read and priced, the instance it started and linked, and
what the engine made of it. -/
structure Submitted (env : Env) (r : Submit) (σ : Store) (claim priced : Claim) (packet : Store)
    (inst : Instance) (v : Published Status) (e : Event) (inst' : Instance) (dest : State Status)
    (entered σ' : Store) : Prop where
  row : σ.claims[r.claimId]? = some claim
  allowed : ∃ unit, submittable env claim r.actorUserId = .ok unit
  prepared : preparePacket env σ r.claimId (env.at r.now) = .ok (priced, packet)
  started : ∃ initial start, initialState (chain priced.kind).toVersion = some initial ∧
    inst = newInstance (chain priced.kind).toVersion initial start (env.at r.now)
  routed : ∃ unit, staffUnit env claim.claimantId = some unit ∧
    inst.originatorUserId = some r.actorUserId ∧ inst.orgUnitId = some unit
  indexed : Indexed entered.claims
  store : entered = {
    packet.setClaim r.claimId fun c => { c with
      refNo := some (entryNumber packet.sequences priced (env.at r.now)).1
      workflowInstanceId := some packet.instances.length } with
    instances := packet.instances ++ [inst]
    sequences := (entryNumber packet.sequences priced (env.at r.now)).2 }
  performed : Performed env entered r.claimId packet.instances.length (r.request env inst)
    { priced with
      refNo := some (entryNumber packet.sequences priced (env.at r.now)).1
      workflowInstanceId := some packet.instances.length } inst v e inst' dest [] σ'

/-- A submission prices the claim, starts an instance of its chain and submits it. -/
theorem submitClaim_eq_ok {r : Submit} (h : submitClaim env r σ = .ok σ') :
    ∃ claim priced packet inst v e inst' dest entered,
      Submitted env r σ claim priced packet inst v e inst' dest entered σ' := by
  simp only [submitClaim, startInstance, bind_eq_ok, lockedClaim_eq_ok, Prod.exists, found_eq_ok,
    pure_eq_ok, Option.some.injEq] at h
  obtain ⟨claim, hclaim, unit, hsub, priced, packet, hprep, inst, ⟨_, -, _, rfl, initial, hinit,
    hinst⟩, entered, henter, hperf⟩ := h
  obtain ⟨hidx, hstore⟩ := enterWorkflow_eq_ok.1 henter
  have hunit : staffUnit env claim.claimantId = some unit := by
    simp only [submittable, bind_eq_ok, refuse_eq_ok, found_eq_ok] at hsub
    obtain ⟨-, -, -, -, -, -, hunit⟩ := hsub
    exact hunit
  have hrow : packet.claims[r.claimId]? = some priced := by
    obtain ⟨σ₁, -, hpriced, hpacket⟩ := preparePacket_eq_ok hprep
    change packet = _ at hpacket
    rw [hpacket]
    exact hpriced
  have hlinked : entered.claims[r.claimId]? = some { priced with
      refNo := some (entryNumber packet.sequences priced (env.at r.now)).1
      workflowInstanceId := some packet.instances.length } := by
    rw [hstore]
    exact getElem?_modify_self _ hrow
  have hlink : ∀ c, entered.claims[r.claimId]? = some c →
      c.workflowInstanceId = some packet.instances.length := by
    intro c hc
    obtain rfl := Option.some.inj (hlinked.symm.trans hc)
    rfl
  obtain ⟨linked, inst₂, v, e, inst', dest, returns, hrec, hp⟩ :=
    (performAction_eq_ok hlink).1 hperf
  obtain rfl := Except.ok.inj hrec
  obtain rfl := Option.some.inj (hlinked.symm.trans hp.row)
  have hinst₂ : inst₂ = inst := by
    have hlive := hp.live
    rw [hstore] at hlive
    simpa using hlive.symm
  subst hinst₂
  exact ⟨claim, priced, packet, inst₂, v, e, inst', dest, entered, hclaim, ⟨unit, hsub⟩, hprep,
    ⟨initial, _, hinit, hinst.symm⟩, ⟨unit, hunit, hinst ▸ rfl, hinst ▸ rfl⟩, hidx, hstore, hp⟩

end OfficeConnect.Reimbursement
