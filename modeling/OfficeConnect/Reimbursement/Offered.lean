import OfficeConnect.Reimbursement.Actions
import OfficeConnect.Reimbursement.Standing
import OfficeConnect.Workflow.Admission

/-!
# What the offer promises

Nobody should be offered a verb and then be told that they may not take it.  The engine keeps this:
what it offers it admits.  The claim's own checks do not, since they know direct grants of three
permissions only, while the engine counts delegations and the certifier's permission too.
-/

namespace OfficeConnect.Reimbursement

open Lib Workflow

/-! ## Checks that refuse nobody -/

section

variable {env : Env} {σ : Store} {i j : ℕ} {claim : Claim} {now : Time}

theorem checkLegs_spares (legs : List LegInput) : SparesAll (checkLegs legs) := by
  induction legs with
  | nil => exact raises_ok _
  | cons leg rest ih => simp [checkLegs, legDateRequired, govVehicleFare, ih]

theorem tripSpan_spares (legs : List LegInput) (first last : Option Day) :
    SparesAll (tripSpan legs first last) := by
  unfold tripSpan
  split
  · exact raises_ok _
  · simp [noComputableDays]

theorem quantize_spares (q : ℚ) : SparesAll (quantize q) := by
  simp [quantize]

theorem sumMoney_spares (amounts : List ℤ) : SparesAll (sumMoney amounts) := by
  simp [sumMoney]

theorem computeDay_spares (trip : Journey) (day : Day) (prevRegion : Option String) :
    SparesAll (computeDay trip day prevRegion) := by
  have hgross : ∀ (rate : ℤ) (parts : Apportionment) (cs : List Component),
      SparesAll (cs.mapM fun c =>
        Prod.mk c <$> quantize (Decimal.inContext (rate * parts.pct c) / 10000)) :=
    fun rate parts cs => raises_mapM fun c => by simp [quantize_spares]
  simp [computeDay, apportionment, departurePct, missingRegionCluster, missingDteRate,
    configMissing, configInvalid, hgross, sumMoney_spares]

theorem computeDays_spares (trip : Journey) (days : List Day) (prevRegion : Option String) :
    SparesAll (computeDays trip days prevRegion) := by
  induction days generalizing prevRegion with
  | nil => exact raises_ok _
  | cons day rest ih => simp [computeDays, computeDay_spares, ih]

theorem claimPerDiem_spares : SparesAll (claimPerDiem env σ i claim) := by
  simp [claimPerDiem, computePerDiem, checkLegs_spares, tripSpan_spares, computeDays_spares,
    noComputableDays, legOutsideTripDates, sumMoney_spares, sumFares]

theorem lockedClaim_spares : SparesAll (lockedClaim σ i) := by
  simp [lockedClaim, claimNotFound]

theorem computeClaimTotals_spares (otherTotal : Option ℚ) :
    SparesAll (computeClaimTotals env σ i otherTotal) := by
  simp [computeClaimTotals, lockedClaim_spares, claimPerDiem_spares]

theorem assertPacketComplete_spares : SparesAll (assertPacketComplete env σ i now) := by
  simp [assertPacketComplete, lockedClaim_spares, packetIncomplete]

theorem refreshForResubmit_spares : SparesAll (refreshForResubmit env σ i j now) := by
  simp [refreshForResubmit, computeClaimTotals_spares, assertPacketComplete_spares,
    lockedClaim_spares]

theorem approveAllowed_spares : SparesAll (approveAllowed env σ i claim) := by
  unfold approveAllowed
  cases claim.kind <;> simp [assertPersistedPacketComplete, packetIncomplete, assertAdvanceSettled,
    liquidationWithoutAdvance, settlementRequired, assertPayoutRecorded, payoutRequired]

theorem prepareAction_spares (r : ActionRequest) : SparesAll (prepareAction env σ claim j r) := by
  unfold prepareAction
  split
  · exact refreshForResubmit_spares
  · simp [approveAllowed_spares]
  · exact raises_ok _

theorem eventState_spares (event : Event) : SparesAll (eventState event) := by
  simp [eventState]

theorem returnRecord_spares (r : ActionRequest) (replayed : Bool) (event : Event)
    (inst : Instance) : SparesAll (returnRecord r replayed event inst) := by
  simp [returnRecord, eventState_spares]

theorem flushClaims_spares : SparesAll (flushClaims σ) := by
  simp [flushClaims]

theorem resolveHolder_spares (inst : Instance) (state : State Status) :
    SparesAll (resolveHolder env claim inst state) := by
  simp only [resolveHolder, raises_ite, raises_ok, implies_true, true_and]
  intro _ _ _
  split
  · simp [noEligibleHolder]
  · exact raises_ok _

theorem syncClaimFromEvent_spares (event : Event) :
    SparesAll (syncClaimFromEvent env σ i event now) := by
  simp [syncClaimFromEvent, lockedClaim_spares, eventState_spares, resolveHolder_spares,
    flushClaims_spares]

theorem performAction_spares {q : Request} {inst : Instance}
    {record : Event → Instance → Except Raised (List ReturnEvent)}
    (hinst : σ.instances[j]? = some inst)
    (hexec : ∀ v, version? inst.definitionVersionId = some v →
      SparesAll (executeAction env.directory v.toVersion inst q))
    (hrecord : ∀ e inst', SparesAll (record e inst')) :
    SparesAll (performAction env σ i j q record) := by
  unfold performAction
  refine raises_bind.2 ⟨lockedClaim_spares, fun claim _ => ?_⟩
  rw [hinst, found_some, ok_bind]
  refine raises_bind.2 ⟨by simp, fun v hv => ?_⟩
  refine raises_bind.2 ⟨hexec v (found_eq_ok.1 hv), fun p _ => ?_⟩
  simp [hrecord, syncClaimFromEvent_spares, stampSla, eventState_spares]

theorem validateReceipt_spares (mode : SettlementMode) (toRefund : ℤ) (r : Settle) :
    SparesAll (validateReceipt mode toRefund r) := by
  unfold validateReceipt
  split_ifs <;> simp [refundReceiptRequired, refundReceiptNotApplicable, refundAmountMismatch]

theorem not_forbids_settlementAlreadyRecorded (orNo : Option String) (settledAt : Option Day) :
    ¬ (settlementAlreadyRecorded orNo settledAt).Forbids := by
  change ¬ (409 = 403 ∨ "reimb_settlement_already_recorded" = "segregation_of_duties")
  decide

theorem settleable_spares (r : Settle) : SparesAll (settleable r σ) := by
  simp [settleable, validateReceipt_spares, lockedClaim_spares, notALiquidation,
    liquidationWithoutAdvance, cashAdvanceNotFound, not_forbids_settlementAlreadyRecorded,
    settlementWrongState, settlementTotalsMissing]

theorem payable_spares (r : Payout) : SparesAll (payable r now σ) := by
  simp [payable, assertNotFuture, lockedClaim_spares, payoutNotAReimbursement,
    payoutAlreadyRecorded, payoutWrongState, payoutRefRequired, payoutDateRequired,
    externalEventFutureDate]

theorem recordExternalEvent_spares (r : Relay) (allowTerminal : Bool) :
    SparesAll (recordExternalEvent env r allowTerminal σ) := by
  simp [recordExternalEvent, assertNotFuture, lockedClaim_spares, externalStatusIsTerminal,
    externalEventFutureDate, externalEventWrongState]

end

/-! ## The checks that refuse -/

section

variable {env : Env} {σ : Store} {j actor : ℕ} {claim : Claim} {inst : Instance}
  {r : ActionRequest}

/-- Resubmit and cancel are the owner's, or a reviewer's. -/
def Belted (env : Env) (claim : Claim) (inst : Instance) (action : Action) (actor : ℕ) : Prop :=
  action = .resubmit ∨ action = .cancel → isClaimOwner env claim actor = true ∨
    env.directory.authorizeScoped actor reviewPerm inst.orgUnitId = true

theorem actionAllowed_spares :
    SparesAll (actionAllowed env claim inst r) ↔ Belted env claim inst r.action r.actorUserId := by
  unfold actionAllowed Belted
  cases r.action with
  | «return» => simp [assertReturnReasons, returnReasonRequired, unknownReturnReason]
  | resubmit | cancel => simp [notClaimOwner, or_iff_not_imp_left]
  | _ => simp

/-- Where the engine refuses nobody, a claim action refuses whom the claim hides from and whom the
belt stops. -/
theorem claimAction_spares (hclaim : σ.claims[r.claimId]? = some claim)
    (hlink : claim.workflowInstanceId = some j) (hinst : σ.instances[j]? = some inst)
    (hverb : r.action ∈ claimActions)
    (hexec : ∀ v, version? inst.definitionVersionId = some v → ∀ amount,
      SparesAll (executeAction env.directory v.toVersion { inst with amount := amount }
        (r.request env inst))) :
    SparesAll (claimAction env r σ) ↔ maySeeClaim env σ claim r.actorUserId = true ∧
      Belted env claim inst r.action r.actorUserId := by
  have hperform : ∀ σ₁, prepareAction env σ claim j r = .ok σ₁ →
      SparesAll (performAction env σ₁ r.claimId j (r.request env inst)
        (returnRecord r (inst.events.any (·.idempotencyKey = r.key inst)))) := by
    intro σ₁ hprep
    obtain ⟨amount, -, hinstances⟩ := prepareAction_idle hprep
    have hinst₁ : σ₁.instances[j]? = some { inst with amount := amount inst } := by
      rw [hinstances]
      exact getElem?_modify_self _ hinst
    exact performAction_spares hinst₁ (fun v hv => hexec v hv _) (returnRecord_spares r _)
  unfold claimAction
  rw [refuse_of_not _ (not_not.2 hverb), lockedClaim, hclaim, found_some]
  simp only [ok_bind, hlink, hinst, found_some, raises_bind, raises_refuse, actionAllowed_spares,
    prepareAction_spares, true_and]
  constructor
  · rintro ⟨hsee, hrest⟩
    have hsees : maySeeClaim env σ claim r.actorUserId = true := by
      by_contra hnot
      exact hsee hnot (.inl rfl)
    exact ⟨hsees, (hrest () (refuse_of_not _ (not_not.2 hsees))).1⟩
  · rintro ⟨hsee, hbelt⟩
    exact ⟨fun hnot => absurd hsee hnot,
      fun _ _ => ⟨hbelt, fun _ _ σ₁ hprep => hperform σ₁ hprep⟩⟩

/-- Both ends of the offer: what the engine offers on a placed instance it does not refuse, whatever
amount the claim is resubmitted with. -/
theorem Placed.spares {kind : Kind} {status : Status} (hp : Placed kind status inst) (env : Env)
    (q : Request) (at? : Option Time)
    (hnow : q.now.getD env.directory.utcNow = at?.getD env.directory.utcNow)
    (h : q.action ∈ availableActions env.directory (chain kind).toVersion inst q.actorUserId at?)
    (v : Published Status) (hv : version? inst.definitionVersionId = some v) (amount : Option ℤ) :
    SparesAll (executeAction env.directory v.toVersion { inst with amount := amount } q) := by
  have hsingle : ∀ k, SingleRouted (chain k).toVersion := by
    intro k
    constructor <;> cases k <;> decide
  obtain rfl := hp.version_eq hv
  exact ((quiet_setAmount inst amount).onLadder hp.onLadder).spares (hsingle kind) hnow
    inst.amount h

end

/-! ## Performing a verb -/

/-- A verb performed on a claim: through the claim action, or through the route that records the
money first. -/
inductive Performance where
  | act (r : ActionRequest)
  | settle (r : Settle)
  | markPaid (r : Payout)
deriving DecidableEq, Repr

namespace Performance

def claimId : Performance → ℕ
  | act r => r.claimId
  | settle r => r.claimId
  | markPaid r => r.claimId

def actor : Performance → ℕ
  | act r => r.actorUserId
  | settle r => r.actorUserId
  | markPaid r => r.actorUserId

def now : Performance → Option Time
  | act r => r.now
  | settle r => r.now
  | markPaid r => r.now

def verb : Performance → Actions.Verb
  | act r => .act r.action
  | settle _ => .settle
  | markPaid _ => .markPaid

/-- The action the engine is asked for in the end. -/
def action : Performance → Action
  | act r => r.action
  | settle _ | markPaid _ => .approve

def run (env : Env) : Performance → Store → Except Raised Store
  | act r => claimAction env r
  | settle r => Api.settleClaim env r
  | markPaid r => Api.markClaimPaid env r

/-- The actor passes the claim's own checks, which count direct grants only.  A claim action asks
for an owner or a holder of an oversight permission, and to resubmit or cancel for an owner or a
reviewer; the routes ask for the manager of advances and for the relay of FMS.  A settlement that is
not recorded never gets to the claim action. -/
def Passes (env : Env) (σ : Store) (claim : Claim) : Performance → Prop
  | act r => r.action ∈ claimActions → maySeeClaim env σ claim r.actorUserId = true ∧
      ∀ inst ∈ σ.instanceOf claim, Belted env claim inst r.action r.actorUserId
  | settle r => Api.canManageCashAdvances env r.actorUserId claim.claimantId = true ∧
      ((settleable r σ).toOption.isSome → maySeeClaim env σ claim r.actorUserId = true)
  | markPaid r => Api.hasScopedGrant env σ claim r.actorUserId [fmsPerm] = true

/-- The claim is in the workflow and the verb is on the actor's list. -/
def Listed (env : Env) (σ : Store) (claim : Claim) (p : Performance) : Prop :=
  claim.workflowInstanceId ≠ none ∧
    ∃ verbs ∈ (Actions.claimActions env σ p.claimId claim p.actor p.now).toOption, p.verb ∈ verbs

instance (env : Env) (σ : Store) (claim : Claim) (p : Performance) :
    Decidable (p.Listed env σ claim) :=
  inferInstanceAs (Decidable (claim.workflowInstanceId ≠ none ∧
    ∃ verbs ∈ (Actions.claimActions env σ p.claimId claim p.actor p.now).toOption, p.verb ∈ verbs))

end Performance

section

variable {env : Env} {σ : Store} {j : ℕ} {claim : Claim} {inst : Instance} {p : Performance}

/-- A verb on the list stands for an action the engine offers. -/
theorem Performance.mem_offered {offered : List Action} (i : ℕ)
    (h : p.verb ∈ Actions.renamed env σ i claim offered) : p.action ∈ offered := by
  obtain ⟨action, hmem, heq⟩ := List.mem_map.1 h
  have hlisted : action ∈ offered := by
    split_ifs at hmem
    · exact hmem
    · exact List.mem_of_mem_filter hmem
  have haction : p.action = action := by
    split_ifs at heq with hterminal
    · rw [hterminal.1]
      cases p with
      | act r => cases hkind : claim.kind <;> simp [hkind, Actions.terminalVerb, verb] at heq
      | settle r => rfl
      | markPaid r => rfl
    · cases p with
      | act r => exact (Actions.Verb.act.inj heq).symm
      | settle r => cases heq
      | markPaid r => cases heq
  rw [haction]
  exact hlisted

theorem Performance.Listed.offered (h : p.Listed env σ claim)
    (hlink : claim.workflowInstanceId = some j) (hinst : σ.instances[j]? = some inst)
    (hp : Placed claim.kind claim.status inst) :
    p.action ∈ availableActions env.directory (chain claim.kind).toVersion inst p.actor p.now := by
  have hversion : version? inst.definitionVersionId = some (chain claim.kind) := by
    rw [hp.onLadder.version]
    exact version?_chain claim.kind
  obtain ⟨-, verbs, hverbs, hverb⟩ := h
  simp only [Actions.claimActions, hlink, hinst, hversion, found_some, ok_bind] at hverbs
  obtain rfl := Option.some.inj hverbs
  rcases List.mem_append.1 hverb with hverb | hverb
  · rcases List.mem_append.1 hverb with hverb | hverb
    · exact mem_offered _ hverb
    · split_ifs at hverb <;> cases p <;> simp [verb] at hverb
  · split_ifs at hverb <;> cases p <;> simp [verb] at hverb

/-- Who may relay FMS may see the claim. -/
theorem maySeeClaim_of_hasScopedGrant {actor : ℕ} (hlink : claim.workflowInstanceId = some j)
    (hinst : σ.instances[j]? = some inst)
    (h : Api.hasScopedGrant env σ claim actor [fmsPerm] = true) :
    maySeeClaim env σ claim actor = true := by
  simp only [Api.hasScopedGrant, Api.claimOrgUnit, hlink, hinst, Option.bind_some] at h
  cases hunit : inst.orgUnitId with
  | none => simp [hunit] at h
  | some unit =>
      simp only [hunit, List.any_cons, List.any_nil, Bool.or_false] at h
      simp [maySeeClaim, claimUnit, hlink, hinst, hunit, oversightPerms, h]

/-- The approval a route ends in is refused to whom the claim hides from. -/
theorem approval_spares {r : ActionRequest} (claim : Claim)
    (hclaim : σ.claims[r.claimId]? = some claim)
    (hlink : claim.workflowInstanceId = some j) (hinst : σ.instances[j]? = some inst)
    (haction : r.action = .approve)
    (hexec : ∀ v, version? inst.definitionVersionId = some v → ∀ amount,
      SparesAll (executeAction env.directory v.toVersion { inst with amount := amount }
        (r.request env inst))) :
    SparesAll (claimAction env r σ) ↔ maySeeClaim env σ claim r.actorUserId = true := by
  rw [claimAction_spares hclaim hlink hinst (by rw [haction]; decide) hexec, and_iff_left]
  rintro (hverb | hverb) <;> rw [haction] at hverb <;> cases hverb

theorem settleClaim_spares {r : Settle} (hclaim : σ.claims[r.claimId]? = some claim)
    (hlink : claim.workflowInstanceId = some j) (hinst : σ.instances[j]? = some inst)
    (hexec : ∀ v, version? inst.definitionVersionId = some v → ∀ amount,
      SparesAll (executeAction env.directory v.toVersion { inst with amount := amount }
        ((r.approval env).request env inst))) :
    SparesAll (Api.settleClaim env r σ) ↔ (Performance.settle r).Passes env σ claim := by
  have happroval : ∀ advanceId f, SparesAll (claimAction env (r.approval env)
      (σ.setAdvance advanceId f)) ↔ maySeeClaim env σ claim r.actorUserId = true :=
    fun advanceId f => approval_spares (σ := σ.setAdvance advanceId f) claim hclaim hlink hinst
      rfl hexec
  have hrecord : SparesAll (recordSettlement env r σ) ↔
      ((settleable r σ).toOption.isSome → maySeeClaim env σ claim r.actorUserId = true) := by
    simp only [recordSettlement, raises_bind, and_iff_right (settleable_spares r)]
    cases hsettle : settleable r σ with
    | error e => simp [Except.toOption]
    | ok recorded =>
        simp only [Except.ok.injEq, forall_eq', Except.toOption, Option.isSome_some, true_imp_iff]
        exact happroval recorded.1 _
  simp only [Api.settleClaim, Api.getClaim, hclaim, found_some, ok_bind, raises_bind,
    raises_refuse, refuse_eq_ok, hrecord, Performance.Passes]
  by_cases hmanage : Api.canManageCashAdvances env r.actorUserId claim.claimantId = true
  · simp [hmanage]
  · simp [hmanage, notClaimOwner]

theorem markClaimPaid_spares {r : Payout} (hclaim : σ.claims[r.claimId]? = some claim)
    (hlink : claim.workflowInstanceId = some j) (hinst : σ.instances[j]? = some inst)
    (hexec : ∀ v, version? inst.definitionVersionId = some v → ∀ amount,
      SparesAll (executeAction env.directory v.toVersion { inst with amount := amount }
        ((r.approval env).request env inst))) :
    SparesAll (Api.markClaimPaid env r σ) ↔ (Performance.markPaid r).Passes env σ claim := by
  have hrecord (hsee : maySeeClaim env σ claim r.actorUserId = true) :
      SparesAll (recordPayout env r σ) := by
    refine raises_bind.2 ⟨payable_spares r, fun paid _ => ?_⟩
    refine raises_bind.2 ⟨recordExternalEvent_spares _ _, fun σ₁ hrelay => ?_⟩
    simp only [recordExternalEvent, bind_eq_ok, pure_eq_ok] at hrelay
    obtain ⟨_, -, _, -, _, -, _, -, rfl⟩ := hrelay
    let after : Claim := { claim with
      payoutRef := some paid.1
      paidOn := some paid.2
      paidBy := some r.actorUserId }
    refine (approval_spares (r := r.approval env) after ?_ hlink ?_ rfl hexec).2 hsee
    · exact getElem?_modify_self _ hclaim
    · exact hinst
  simp only [Api.markClaimPaid, Api.getClaim, hclaim, found_some, ok_bind, raises_bind,
    raises_refuse, refuse_eq_ok, Performance.Passes]
  by_cases hgrant : Api.hasScopedGrant env σ claim r.actorUserId [fmsPerm] = true
  · simp [hgrant, hrecord (maySeeClaim_of_hasScopedGrant hlink hinst hgrant)]
  · simp [hgrant, Api.externalUpdateNotPermitted]

end

/-! ## The promise -/

/-- On every reachable claim in the workflow, in every office, a listed verb is refused to nobody for
who they are exactly when they pass the claim's own checks. -/
theorem listed_spares_iff (calls : List Call) (env : Env) (p : Performance) (claim : Claim)
    (hclaim : (runStore calls).claims[p.claimId]? = some claim)
    (hlisted : p.Listed env (runStore calls) claim) :
    SparesAll (p.run env (runStore calls)) ↔ p.Passes env (runStore calls) claim := by
  obtain ⟨j, hlink⟩ := Option.ne_none_iff_exists'.1 hlisted.1
  obtain ⟨inst, hinst, hp⟩ := placed_runStore calls hclaim hlink
  have hoffered := hlisted.offered hlink hinst hp
  cases p with
  | act r =>
      by_cases hknown : r.action ∈ claimActions
      · have hexec := hp.spares env (r.request env inst) r.now rfl hoffered
        have hinstance : (runStore calls).instanceOf claim = some inst := by
          rw [Store.instanceOf, hlink]
          exact hinst
        simp only [Performance.run, Performance.Passes, hknown, hinstance, true_imp_iff,
          Option.mem_some, forall_eq', claimAction_spares hclaim hlink hinst hknown hexec]
      · refine iff_of_true ?_ fun h => absurd h hknown
        rw [Performance.run, claimAction, refuse_of _ hknown, error_bind]
        simp [unsupportedClaimAction]
  | settle r =>
      exact settleClaim_spares hclaim hlink hinst
        (hp.spares env ((r.approval env).request env inst) r.now rfl hoffered)
  | markPaid r =>
      exact markClaimPaid_spares hclaim hlink hinst
        (hp.spares env ((r.approval env).request env inst) r.now rfl hoffered)

/-- Claim 0, a liquidation, waits for its first certification. -/
def firstDesk : Store := runStore (inOffice (submitTrip 2000))

/-- The user signs the certification. -/
def certifies (actor : ℕ) : Performance :=
  .act { claimId := 0, action := .approve, actorUserId := actor }

/-- The approver holds the certification and the claim approval, and is not refused. -/
theorem approver_not_refused : SparesAll ((certifies 2).run office firstDesk) := by
  obtain ⟨claim, hclaim, htest⟩ := exists_eq_some (o := firstDesk.claims[0]?)
    (fun claim => (certifies 2).Listed office firstDesk claim ∧
      maySeeClaim office firstDesk claim 2) (by decide +kernel)
  obtain ⟨hlisted, hsee⟩ := of_decide_eq_true htest
  refine (listed_spares_iff (inOffice (submitTrip 2000)) office (certifies 2) claim hclaim
    hlisted).2 fun _ => ⟨hsee, fun inst _ hverb => ?_⟩
  rcases hverb with hverb | hverb <;> cases hverb

/-- The office with a director, user 4, who holds the certification and not the claim approval. -/
def directorate : Env := { office with
  directory := { office.directory with
    users := office.directory.users ++ [{ id := 4, staffId := none }]
    grants := office.directory.grants ++
      [{ userId := 4, permission := certifyPerm, orgUnitId := some 1 }] } }

/-- The director is offered the certification and told that only the claimant may sign it. -/
theorem director_refused : ¬ ∀ (calls : List Call) (env : Env) (p : Performance) (claim : Claim),
    (runStore calls).claims[p.claimId]? = some claim → p.Listed env (runStore calls) claim →
    SparesAll (p.run env (runStore calls)) := by
  intro h
  obtain ⟨claim, hclaim, htest⟩ := exists_eq_some (o := firstDesk.claims[0]?)
    (fun claim => (certifies 4).Listed directorate firstDesk claim) (by decide +kernel)
  have hspared := h (inOffice (submitTrip 2000)) directorate (certifies 4) claim hclaim
    (of_decide_eq_true htest)
  have hrefused : (certifies 4).run directorate firstDesk = .error notClaimOwner := by
    decide +kernel
  exact hspared notClaimOwner hrefused (.inl rfl)

end OfficeConnect.Reimbursement
