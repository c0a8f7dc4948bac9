import OfficeConnect.Lib.Session
import OfficeConnect.Reimbursement.Api
import OfficeConnect.Reimbursement.InPlace

/-!
# Submitting and cancelling one draft at once

Both routes lock the claim before they check it, so each checks under the lock.  The submit route
has read the claim before that, to pick between submission and resubmission, and its session keeps
what it read: the check under the lock is made on that copy.  Where no other request commits between
the read and the lock the requests might as well have run one after another, and then one of them
wins; where one does, the copy still shows a draft and the claim is submitted again.
-/

namespace OfficeConnect.Reimbursement

open Lib Workflow Session

/-! ## The two routes -/

def Trip.flush (copy edited row : Trip) : Trip where
  activityId := column copy.activityId edited.activityId row.activityId
  dpoNo := column copy.dpoNo edited.dpoNo row.dpoNo
  dpoDate := column copy.dpoDate edited.dpoDate row.dpoDate
  dpoDocumentId := column copy.dpoDocumentId edited.dpoDocumentId row.dpoDocumentId
  purpose := column copy.purpose edited.purpose row.purpose
  destination := column copy.destination edited.destination row.destination
  destinationRegionCode :=
    column copy.destinationRegionCode edited.destinationRegionCode row.destinationRegionCode
  dateDepart := column copy.dateDepart edited.dateDepart row.dateDepart
  dateReturn := column copy.dateReturn edited.dateReturn row.dateReturn
  isWithin50km := column copy.isWithin50km edited.isWithin50km row.isWithin50km
  overnightStay := column copy.overnightStay edited.overnightStay row.overnightStay
  fundSource := column copy.fundSource edited.fundSource row.fundSource
  otherTotal := column copy.otherTotal edited.otherTotal row.otherTotal

/-- The `UPDATE` of an edited copy, column by column, onto the row as it stands. -/
def Claim.flush (copy edited row : Claim) : Claim where
  kind := column copy.kind edited.kind row.kind
  claimantId := column copy.claimantId edited.claimantId row.claimantId
  isJoCos := column copy.isJoCos edited.isJoCos row.isJoCos
  status := column copy.status edited.status row.status
  holderKind := column copy.holderKind edited.holderKind row.holderKind
  holderId := column copy.holderId edited.holderId row.holderId
  holderSince := column copy.holderSince edited.holderSince row.holderSince
  nextAction := column copy.nextAction edited.nextAction row.nextAction
  refNo := column copy.refNo edited.refNo row.refNo
  workflowInstanceId :=
    column copy.workflowInstanceId edited.workflowInstanceId row.workflowInstanceId
  cashAdvanceId := column copy.cashAdvanceId edited.cashAdvanceId row.cashAdvanceId
  spawnedFromClaimId :=
    column copy.spawnedFromClaimId edited.spawnedFromClaimId row.spawnedFromClaimId
  liquidationDeadline :=
    column copy.liquidationDeadline edited.liquidationDeadline row.liquidationDeadline
  trip := copy.trip.flush edited.trip row.trip
  totals := column copy.totals edited.totals row.totals
  payoutRef := column copy.payoutRef edited.payoutRef row.payoutRef
  paidOn := column copy.paidOn edited.paidOn row.paidOn
  paidBy := column copy.paidBy edited.paidBy row.paidBy

inductive ClaimRequest where
  | submit (actor : ℕ)
  | cancel (actor : ℕ) (comment : String)
deriving DecidableEq, Repr

def ClaimRequest.act (env : Env) (i : ℕ) : ClaimRequest → Store → Except Raised Store
  | .submit actor => Api.submitClaim env i actor
  | .cancel actor comment => Api.cancelClaim env i actor comment

def ClaimRequest.preloads : ClaimRequest → Bool
  | .submit _ => true
  | .cancel _ _ => false

/-- A request acts in a session whose copy of claim `i` is `copy`; every other row is read as it
stands. -/
def actOn (i : ℕ) (copy : Claim) (act : Store → Except Raised Store) (σ : Store) :
    Except Raised Store := do
  let σ' ← act (σ.setClaim i fun _ => copy)
  return σ'.setClaim i fun edited =>
    (σ.claims[i]?.map fun row => copy.flush edited row).getD edited

/-- How a request works on claim `i`. -/
def ClaimRequest.plan (env : Env) (i : ℕ) (r : ClaimRequest) :
    Plan Store (Option Claim) Claim Raised where
  preloads := r.preloads
  locks := true
  check copy := found copy claimNotFound
  write copy := actOn i copy (r.act env i)

section

variable {ι : Type*} [DecidableEq ι] (env : ι → Env) (request : ι → ClaimRequest) (i : ℕ)

/-- One move of the requests on claim `i`. -/
def claimStep : ι × Move → Db ι Store (Option Claim) Claim Raised →
    Except Unit (Db ι Store (Option Claim) Claim Raised) :=
  step (fun σ => σ.claims[i]?) fun j => (request j).plan (env j) i

/-- No request locks the claim with a copy that is out of date. -/
def LocksCurrent : Db ι Store (Option Claim) Claim Raised → ι × Move → Prop :=
  UpToDate (fun σ => σ.claims[i]?) fun _ => True

instance (s : Db ι Store (Option Claim) Claim Raised) (m : ι × Move) :
    Decidable (LocksCurrent i s m) :=
  inferInstanceAs (Decidable (UpToDate (fun σ : Store => σ.claims[i]?) (fun _ => True) s m))

end

/-! ## The outcome -/

/-- A draft that was never submitted. -/
structure Claim.Unsubmitted (c : Claim) : Prop where
  draft : c.status = .draft
  unlinked : c.workflowInstanceId = none
  unnumbered : c.refNo = none

/-- Claim `i` has entered the workflow: one instance more, the claim's, and one number more, the
claim's. -/
structure Enrolled (i : ℕ) (σ₀ σ : Store) : Prop where
  claim : ∃ claim, σ.claims[i]? = some claim ∧
    claim.status ∉ [.draft, .returned, .cancelled] ∧
    claim.workflowInstanceId = some σ₀.instances.length ∧ ∃ scope year,
      (claim.refNo, σ.sequences) =
        (some (allocateReferenceNumber σ₀.sequences scope year).1,
          (allocateReferenceNumber σ₀.sequences scope year).2)
  instances : σ.instances.length = σ₀.instances.length + 1

/-- Claim `i` is cancelled: no instance and no number more. -/
structure Dropped (i : ℕ) (σ₀ σ : Store) : Prop where
  claim : ∃ claim, σ.claims[i]? = some claim ∧ claim.status = .cancelled ∧
    claim.workflowInstanceId = none ∧ claim.refNo = none
  instances : σ.instances = σ₀.instances
  sequences : σ.sequences = σ₀.sequences

/-- What a request that commits on a draft does. -/
def ClaimRequest.Outcome (i : ℕ) (σ₀ σ : Store) : ClaimRequest → Prop
  | .submit _ => Enrolled i σ₀ σ
  | .cancel _ _ => Dropped i σ₀ σ

/-- The answers and the store are those of the requests run one after another, each once; at most
one commits, and the store shows that one and nothing else. -/
structure Atomic {ι : Type*} (env : ι → Env) (request : ι → ClaimRequest) (i : ℕ) (σ₀ : Store)
    (s : Db ι Store (Option Claim) Claim Raised) : Prop where
  serial : Replays (fun σ => σ.claims[i]?) (fun j => (request j).plan (env j) i) σ₀ s.answers s.row
  once : (s.answers.map (·.1)).Nodup
  outcome : (committed s.answers = [] ∧ s.row = σ₀) ∨
    ∃ j, committed s.answers = [j] ∧ (request j).Outcome i σ₀ s.row

theorem Atomic.committed_le {ι : Type*} {env : ι → Env} {request : ι → ClaimRequest} {i : ℕ}
    {σ₀ : Store} {s : Db ι Store (Option Claim) Claim Raised} (h : Atomic env request i σ₀ s) :
    (committed s.answers).length ≤ 1 := by
  rcases h.outcome with ⟨hnone, -⟩ | ⟨j, hone, -⟩
  · simp [hnone]
  · simp [hone]

/-! ## One request -/

section

variable {env : Env} {i : ℕ} {σ σ₁ σ' : Store} {copy claim : Claim}

theorem Claim.flush_self (copy edited : Claim) : copy.flush edited copy = edited := by
  simp [Claim.flush, Trip.flush]

/-- A request whose copy is the row acts on the store as it stands. -/
theorem actOn_fresh {act : Store → Except Raised Store} (hrow : σ.claims[i]? = some copy) :
    actOn i copy act σ = act σ := by
  have hview : (σ.setClaim i fun _ => copy) = σ := by
    simp [Store.setClaim, modify_const_self hrow]
  have hflush : (fun edited => (σ.claims[i]?.map fun row => copy.flush edited row).getD edited) =
      id := by
    funext edited
    simp [hrow, Claim.flush_self]
  rw [actOn, hview, hflush]
  cases act σ with
  | error e => rfl
  | ok σ' =>
      refine congrArg Except.ok ?_
      simp [Store.setClaim, List.modify_id]

/-- Run alone, a request is its route. -/
theorem serial_eq_ok {ι : Type*} {env : ι → Env} {request : ι → ClaimRequest} {j : ι}
    (h : serial (fun σ => σ.claims[i]?) (fun j => (request j).plan (env j) i) j σ = .ok σ') :
    (request j).act (env j) i σ = .ok σ' := by
  simp only [serial, ClaimRequest.plan, bind_eq_ok, found_eq_ok] at h
  obtain ⟨copy, hrow, hact⟩ := h
  rwa [actOn_fresh hrow] at hact

theorem computeClaimTotals_sequences {other : Option ℚ}
    (h : computeClaimTotals env σ i other = .ok σ') : σ'.sequences = σ.sequences := by
  obtain ⟨claim, result, -, -, rfl⟩ := computeClaimTotals_eq_ok h
  rfl

/-- A submission enters the gates of the chain. -/
theorem submit_edge {kind : Kind} {status : Status} (h : Edge kind .submit .draft status) :
    status ∉ [.draft, .returned, .cancelled] := by
  have hall : ∀ k, ∀ t ∈ (chain k).transitions, t.action = .submit →
      ∀ s ∈ state? t.toStateId, s.code ∉ [.draft, .returned, .cancelled] := by
    intro k
    cases k <;> decide
  obtain ⟨t, ht, haction, -, -, s, hs, -, rfl⟩ := h
  exact hall kind t ht haction s hs

theorem enrolled_submitClaim {r : Submit} (hrow : σ.claims[r.claimId]? = some claim)
    (hnew : claim.Unsubmitted) (h : submitClaim env r σ = .ok σ') : Enrolled r.claimId σ σ' := by
  obtain ⟨before, priced, packet, inst, v, e, inst', dest, entered, hs⟩ := submitClaim_eq_ok h
  obtain rfl := Option.some.inj (hrow.symm.trans hs.row)
  have hidle : Idle σ packet := idle_preparePacket hs.prepared
  obtain ⟨σ₁, htotals, hpriced, hpacket⟩ := preparePacket_eq_ok hs.prepared
  change packet = _ at hpacket
  have hsequences : packet.sequences = σ.sequences := by
    rw [hpacket]
    exact (computeClaimTotals_sequences htotals :)
  have hunnumbered : priced.refNo = none := by
    obtain ⟨before', hbefore', hkeys⟩ := (idle_computeClaimTotals htotals).exists_keys hpriced
    obtain rfl := Option.some.inj (hrow.symm.trans hbefore')
    exact (congrArg Prod.fst hkeys).symm.trans hnew.unnumbered
  have hedge : Edge priced.kind .submit .draft dest.code := by
    obtain ⟨initial, start, hinit, rfl⟩ := hs.started
    have hrun : Engaged { env := env, op := .submit r } (newInstance (chain priced.kind).toVersion
        initial start (env.at r.now)) start.amount _ v e inst' dest :=
      ⟨hs.performed.version, hs.performed.exec, hs.performed.target⟩
    exact (hrun.submits 0 hinit).2
  obtain ⟨after, hafter, hstatus, hbody⟩ := hs.performed.claim_after
  obtain ⟨claims, history, -, hσ'⟩ := hs.performed.result
  have hlink := congrArg Claim.workflowInstanceId hbody
  have hnumber := congrArg Claim.refNo hbody
  refine ⟨⟨after, hafter, ?_, ?_, refScope priced.kind, year (manilaDate (env.at r.now)), ?_⟩, ?_⟩
  · rw [hstatus]
    exact submit_edge hedge
  · rw [← hidle.instances]
    exact hlink
  · have hentry : entryNumber packet.sequences priced (env.at r.now) =
        allocateReferenceNumber σ.sequences (refScope priced.kind)
          (year (manilaDate (env.at r.now))) := by
      rw [entryNumber, hunnumbered, hsequences]
    rw [← hentry, hσ', hs.store]
    exact congrArg (·, _) hnumber
  · rw [hσ', hs.store, ← hidle.instances]
    simp

theorem cancelDraftClaim_eq_ok {r : CancelDraft} (h : cancelDraftClaim env r σ = .ok σ') :
    ∃ claim, σ.claims[r.claimId]? = some claim ∧ claim.workflowInstanceId = none ∧
      claim.status ≠ .cancelled ∧ σ'.instances = σ.instances ∧ σ'.sequences = σ.sequences ∧
      σ'.claims[r.claimId]? = some { claim with
        status := .cancelled
        holderKind := none
        holderId := none
        holderSince := none
        nextAction := none } := by
  simp only [cancelDraftClaim, bind_eq_ok, refuse_eq_ok, lockedClaim_eq_ok, flushClaims_eq_ok,
    not_not] at h
  obtain ⟨claim, hclaim, -, -, -, hlink, -, -, -, hlive, rfl, -⟩ := h
  exact ⟨claim, hclaim, hlink, hlive, rfl, rfl, getElem?_modify_self _ hclaim⟩

/-- On a draft the first request to commit decides. -/
theorem outcome_of_act {r : ClaimRequest} (hrow : σ.claims[i]? = some claim)
    (hnew : claim.Unsubmitted) (h : r.act env i σ = .ok σ') : r.Outcome i σ σ' := by
  cases r with
  | submit actor =>
      simp only [ClaimRequest.act, Api.submitClaim, Api.getClaim, bind_eq_ok, found_eq_ok, hrow,
        Option.some.injEq, exists_eq_left', hnew.draft, reduceCtorEq, if_false] at h
      exact enrolled_submitClaim hrow hnew h
  | cancel actor comment =>
      obtain ⟨before, hbefore, -, -, hinstances, hsequences, hafter⟩ := cancelDraftClaim_eq_ok h
      obtain rfl := Option.some.inj (hrow.symm.trans hbefore)
      exact ⟨⟨_, hafter, rfl, hnew.unlinked, hnew.unnumbered⟩, hinstances, hsequences⟩

/-- A claim that is in the workflow or cancelled. -/
def Decided (i : ℕ) (σ : Store) : Prop :=
  ∃ claim, σ.claims[i]? = some claim ∧ claim.status ≠ .returned ∧
    (claim.workflowInstanceId ≠ none ∨ claim.status = .cancelled)

theorem ClaimRequest.Outcome.decided {r : ClaimRequest} (h : r.Outcome i σ σ') : Decided i σ' := by
  cases r with
  | submit actor =>
      obtain ⟨claim, hrow, hstatus, hlink, -⟩ := Enrolled.claim h
      refine ⟨claim, hrow, fun hreturned => hstatus (by simp [hreturned]), .inl ?_⟩
      simp [hlink]
  | cancel actor comment =>
      obtain ⟨claim, hrow, hstatus, -⟩ := Dropped.claim h
      exact ⟨claim, hrow, by simp [hstatus], .inr hstatus⟩

/-- Nothing is submitted or cancelled twice. -/
theorem Decided.refuses {r : ClaimRequest} (h : Decided i σ) : r.act env i σ ≠ .ok σ' := by
  obtain ⟨claim, hrow, hreturned, hdecided⟩ := h
  intro hok
  have hopen : claim.workflowInstanceId = none ∧ claim.status ≠ .cancelled := by
    cases r with
    | submit actor =>
        simp only [ClaimRequest.act, Api.submitClaim, Api.getClaim, bind_eq_ok, found_eq_ok, hrow,
          Option.some.injEq, exists_eq_left', hreturned, if_false] at hok
        obtain ⟨before, _, _, _, _, _, _, _, _, hs⟩ := submitClaim_eq_ok hok
        obtain rfl := Option.some.inj (hrow.symm.trans hs.row)
        obtain ⟨unit, hsub⟩ := hs.allowed
        exact submittable_eq_ok hsub
    | cancel actor comment =>
        obtain ⟨before, hbefore, hlink, hlive, -⟩ := cancelDraftClaim_eq_ok hok
        obtain rfl := Option.some.inj (hrow.symm.trans hbefore)
        exact ⟨hlink, hlive⟩
  rcases hdecided with hlink | hcancelled
  · exact hlink hopen.1
  · exact hopen.2 hcancelled

end

/-! ## Runs -/

section

variable {ι : Type*} {env : ι → Env} {request : ι → ClaimRequest} {i : ℕ} {σ₀ σ : Store}

/-- Of requests on a draft run one after another, one commits at most. -/
theorem outcome_of_replays {answers : List (ι × Option Raised)} {claim : Claim}
    (hrow : σ₀.claims[i]? = some claim) (hnew : claim.Unsubmitted)
    (h : Replays (fun σ => σ.claims[i]?) (fun j => (request j).plan (env j) i) σ₀ answers σ) :
    (committed answers = [] ∧ σ = σ₀) ∨
      ∃ j, committed answers = [j] ∧ (request j).Outcome i σ₀ σ := by
  induction h with
  | nil => exact .inl ⟨rfl, rfl⟩
  | commit h hok ih =>
      have hact := serial_eq_ok hok
      rcases ih with ⟨hnone, rfl⟩ | ⟨j, -, hout⟩
      · refine .inr ⟨_, ?_, outcome_of_act hrow hnew hact⟩
        rw [committed_commit, hnone, List.nil_append]
      · exact absurd hact hout.decided.refuses
  | refuse h hrefused ih =>
      rw [committed_refuse]
      exact ih

/-- In every interleaving of submissions and cancellations of one draft in which no request locks
the claim with a copy that is out of date, the outcome is that of a serial order: one request
commits at most, and the claim has the one instance and the one number of its submission, or is
cancelled and has neither. -/
theorem atomic_run [DecidableEq ι] (env : ι → Env) (request : ι → ClaimRequest) (i : ℕ) (σ₀ : Store)
    (claim : Claim) (hrow : σ₀.claims[i]? = some claim) (hnew : claim.Unsubmitted)
    (moves : List (ι × Move))
    (h : Conforms (claimStep env request i) (LocksCurrent i) { row := σ₀ } moves) :
    Atomic env request i σ₀ (run (claimStep env request i) { row := σ₀ } moves) := by
  have hserial := replays_run (fun j => (request j).plan (env j) i) (fun _ => rfl) h
  exact ⟨hserial, answers_nodup σ₀ moves, outcome_of_replays hrow hnew hserial⟩

end

/-- Claim 0 is a filled draft of user 1. -/
def draftedTrip : Store := runStore (inOffice (.createDraft 1 .reimbursement none :: fillTrip 0))

/-- Two requests at once. -/
def atOnce (first second : ClaimRequest) : Bool → ClaimRequest
  | false => first
  | true => second

/-- The claim is locked, checked, written and committed in one go. -/
def wholly (j : Bool) : List (Bool × Move) :=
  [(j, .lock), (j, .check), (j, .write), (j, .commit)]

/-- The second submission reads the claim after the first has committed. -/
def inTurn : List (Bool × Move) := (false, .load) :: wholly false ++ (true, .load) :: wholly true

/-- Both requests read the claim before the first commits. -/
def atTheSameTime : List (Bool × Move) :=
  (false, .load) :: (true, .load) :: wholly false ++ wholly true

/-- The cancellation runs while the submission waits with what it has read. -/
def cancelledMeanwhile : List (Bool × Move) := (false, .load) :: wholly true ++ wholly false

/-- A second submission that reads the claim in time is refused. -/
theorem inTurn_atomic :
    let request := atOnce (.submit 1) (.submit 1)
    let race := run (claimStep (fun _ => office) request 0) { row := draftedTrip } inTurn
    race.answers = [(false, none), (true, some claimAlreadySubmitted)] ∧
      Atomic (fun _ => office) request 0 draftedTrip race := by
  refine ⟨by decide +kernel, ?_⟩
  obtain ⟨claim, hrow, hnew⟩ := exists_eq_some (o := draftedTrip.claims[0]?)
    (fun c => c.status = .draft ∧ c.workflowInstanceId = none ∧ c.refNo = none) (by decide +kernel)
  obtain ⟨hdraft, hlink, hnumber⟩ := of_decide_eq_true hnew
  exact atomic_run _ _ 0 draftedTrip claim hrow ⟨hdraft, hlink, hnumber⟩ inTurn (by decide +kernel)

/-- Two submissions that both read the draft start two instances and burn two numbers; a submission
that read the draft before it was cancelled submits the cancelled claim. -/
theorem atTheSameTime_not_atomic :
    let twice := atOnce (.submit 1) (.submit 1)
    let revived := atOnce (.submit 1) (.cancel 1 "wrong trip")
    let race := fun request => run (claimStep (fun _ => office) request 0) { row := draftedTrip }
    (((race twice atTheSameTime).row.instances.length = 2 ∧
        (race twice atTheSameTime).row.sequences.map (·.lastValue) = [2]) ∧
      ¬ Atomic (fun _ => office) twice 0 draftedTrip (race twice atTheSameTime)) ∧
    (((race revived cancelledMeanwhile).row.claims.map (·.status) = [.divisionApproval] ∧
        (race revived cancelledMeanwhile).row.history.map (·.toStatus) =
          [.draft, .cancelled, .divisionApproval]) ∧
      ¬ Atomic (fun _ => office) revived 0 draftedTrip (race revived cancelledMeanwhile)) := by
  refine ⟨⟨by decide +kernel, fun h => ?_⟩, by decide +kernel, fun h => ?_⟩
  · exact absurd h.committed_le (by decide +kernel)
  · exact absurd h.committed_le (by decide +kernel)

end OfficeConnect.Reimbursement
