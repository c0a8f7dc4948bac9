import OfficeConnect.Reimbursement.Standing

/-!
# Replayed actions

A claim action whose key already labels an event returns that event from the engine and changes
nothing there.  Around it the module still mirrors the event onto the claim and, for a
resubmission, prices the claim again; so a replay is a no-op exactly when it is no resubmission and
the event led to the status the claim shows.
-/

namespace OfficeConnect.Reimbursement

open Lib Workflow

/-! ## What a replay must leave alone -/

/-- The columns of a claim that a replay must not touch. -/
def Claim.face (c : Claim) :
    Status × Option HolderKind × Option ℕ × Option Time × Option String × Option Totals :=
  (c.status, c.holderKind, c.holderId, c.holderSince, c.nextAction, c.totals)

/-- The columns of an instance that a replay must not touch, its step rows included. -/
def instanceFace (inst : Instance) : ℕ × Option ℤ × ℕ × ℕ × List Step :=
  (inst.currentStateId, inst.amount, inst.rowVersion, inst.revisionNo, inst.steps)

/-- Claim `i`, its instance `j` and the logs are as they were. -/
structure Unchanged (σ σ' : Store) (i j : ℕ) : Prop where
  claim : σ'.claims[i]?.map Claim.face = σ.claims[i]?.map Claim.face
  inst : σ'.instances[j]?.map instanceFace = σ.instances[j]?.map instanceFace
  items : σ'.items = σ.items
  returnEvents : σ'.returnEvents = σ.returnEvents
  history : σ'.history = σ.history

theorem Unchanged.refl (σ : Store) (i j : ℕ) : Unchanged σ σ i j := ⟨rfl, rfl, rfl, rfl, rfl⟩

section

variable {env : Env} {σ σ' : Store} {r : ActionRequest} {claim : Claim} {j : ℕ} {inst : Instance}
  {e : Event} {kind : Kind} {status : Status} {dest : State Status} {due : Time}

/-- The rows an event's state could be stamped with are dated already. -/
theorem Placed.stamped_eq (h : Placed kind status inst) (hdest : state? dest.id = some dest) :
    stamped kind dest due inst = inst := by
  unfold stamped
  split_ifs with hskip
  · rfl
  · rw [not_or, external_vocabulary, List.mem_singleton] at hskip
    have hrow : ∀ s ∈ inst.steps, (if s.At dest.id inst.revisionNo ∧ s.status = .active ∧
        s.slaDueAt = none then { s with slaDueAt := some due } else s) = s := by
      intro s hs
      refine if_neg fun ⟨hat, hactive, hnone⟩ => ?_
      exact h.dated s hs hactive dest (by rw [hat.1]; exact hdest) hskip.2 hnone
    have hsteps := (List.map_congr_left (g := id) hrow).trans (List.map_id _)
    unfold Workflow.stampSla
    rw [hsteps]

/-! ## One replayed action -/

theorem ActionRequest.key_of_replayed (h : replayed inst r.idempotencyKey = some e) :
    r.key inst = r.idempotencyKey := by
  refine if_neg fun hblank => ?_
  rw [replayed, if_pos hblank] at h
  cases h

/-- What a returning action with a used key does: it prepares, and mirrors the old event. -/
theorem claimAction_replayed (hok : claimAction env r σ = .ok σ')
    (hclaim : σ.claims[r.claimId]? = some claim) (hlink : claim.workflowInstanceId = some j)
    (hinst : σ.instances[j]? = some inst) (hreplay : replayed inst r.idempotencyKey = some e) :
    ∃ σ₁ priced amount v dest, Acted env r σ claim j inst σ₁ priced amount v e
      { inst with amount := amount } dest [] σ' := by
  obtain ⟨claim', j', inst', σ₁, priced, amount, v, e', inst₁, dest, returns, ha⟩ :=
    claimAction_acted hok
  obtain rfl := Option.some.inj (hclaim.symm.trans ha.row)
  obtain rfl := Option.some.inj (hlink.symm.trans ha.link)
  obtain rfl := Option.some.inj (hinst.symm.trans ha.live)
  have hkey := r.key_of_replayed hreplay
  obtain ⟨he, hlabel⟩ := replayed_mem hreplay
  -- the key labels an event, so the engine returns it and nothing is recorded
  have hexec := ha.performed.exec
  have hreplay₁ : replayed { inst with amount := amount }
      (r.request env inst).idempotencyKey = some e := by
    change replayed inst (r.key inst) = some e
    rw [hkey]
    exact hreplay
  rw [executeAction_eq_ok.2 (.inl ⟨hreplay₁, rfl⟩)] at hexec
  obtain ⟨rfl, rfl⟩ := Prod.mk.inj (Except.ok.inj hexec)
  obtain rfl : returns = [] := by
    have hused : inst.events.any (·.idempotencyKey = r.key inst) = true := by
      rw [List.any_eq_true]
      exact ⟨e, he, by simp [hkey, hlabel]⟩
    simpa [returnRecord, hused] using ha.recorded.symm
  exact ⟨σ₁, priced, amount, v, dest, ha⟩

/-- A replay that is no resubmission and leads to the claim's own status changes nothing at all. -/
theorem replay_eq_self (hp : Placed claim.kind claim.status inst)
    (hok : claimAction env r σ = .ok σ') (hclaim : σ.claims[r.claimId]? = some claim)
    (hlink : claim.workflowInstanceId = some j) (hinst : σ.instances[j]? = some inst)
    (hreplay : replayed inst r.idempotencyKey = some e) (hdest : eventState e = .ok dest)
    (hsame : dest.code = claim.status) (hverb : r.action ≠ .resubmit) : σ' = σ := by
  obtain ⟨σ₁, priced, amount, v, dest', ha⟩ :=
    claimAction_replayed hok hclaim hlink hinst hreplay
  have hperf := ha.performed
  obtain rfl := Except.ok.inj (hdest.symm.trans hperf.target)
  obtain rfl : σ₁ = σ := by
    rcases prepareAction_eq_ok.1 ha.prepared with ⟨hresubmit, -⟩ | ⟨-, hσ, -⟩
    · exact absurd hresubmit hverb
    · exact hσ
  obtain rfl := Option.some.inj (hclaim.symm.trans hperf.row)
  have hamount : inst = { inst with amount := amount } :=
    Option.some.inj (hinst.symm.trans hperf.live)
  have htarget : state? dest.id = some dest := by
    obtain ⟨id, -, hstate⟩ := hp.event_target (replayed_mem hreplay).1 hdest
    rw [Version.state?_id hstate]
    exact state?_chain claim.kind hstate
  obtain ⟨claims, history, hmirror, rfl⟩ := hperf.result
  rcases hmirror with ⟨-, rfl, rfl⟩ | ⟨hne, -⟩
  · rw [← hamount, hp.stamped_eq htarget, modify_const_self hinst, List.append_nil]
  · exact absurd hsame hne

/-- A resubmission prices the claim again, at the clock of the call. -/
theorem Acted.repriced {σ₁ : Store} {priced : Claim} {amount : Option ℤ} {v : Published Status}
    {inst' : Instance} {returns : List ReturnEvent}
    (h : Acted env r σ claim j inst σ₁ priced amount v e inst' dest returns σ')
    (hverb : r.action = .resubmit) : ∃ t, priced.totals = some t ∧ t.computedAt = env.utcNow := by
  rcases prepareAction_eq_ok.1 h.prepared with ⟨-, hrefresh⟩ | ⟨hne, -⟩
  · obtain ⟨σ₂, claim₂, htotals, hclaim₂, rfl⟩ := refreshForResubmit_eq_ok hrefresh
    obtain ⟨claim₀, result, hclaim₀, -, rfl⟩ := computeClaimTotals_eq_ok htotals
    have hrow := h.performed.row
    change (σ.claims.modify r.claimId _)[r.claimId]? = some priced at hrow
    rw [getElem?_modify_self _ hclaim₀] at hrow
    obtain rfl := Option.some.inj hrow
    exact ⟨_, rfl, rfl⟩
  · exact absurd hverb hne

end

/-- A returning claim action with a used key is a no-op exactly when it is no resubmission and the
event its key labels led to the status the claim shows. -/
theorem replay_unchanged_iff (calls : List Call) (env : Env) (r : ActionRequest) (σ' : Store)
    (claim : Claim) (j : ℕ) (inst : Instance) (e : Event)
    (hclaim : (runStore calls).claims[r.claimId]? = some claim)
    (hlink : claim.workflowInstanceId = some j)
    (hinst : (runStore calls).instances[j]? = some inst)
    (hreplay : replayed inst r.idempotencyKey = some e)
    (hclock : r.action = .resubmit → ∀ t, claim.totals = some t → t.computedAt < env.utcNow)
    (hok : claimAction env r (runStore calls) = .ok σ') :
    Unchanged (runStore calls) σ' r.claimId j ↔
      r.action ≠ .resubmit ∧ ∃ dest, eventState e = .ok dest ∧ dest.code = claim.status := by
  obtain ⟨inst', hinst', hp⟩ := placed_runStore calls hclaim hlink
  obtain rfl := Option.some.inj (hinst.symm.trans hinst')
  obtain ⟨σ₁, priced, amount, v, dest, ha⟩ := claimAction_replayed hok hclaim hlink hinst hreplay
  have hdest := ha.performed.target
  constructor
  · intro h
    obtain ⟨after, hafter, hstatus, hbody⟩ := ha.performed.claim_after
    have htotals := congrArg Claim.totals hbody
    have hface : after.face = claim.face := by
      simpa [hafter, hclaim] using h.claim
    simp only [Claim.face, Prod.mk.injEq] at hface
    refine ⟨fun hverb => ?_, dest, hdest, hstatus.symm.trans hface.1⟩
    obtain ⟨t, ht, htime⟩ := ha.repriced hverb
    have hlate := hclock hverb t (hface.2.2.2.2.2.symm.trans (htotals.trans ht))
    rw [htime] at hlate
    exact absurd hlate (lt_irrefl _)
  · rintro ⟨hverb, dest', hdest', hsame⟩
    rw [replay_eq_self hp hok hclaim hlink hinst hreplay hdest' hsame hverb]
    exact Unchanged.refl _ _ _

/-- The first approver signs under a key and retries at once. -/
def keyedTrip : List Call := inOffice (submitTrip 1000 ++ [.act (firstSignature 0)])

theorem keyedTrip_unchanged : ∃ σ' claim inst e,
    (runStore keyedTrip).claims[0]? = some claim ∧ claim.workflowInstanceId = some 0 ∧
    (runStore keyedTrip).instances[0]? = some inst ∧ replayed inst (some "k1") = some e ∧
    claimAction office (firstSignature 0) (runStore keyedTrip) = .ok σ' ∧
    Unchanged (runStore keyedTrip) σ' 0 0 := by
  obtain ⟨claim, hclaim, hrow⟩ := exists_eq_some
    (o := (runStore keyedTrip).claims[0]?)
    (fun c => c.workflowInstanceId = some 0 ∧ c.status = .certifyC) (by decide +kernel)
  obtain ⟨inst, hinst, hlog⟩ := exists_eq_some
    (o := (runStore keyedTrip).instances[0]?)
    (fun inst => (replayed inst (some "k1")).any fun e =>
      (eventState e).toOption.any (·.code = .certifyC)) (by decide +kernel)
  obtain ⟨e, hreplay, hevent⟩ := exists_eq_some _ hlog
  obtain ⟨dest, hdest, hcode⟩ := exists_eq_ok _ hevent
  obtain ⟨σ', hok, -⟩ := exists_eq_ok
    (x := claimAction office (firstSignature 0) (runStore keyedTrip)) (fun _ => true)
    (by decide +kernel)
  simp only [decide_eq_true_eq] at hrow hcode
  refine ⟨σ', claim, inst, e, hclaim, hrow.1, hinst, hreplay, hok, ?_⟩
  exact (replay_unchanged_iff keyedTrip office (firstSignature 0) σ' claim 0 inst e hclaim hrow.1
    hinst hreplay (by simp [firstSignature]) hok).2 ⟨by simp [firstSignature], dest, hdest,
      hcode.trans hrow.2.symm⟩

/-- The same retry after the claim was settled. -/
def lateRetry : List Call := keyedTrip ++ inOffice [
  .act { claimId := 0, action := .approve, actorUserId := 3, comment := some "signed" },
  .settle { claimId := 0, actorUserId := 3 }]

/-- The retry returns, and the settled claim shows `certify_c` again. -/
theorem lateRetry_changes : ∃ σ' claim inst e,
    (runStore lateRetry).claims[0]? = some claim ∧ claim.workflowInstanceId = some 0 ∧
    (runStore lateRetry).instances[0]? = some inst ∧ replayed inst (some "k1") = some e ∧
    claimAction office (firstSignature 0) (runStore lateRetry) = .ok σ' ∧
    ¬ Unchanged (runStore lateRetry) σ' 0 0 := by
  obtain ⟨claim, hclaim, hrow⟩ := exists_eq_some
    (o := (runStore lateRetry).claims[0]?)
    (fun c => c.workflowInstanceId = some 0 ∧ c.status = .settled) (by decide +kernel)
  obtain ⟨inst, hinst, hlog⟩ := exists_eq_some (o := (runStore lateRetry).instances[0]?)
    (fun inst => (replayed inst (some "k1")).isSome) (by decide +kernel)
  obtain ⟨e, hreplay⟩ := Option.isSome_iff_exists.1 hlog
  obtain ⟨σ', hok, hafter⟩ := exists_eq_ok
    (x := claimAction office (firstSignature 0) (runStore lateRetry))
    (fun σ' => σ'.claims[0]?.any (·.status = .certifyC)) (by decide +kernel)
  obtain ⟨after, hafter, hstatus⟩ := exists_eq_some _ hafter
  simp only [decide_eq_true_eq] at hrow hstatus
  refine ⟨σ', claim, inst, e, hclaim, hrow.1, hinst, hreplay, hok, fun h => ?_⟩
  have hface : after.face = claim.face := by simpa [hafter, hclaim] using h.claim
  have hsame : after.status = claim.status := congrArg Prod.fst hface
  rw [hstatus, hrow.2] at hsame
  cases hsame

end OfficeConnect.Reimbursement
