import OfficeConnect.Reimbursement.Docket

/-!
# The log of returns

Only a return writes to it: one row, with the reasons as they were named.  They were looked up in
the catalog without their repetitions, and stored with them.
-/

namespace OfficeConnect.Reimbursement

open Lib Workflow

section

variable {env : Env} {σ σ' : Store} {i : ℕ} {now : Time} {c : Call}

/-! ## Calls that leave it alone -/

theorem returns_computeClaimTotals {other : Option ℚ}
    (h : computeClaimTotals env σ i other = .ok σ') : σ'.returnEvents = σ.returnEvents := by
  obtain ⟨claim, result, -, -, rfl⟩ := computeClaimTotals_eq_ok h
  rfl

theorem returns_preparePacket {r : Claim × Store} (h : preparePacket env σ i now = .ok r) :
    r.2.returnEvents = σ.returnEvents := by
  obtain ⟨σ₁, htotals, -, hr⟩ := preparePacket_eq_ok h
  rw [hr]
  exact (returns_computeClaimTotals htotals :)

theorem returns_updateCashAdvance {r : UpdateAdvance} (h : updateCashAdvance env r σ = .ok σ') :
    σ'.returnEvents = σ.returnEvents := by
  simp only [updateCashAdvance, flushAdvances, bind_eq_ok, pure_eq_ok] at h
  obtain ⟨row, -, row', -, _, ⟨_, -, rfl⟩, h⟩ := h
  split_ifs at h
  · obtain rfl := pure_eq_ok.1 h
    rfl
  · obtain rfl := pure_eq_ok.1 h
    rfl

theorem returns_startLiquidation {r : StartLiquidation} (h : startLiquidation env r σ = .ok σ') :
    σ'.returnEvents = σ.returnEvents := by
  simp only [startLiquidation, bind_eq_ok, found_eq_ok, onConflict_eq_ok, flushClaims_eq_ok,
    pure_eq_ok] at h
  obtain ⟨advance, -, _, -, actor, -, _, -, _, -, ⟨id, σ₁⟩, hdraft, _, ⟨rfl, -⟩, rfl⟩ := h
  obtain ⟨staff, hr⟩ := createDraftClaim_eq_ok hdraft
  obtain ⟨rfl, rfl⟩ := Prod.mk.inj hr
  rfl

theorem returns_spawn {r : Spawn} (h : spawnReimbursement env r σ = .ok σ') :
    σ'.returnEvents = σ.returnEvents := by
  simp only [spawnReimbursement, bind_eq_ok, onConflict_eq_ok, flushClaims_eq_ok] at h
  obtain ⟨_, -, ⟨id, σ₁⟩, hdraft, σ₂, ⟨rfl, -⟩, htotals⟩ := h
  obtain ⟨staff, hr⟩ := createDraftClaim_eq_ok hdraft
  obtain ⟨rfl, rfl⟩ := Prod.mk.inj hr
  exact (returns_computeClaimTotals htotals).trans rfl

theorem returns_submitClaim {r : Submit} (h : submitClaim env r σ = .ok σ') :
    σ'.returnEvents = σ.returnEvents := by
  obtain ⟨claim, priced, packet, inst, v, e, inst', dest, entered, hs⟩ := submitClaim_eq_ok h
  obtain ⟨claims, history, -, hσ'⟩ := hs.performed.result
  rw [hσ', List.append_nil, hs.store]
  exact returns_preparePacket hs.prepared

/-! ## Acting on a claim -/

theorem returns_prepareAction {r : ActionRequest} {claim : Claim} {j : ℕ}
    (h : prepareAction env σ claim j r = .ok σ') : σ'.returnEvents = σ.returnEvents := by
  rcases prepareAction_eq_ok.1 h with ⟨-, hrefresh⟩ | ⟨-, rfl, -⟩
  · obtain ⟨σ₁, claim₁, htotals, -, rfl⟩ := refreshForResubmit_eq_ok hrefresh
    exact (returns_computeClaimTotals htotals :)
  · rfl

/-- A return that is no replay is one row with the reasons it names. -/
theorem returnRecord_eq_ok {r : ActionRequest} {replayed : Bool} {event : Event} {inst : Instance}
    {returns : List ReturnEvent} (h : returnRecord r replayed event inst = .ok returns) :
    returns = [] ∨ r.action = .return ∧
      ∃ row, returns = [row] ∧ row.claimId = r.claimId ∧ row.reasonIds = r.reasonIds := by
  unfold returnRecord at h
  split_ifs at h with hreturn
  · simp only [bind_eq_ok, pure_eq_ok] at h
    obtain ⟨toState, -, rfl⟩ := h
    exact .inr ⟨hreturn.1, _, rfl, rfl, rfl⟩
  · exact .inl (Except.ok.inj h).symm

/-- Nothing is logged, or the return is. -/
def LogsReturn (env : Env) (r : ActionRequest) (σ σ' : Store) : Prop :=
  σ'.returnEvents = σ.returnEvents ∨
    r.action = .return ∧ assertReturnReasons env r.reasonIds = .ok () ∧
      ∃ row, σ'.returnEvents = σ.returnEvents ++ [row] ∧ row.claimId = r.claimId ∧
        row.reasonIds = r.reasonIds

theorem logs_claimAction {r : ActionRequest} (h : claimAction env r σ = .ok σ') :
    LogsReturn env r σ σ' := by
  obtain ⟨-, claim, j, inst, σ₁, hclaim, -, hlink, hinst, hallowed, -, -⟩ :=
    claimAction_eq_ok.1 h
  obtain ⟨claim', j', inst', σ₁, priced, amount, v, e, inst₁, dest, returns, ha⟩ :=
    claimAction_acted h
  obtain ⟨claims, history, -, rfl⟩ := ha.performed.result
  have hprepared := returns_prepareAction ha.prepared
  rcases returnRecord_eq_ok ha.recorded with rfl | ⟨hverb, row, rfl, hrow⟩
  · exact .inl (by rw [List.append_nil, hprepared])
  · refine .inr ⟨hverb, ?_, row, by rw [hprepared], hrow⟩
    simpa only [actionAllowed, hverb] using hallowed

theorem returns_approval {r : ActionRequest} (hverb : r.action = .approve)
    (h : claimAction env r σ = .ok σ') : σ'.returnEvents = σ.returnEvents := by
  rcases logs_claimAction h with hsame | ⟨hreturn, -⟩
  · exact hsame
  · rw [hverb] at hreturn
    cases hreturn

theorem returns_recordPayout {r : Payout} (h : recordPayout env r σ = .ok σ') :
    σ'.returnEvents = σ.returnEvents := by
  simp only [recordPayout, recordExternalEvent, bind_eq_ok, Prod.exists, pure_eq_ok] at h
  obtain ⟨reference, day, -, _, ⟨_, -, _, -, claim, -, _, -, rfl⟩, hact⟩ := h
  exact (returns_approval rfl hact).trans rfl

/-! ## Every call -/

/-- Only a return is logged. -/
theorem Call.step_returns (h : c.step σ = .ok σ') : σ'.returnEvents = σ.returnEvents ∨
    ∃ r, c.op = .act r ∧ LogsReturn c.env r σ σ' := by
  obtain ⟨env, op⟩ := c
  cases op with
  | act r => exact .inr ⟨r, rfl, logs_claimAction h⟩
  | createDraft actor kind now =>
      obtain ⟨r, hr, rfl⟩ := map_eq_ok.1 h
      obtain ⟨staff, rfl⟩ := createDraftClaim_eq_ok hr
      exact .inl rfl
  | editDraft r =>
      simp only [Call.step, updateDraftFields, bind_eq_ok, pure_eq_ok] at h
      obtain ⟨claim, -, _, -, _, -, _, -, rfl⟩ := h
      exact .inl rfl
  | replaceLegs r =>
      simp only [Call.step, Reimbursement.replaceLegs, bind_eq_ok, pure_eq_ok] at h
      obtain ⟨claim, -, legs, -, rfl⟩ := h
      exact .inl rfl
  | recomputeTotals claimId actor =>
      simp only [Call.step, Reimbursement.recomputeTotals, bind_eq_ok] at h
      obtain ⟨_, -, htotals⟩ := h
      exact .inl (returns_computeClaimTotals htotals)
  | attachEvidence claimId catalogId actor =>
      simp only [Call.step, Reimbursement.attachEvidence, bind_eq_ok, pure_eq_ok] at h
      obtain ⟨_, -, _, -, _, -, rfl⟩ := h
      exact .inl rfl
  | detachEvidence claimId catalogId actor =>
      simp only [Call.step, Reimbursement.detachEvidence, bind_eq_ok, pure_eq_ok] at h
      obtain ⟨_, -, _, -, rfl⟩ := h
      exact .inl rfl
  | markGenerated claimId code =>
      simp only [Call.step, Reimbursement.markGenerated, bind_eq_ok, pure_eq_ok] at h
      obtain ⟨_, -, _, -, _, -, rfl⟩ := h
      exact .inl rfl
  | cancelDraft r =>
      simp only [Call.step, cancelDraftClaim, bind_eq_ok, refuse_eq_ok, lockedClaim_eq_ok,
        flushClaims_eq_ok] at h
      obtain ⟨claim, -, -, -, -, -, -, -, -, -, rfl, -⟩ := h
      exact .inl rfl
  | submit r => exact .inl (returns_submitClaim h)
  | createAdvance r =>
      simp only [Call.step, createCashAdvance, flushAdvances, bind_eq_ok, pure_eq_ok,
        onConflict_eq_ok] at h
      obtain ⟨_, -, _, -, _, -, _, -, rfl⟩ := h
      exact .inl rfl
  | updateAdvance r => exact .inl (returns_updateCashAdvance h)
  | markOverdue advanceId =>
      obtain rfl := Except.ok.inj h
      exact .inl rfl
  | startLiquidation r => exact .inl (returns_startLiquidation h)
  | settle r =>
      obtain ⟨advanceId, totals, -, hact⟩ := recordSettlement_eq_ok.1 h
      exact .inl ((returns_approval rfl hact).trans rfl)
  | payout r => exact .inl (returns_recordPayout h)
  | relay r =>
      simp only [Call.step, recordExternalEvent, bind_eq_ok, pure_eq_ok] at h
      obtain ⟨_, -, _, -, claim, -, _, -, rfl⟩ := h
      exact .inl rfl
  | spawn r => exact .inl (returns_spawn h)
  | sweep now instanceId picked =>
      obtain rfl := Except.ok.inj h
      exact .inl rfl
  | remind instanceId stepId level revisionNo =>
      obtain rfl := Except.ok.inj h
      exact .inl rfl

end

/-! ## Runs -/

/-- A return names each of its reasons once. -/
def NamesReasonsOnce (_ : Store) (c : Call) : Prop :=
  ∀ r, c.op = .act r → r.action = .return → r.reasonIds.Nodup

instance (σ : Store) (c : Call) : Decidable (NamesReasonsOnce σ c) :=
  match h : c.op with
  | .act r => decidable_of_iff (r.action = .return → r.reasonIds.Nodup) (by
      unfold NamesReasonsOnce
      rw [h]
      simp)
  | .createDraft .. | .editDraft _ | .replaceLegs _ | .recomputeTotals .. | .attachEvidence ..
  | .detachEvidence .. | .markGenerated .. | .cancelDraft _ | .submit _ | .createAdvance _
  | .updateAdvance _ | .markOverdue _ | .startLiquidation _ | .settle _ | .payout _ | .relay _
  | .spawn _ | .sweep .. | .remind .. => isTrue (by
      intro r hr
      rw [h] at hr
      cases hr)

/-- Where every return names its reasons once, every row of the log does. -/
theorem returns_nodup (calls : List Call) (h : Conforms Call.step NamesReasonsOnce {} calls) :
    ∀ row ∈ (runStore calls).returnEvents, row.reasonIds.Nodup := by
  refine run_invariant (I := fun σ : Store => ∀ row ∈ σ.returnEvents, row.reasonIds.Nodup)
    (fun σ c σ' hc hσ hok => ?_) calls {} (by simp) h
  rcases Call.step_returns hok with hsame | ⟨r, hop, hsame | ⟨hverb, -, row, hlog, -, hreasons⟩⟩
  · rwa [hsame]
  · rwa [hsame]
  · rw [hlog]
    intro row' hrow'
    rcases List.mem_append.1 hrow' with hold | hnew
    · exact hσ row' hold
    · obtain rfl := List.mem_singleton.1 hnew
      rw [hreasons]
      exact hc r hop hverb

end OfficeConnect.Reimbursement
