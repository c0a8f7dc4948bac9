import OfficeConnect.Reimbursement.CaseFile

/-!
# Snapshots and advances

The money side of the store, beside the docket: each claim's `totals` snapshot and the cash advances.
A returning call rewrites at most one snapshot, and only of a claim that is still the traveller's or
is being resubmitted; an advance is closed by a settlement and never written again.
-/

namespace OfficeConnect.Reimbursement

open Lib Workflow

/-! ## What a call does to the snapshots -/

def Store.snapshots (σ : Store) : List (Option Totals) := σ.claims.map (·.totals)

/-- A snapshot nets its grand total against the advance it was computed with. -/
def Netted (t : Option Totals) : Prop :=
  ∀ x ∈ t, x.toReimburse = max (x.grand - x.advance) 0 ∧ x.toRefund = max (x.advance - x.grand) 0

/-- The claim's money may be computed again: the traveller holds it, or resubmits it. -/
def Repriceable (c : Call) (σ : Store) (i : ℕ) : Prop :=
  ∃ claim, σ.claims[i]? = some claim ∧
    (claim.status = .draft ∨ claim.status = .returned ∨ claim.workflowInstanceId = none ∨
      ∃ r, c.op = .act r ∧ r.claimId = i ∧ r.action = .resubmit)

/-- What a returning call does to the snapshots. -/
inductive Repriced (c : Call) (σ : Store) : List (Option Totals) → Prop
  | kept : Repriced c σ σ.snapshots
  | filed (t : Option Totals) (ht : Netted t) : Repriced c σ (σ.snapshots ++ [t])
  | computed (i : ℕ) (t : Option Totals) (hi : Repriceable c σ i) (ht : Netted t) :
      Repriced c σ (σ.snapshots.modify i fun _ => t)

/-- What a returning call does to the advances. -/
inductive Advanced (c : Call) (σ : Store) : List CashAdvance → Prop
  | kept : Advanced c σ σ.advances
  | opened (a : CashAdvance) (ha : a.status ≠ .settled) : Advanced c σ (σ.advances ++ [a])
  | edited (k : ℕ) (a a' : CashAdvance) (hrow : σ.advances[k]? = some a) (ha : a.status ≠ .settled)
      (ha' : a'.status ≠ .settled) : Advanced c σ (σ.advances.modify k fun _ => a')
  | closed (r : Settle) (k : ℕ) (t : Totals) (hr : c.op = .settle r)
      (hok : settleable r σ = .ok (k, t)) : Advanced c σ (r.recorded c.env k t σ).advances

/-- The money of a store moves by one step. -/
def Moves (c : Call) (σ σ' : Store) : Prop :=
  Repriced c σ σ'.snapshots ∧ Advanced c σ σ'.advances

section

variable {env : Env} {σ σ₁ σ' : Store} {i j : ℕ} {claim : Claim} {now : Time} {c : Call}

theorem netted_none : Netted none := by simp [Netted]

theorem netted_totalsOf (result : PerDiemResult) (other advance : ℤ) (now : Time) :
    Netted (some (totalsOf result other advance now)) := by
  intro x hx
  obtain rfl := Option.some.inj hx
  simp [totalsOf, settle]

theorem moves_of_eq (hs : σ'.snapshots = σ.snapshots) (ha : σ'.advances = σ.advances) :
    Moves c σ σ' := by
  rw [Moves, hs, ha]
  exact ⟨.kept, .kept⟩

/-! ## The pieces of a call -/

theorem computeClaimTotals_money {other : Option ℚ}
    (h : computeClaimTotals env σ i other = .ok σ') :
    σ'.advances = σ.advances ∧
      ∃ t, Netted t ∧ σ'.snapshots = σ.snapshots.modify i fun _ => t := by
  obtain ⟨claim, result, -, -, rfl⟩ := computeClaimTotals_eq_ok h
  refine ⟨rfl, some (totalsOf result ((other.map toMoney).getD claim.trip.otherTotal)
    (σ.advanceAmount claim) env.utcNow), netted_totalsOf result _ _ _, ?_⟩
  refine map_modify (fun c => ?_) _ _
  rfl

theorem Performed.money {r : Request} {inst inst' : Instance} {v : Published Status} {e : Event}
    {dest : State Status} {returns : List ReturnEvent}
    (h : Performed env σ i j r claim inst v e inst' dest returns σ') :
    σ'.snapshots = σ.snapshots ∧ σ'.advances = σ.advances := by
  obtain ⟨claims, history, hmirror, rfl⟩ := h.result
  refine ⟨?_, rfl⟩
  rcases hmirror with ⟨-, rfl, -⟩ | ⟨-, holder, -, rfl, -, -⟩
  · rfl
  · refine map_modify_of_eq (fun c => ?_) _ _
    rfl

/-- A claim action keeps the advances, and the snapshots unless it is a resubmission. -/
theorem claimAction_money {r : ActionRequest} (h : claimAction env r σ = .ok σ') :
    σ'.advances = σ.advances ∧
      ((r.action ≠ .resubmit ∧ σ'.snapshots = σ.snapshots) ∨
        (r.action = .resubmit ∧ (∃ claim, σ.claims[r.claimId]? = some claim) ∧
          ∃ t, Netted t ∧ σ'.snapshots = σ.snapshots.modify r.claimId fun _ => t)) := by
  obtain ⟨claim, j, inst, σ₁, priced, amount, v, e, inst', dest, returns, ha⟩ := claimAction_acted h
  obtain ⟨hsnap, hadv⟩ := ha.performed.money
  rcases prepareAction_eq_ok.1 ha.prepared with ⟨hverb, hrefresh⟩ | ⟨hverb, rfl, -⟩
  · obtain ⟨σ₂, claim₂, htotals, -, rfl⟩ := refreshForResubmit_eq_ok hrefresh
    obtain ⟨hadv₂, t, ht, hsnap₂⟩ := computeClaimTotals_money htotals
    exact ⟨hadv.trans hadv₂, .inr ⟨hverb, ⟨claim, ha.row⟩, t, ht, hsnap.trans hsnap₂⟩⟩
  · exact ⟨hadv, .inl ⟨hverb, hsnap⟩⟩

theorem submitClaim_money {r : Submit} (h : submitClaim env r σ = .ok σ') :
    σ'.advances = σ.advances ∧
      (∃ claim, σ.claims[r.claimId]? = some claim ∧ claim.workflowInstanceId = none) ∧
      ∃ t, Netted t ∧ σ'.snapshots = σ.snapshots.modify r.claimId fun _ => t := by
  obtain ⟨claim, priced, packet, inst, v, e, inst', dest, entered, hs⟩ := submitClaim_eq_ok h
  obtain ⟨unit, hsub⟩ := hs.allowed
  obtain ⟨σ₁, htotals, hpriced, hpacket⟩ := preparePacket_eq_ok hs.prepared
  change packet = _ at hpacket
  obtain ⟨hadv₁, t, ht, hsnap₁⟩ := computeClaimTotals_money htotals
  have hadv₂ : entered.advances = σ₁.advances := by
    rw [hs.store]
    change packet.advances = _
    rw [hpacket]
    rfl
  have hclaims : packet.claims = σ₁.claims := by
    rw [hpacket]
    rfl
  have hsnap₂ : entered.snapshots = σ₁.snapshots := by
    rw [hs.store]
    unfold Store.snapshots
    rw [← hclaims]
    refine map_modify_of_eq (fun c => ?_) _ _
    rfl
  obtain ⟨hsnap, hadv⟩ := hs.performed.money
  exact ⟨hadv.trans (hadv₂.trans hadv₁), ⟨claim, hs.row, (submittable_eq_ok hsub).1⟩, t, ht,
    hsnap.trans (hsnap₂.trans hsnap₁)⟩

theorem ownedEditableClaim_eq_ok {actor : ℕ} (h : ownedEditableClaim env σ i actor = .ok claim) :
    σ.claims[i]? = some claim ∧ (claim.status = .draft ∨ claim.status = .returned) := by
  simp only [ownedEditableClaim, bind_eq_ok, refuse_eq_ok, lockedClaim_eq_ok, pure_eq_ok] at h
  obtain ⟨claim', hclaim, -, -, -, hstatus, rfl⟩ := h
  refine ⟨hclaim, ?_⟩
  tauto

theorem repriceable_of_editable {actor : ℕ} (h : ownedEditableClaim env σ i actor = .ok claim) :
    Repriceable c σ i := by
  obtain ⟨hclaim, hstatus⟩ := ownedEditableClaim_eq_ok h
  refine ⟨claim, hclaim, ?_⟩
  tauto

/-! ## Every call -/

theorem moves_claimAction {r : ActionRequest} (hc : c.op = .act r)
    (h : claimAction c.env r σ = .ok σ') : Moves c σ σ' := by
  obtain ⟨hadv, ⟨-, hsnap⟩ | ⟨hverb, ⟨claim, hclaim⟩, t, ht, hsnap⟩⟩ := claimAction_money h
  · exact moves_of_eq hsnap hadv
  · rw [Moves, hsnap, hadv]
    exact ⟨.computed r.claimId t ⟨claim, hclaim, .inr (.inr (.inr ⟨r, hc, rfl, hverb⟩))⟩ ht, .kept⟩

theorem moves_submitClaim {r : Submit} (h : submitClaim env r σ = .ok σ') : Moves c σ σ' := by
  obtain ⟨hadv, ⟨claim, hclaim, hlink⟩, t, ht, hsnap⟩ := submitClaim_money h
  rw [Moves, hsnap, hadv]
  exact ⟨.computed r.claimId t ⟨claim, hclaim, .inr (.inr (.inl hlink))⟩ ht, .kept⟩

/-- An approval driven by a settlement or a payout keeps the snapshots. -/
theorem approval_money {r : ActionRequest} (hverb : r.action = .approve)
    (h : claimAction env r σ = .ok σ') :
    σ'.snapshots = σ.snapshots ∧ σ'.advances = σ.advances := by
  obtain ⟨hadv, ⟨-, hsnap⟩ | ⟨hresubmit, -⟩⟩ := claimAction_money h
  · exact ⟨hsnap, hadv⟩
  · rw [hverb] at hresubmit
    cases hresubmit

theorem moves_updateDraftFields {r : DraftEdit} (h : updateDraftFields env r σ = .ok σ') :
    Moves c σ σ' := by
  simp only [updateDraftFields, bind_eq_ok, pure_eq_ok] at h
  obtain ⟨claim, hclaim, _, -, _, -, _, -, rfl⟩ := h
  refine ⟨?_, .kept⟩
  by_cases hstale : claim.trip.stale (r.applyTo claim.trip)
  · have hsnap : Repriced c σ (σ.snapshots.modify r.claimId fun _ => none) :=
      .computed r.claimId none (repriceable_of_editable hclaim) netted_none
    convert hsnap using 1
    refine map_modify (fun c => ?_) _ _
    simp [hstale]
  · have hsnap : Repriced c σ σ.snapshots := .kept
    convert hsnap using 1
    refine map_modify_of_eq (fun c => ?_) _ _
    simp [hstale]

theorem moves_replaceLegs {r : ReplaceLegs} (h : replaceLegs env r σ = .ok σ') : Moves c σ σ' := by
  simp only [replaceLegs, bind_eq_ok, pure_eq_ok] at h
  obtain ⟨claim, hclaim, legs, -, rfl⟩ := h
  refine ⟨?_, .kept⟩
  have hsnap : Repriced c σ (σ.snapshots.modify r.claimId fun _ => none) :=
    .computed r.claimId none (repriceable_of_editable hclaim) netted_none
  convert hsnap using 1
  refine map_modify (fun c => ?_) _ _
  rfl

theorem moves_recomputeTotals {actor : ℕ} (h : recomputeTotals env i actor σ = .ok σ') :
    Moves c σ σ' := by
  simp only [recomputeTotals, bind_eq_ok] at h
  obtain ⟨claim, hclaim, htotals⟩ := h
  obtain ⟨hadv, t, ht, hsnap⟩ := computeClaimTotals_money htotals
  rw [Moves, hsnap, hadv]
  exact ⟨.computed i t (repriceable_of_editable hclaim) ht, .kept⟩

theorem moves_cancelDraft {r : CancelDraft} (h : cancelDraftClaim env r σ = .ok σ') :
    Moves c σ σ' := by
  simp only [cancelDraftClaim, bind_eq_ok, flushClaims_eq_ok] at h
  obtain ⟨claim, -, -, -, -, -, -, -, -, -, rfl, -⟩ := h
  refine moves_of_eq (map_modify_of_eq (fun c => ?_) _ _) rfl
  rfl

theorem moves_createDraft {actor : ℕ} {kind : Kind} {r : ℕ × Store}
    (h : createDraftClaim env σ actor kind now = .ok r) : Moves c σ r.2 := by
  obtain ⟨staff, rfl⟩ := createDraftClaim_eq_ok h
  refine ⟨?_, .kept⟩
  have hsnap : Repriced c σ (σ.snapshots ++ [none]) := .filed none netted_none
  simpa [Store.snapshots, draftClaim] using hsnap

/-- A flip of the status of an open advance. -/
theorem advanced_flip {k : ℕ} {f : CashAdvance → CashAdvance}
    (hf : ∀ a, a.status ≠ .settled → (f a).status ≠ .settled)
    (hsettled : ∀ a, a.status = .settled → f a = a) : Advanced c σ (σ.advances.modify k f) := by
  cases hrow : σ.advances[k]? with
  | none =>
      have hlen : σ.advances.length ≤ k := List.getElem?_eq_none_iff.1 hrow
      rw [List.modify_eq_self hlen]
      exact .kept
  | some a =>
      rw [modify_congr_self hrow]
      by_cases ha : a.status = .settled
      · rw [hsettled a ha, modify_const_self hrow]
        exact .kept
      · exact .edited k a (f a) hrow ha (hf a ha)

theorem moves_startLiquidation {r : StartLiquidation} (h : startLiquidation env r σ = .ok σ') :
    Moves c σ σ' := by
  simp only [startLiquidation, bind_eq_ok, found_eq_ok, onConflict_eq_ok, flushClaims_eq_ok,
    pure_eq_ok] at h
  obtain ⟨advance, -, _, -, actor, -, _, -, _, -, ⟨id, σ₁⟩, hdraft, _, ⟨rfl, -⟩, rfl⟩ := h
  obtain ⟨staff, hr⟩ := createDraftClaim_eq_ok hdraft
  obtain ⟨rfl, rfl⟩ := Prod.mk.inj hr
  refine ⟨?_, advanced_flip (fun a ha => ?_) fun a ha => ?_⟩
  · have hsnap : Repriced c σ (σ.snapshots ++ [none]) := .filed none netted_none
    convert hsnap using 1
    refine (congrArg (List.map _) (modify_length_append _ _ _)).trans ?_
    simp [Store.snapshots, draftClaim]
  · split_ifs
    · simp
    · exact ha
  · simp [ha]

theorem moves_spawn {r : Spawn} (h : spawnReimbursement env r σ = .ok σ') : Moves c σ σ' := by
  simp only [spawnReimbursement, bind_eq_ok, onConflict_eq_ok, flushClaims_eq_ok] at h
  obtain ⟨⟨source, advanceId⟩, -, ⟨id, σ₁⟩, hdraft, σ₂, ⟨hσ₂, -⟩, htotals⟩ := h
  obtain ⟨staff, hr⟩ := createDraftClaim_eq_ok hdraft
  obtain ⟨rfl, rfl⟩ := Prod.mk.inj hr
  obtain ⟨hadv, t, ht, hsnap⟩ := computeClaimTotals_money htotals
  have hadv₂ : σ₂.advances = σ.advances := by rw [hσ₂]; rfl
  have hsnap₂ : σ₂.snapshots = σ.snapshots ++ [none] := by
    rw [hσ₂]
    refine (congrArg (List.map _) (modify_length_append _ _ _)).trans ?_
    simp [Store.snapshots, draftClaim]
  have hlen : σ.claims.length = σ.snapshots.length := by simp [Store.snapshots]
  rw [Moves, hsnap, hadv, hadv₂, hsnap₂, hlen, modify_length_append]
  exact ⟨.filed t ht, .kept⟩

theorem moves_createCashAdvance {r : CreateAdvance} (h : createCashAdvance env r σ = .ok σ') :
    Moves c σ σ' := by
  simp only [createCashAdvance, flushAdvances, bind_eq_ok, pure_eq_ok, onConflict_eq_ok] at h
  obtain ⟨_, -, _, -, _, -, _, -, rfl⟩ := h
  exact ⟨.kept, .opened _ (by simp)⟩

/-- The clock reopens an overdue advance and keeps every other status. -/
theorem clock_status {r : UpdateAdvance} {row : CashAdvance}
    {x : Option Day × Option Basis × AdvanceStatus} (h : r.clock env row = .ok x) :
    x.2.2 = row.status ∨ x.2.2 = .opened := by
  simp only [UpdateAdvance.clock] at h
  by_cases hsame : r.dateReturn.getD row.dateReturn = row.dateReturn
  · rw [if_pos hsame] at h
    obtain rfl := Except.ok.inj h
    exact .inl rfl
  · rw [if_neg hsame] at h
    simp only [bind_eq_ok, pure_eq_ok] at h
    obtain ⟨_, -, rfl⟩ := h
    by_cases hoverdue : row.status = .overdue
    · exact .inr (if_pos hoverdue)
    · exact .inl (if_neg hoverdue)

/-- An edit refuses a closed advance and never closes one. -/
theorem updatedAdvance_open {r : UpdateAdvance} {row row' : CashAdvance}
    (h : updatedAdvance env r row = .ok row') : row.status ≠ .settled ∧ row'.status ≠ .settled := by
  simp only [updatedAdvance, bind_eq_ok, refuse_eq_ok, pure_eq_ok] at h
  obtain ⟨-, hopen, amount, -, -, -, x, hclock, rfl⟩ := h
  refine ⟨hopen, ?_⟩
  rcases clock_status hclock with hstatus | hstatus
  · rw [← hstatus] at hopen
    exact hopen
  · change x.2.2 ≠ .settled
    rw [hstatus]
    decide

theorem moves_updateCashAdvance {r : UpdateAdvance} (h : updateCashAdvance env r σ = .ok σ') :
    Moves c σ σ' := by
  simp only [updateCashAdvance, flushAdvances, bind_eq_ok, found_eq_ok, pure_eq_ok] at h
  obtain ⟨row, hrow, row', hrow', _, ⟨_, -, rfl⟩, h⟩ := h
  obtain ⟨hopen, hopen'⟩ := updatedAdvance_open hrow'
  have hadv := Advanced.edited (c := c) r.cashAdvanceId row row' hrow hopen hopen'
  split_ifs at h
  · obtain rfl := pure_eq_ok.1 h
    exact ⟨.kept, hadv⟩
  · obtain rfl := pure_eq_ok.1 h
    refine ⟨?_, hadv⟩
    have hsnap : Repriced c σ σ.snapshots := .kept
    convert hsnap using 1
    simp only [Store.snapshots, remirrorDeadline, Store.setAdvance, List.map_map]
    refine List.map_congr_left fun c _ => ?_
    simp only [Function.comp_apply]
    split_ifs <;> rfl

theorem moves_recordSettlement {r : Settle} (hc : c.op = .settle r)
    (h : recordSettlement c.env r σ = .ok σ') : Moves c σ σ' := by
  obtain ⟨k, t, hok, hact⟩ := recordSettlement_eq_ok.1 h
  obtain ⟨hsnap, hadv⟩ := approval_money rfl hact
  rw [Moves, hsnap, hadv]
  exact ⟨.kept, .closed r k t hc hok⟩

theorem moves_recordPayout {r : Payout} (h : recordPayout env r σ = .ok σ') : Moves c σ σ' := by
  obtain ⟨reference, day, σ₁, hclaims, -, -, hadv₁, hact⟩ := recordPayout_eq_ok h
  obtain ⟨hsnap, hadv⟩ := approval_money rfl hact
  refine moves_of_eq (hsnap.trans ?_) (hadv.trans hadv₁)
  unfold Store.snapshots
  rw [hclaims]
  refine map_modify_of_eq (fun c => ?_) _ _
  rfl

/-- Every returning call moves the money by one step. -/
theorem Call.step_moves (h : c.step σ = .ok σ') : Moves c σ σ' := by
  obtain ⟨env, op⟩ := c
  cases op with
  | createDraft actor kind now =>
      obtain ⟨r, hr, rfl⟩ := map_eq_ok.1 h
      exact moves_createDraft hr
  | editDraft r => exact moves_updateDraftFields h
  | replaceLegs r => exact moves_replaceLegs h
  | recomputeTotals claimId actor => exact moves_recomputeTotals h
  | attachEvidence claimId catalogId actor =>
      simp only [Call.step, attachEvidence, bind_eq_ok, pure_eq_ok] at h
      obtain ⟨_, -, _, -, _, -, rfl⟩ := h
      exact moves_of_eq rfl rfl
  | detachEvidence claimId catalogId actor =>
      simp only [Call.step, detachEvidence, bind_eq_ok, pure_eq_ok] at h
      obtain ⟨_, -, _, -, rfl⟩ := h
      exact moves_of_eq rfl rfl
  | markGenerated claimId code =>
      simp only [Call.step, markGenerated, bind_eq_ok, pure_eq_ok] at h
      obtain ⟨_, -, _, -, _, -, rfl⟩ := h
      exact moves_of_eq rfl rfl
  | cancelDraft r => exact moves_cancelDraft h
  | submit r => exact moves_submitClaim h
  | act r => exact moves_claimAction rfl h
  | createAdvance r => exact moves_createCashAdvance h
  | updateAdvance r => exact moves_updateCashAdvance h
  | markOverdue advanceId =>
      obtain rfl := Except.ok.inj h
      refine ⟨.kept, advanced_flip (fun a ha => ?_) fun a ha => ?_⟩
      · split_ifs
        · simp
        · exact ha
      · simp [ha]
  | startLiquidation r => exact moves_startLiquidation h
  | settle r => exact moves_recordSettlement rfl h
  | payout r => exact moves_recordPayout h
  | relay r =>
      simp only [Call.step, recordExternalEvent, bind_eq_ok, pure_eq_ok] at h
      obtain ⟨_, -, _, -, claim, -, _, -, rfl⟩ := h
      exact moves_of_eq rfl rfl
  | spawn r => exact moves_spawn h
  | sweep now instanceId picked =>
      obtain rfl := Except.ok.inj h
      exact moves_of_eq rfl rfl
  | remind instanceId stepId level revisionNo =>
      obtain rfl := Except.ok.inj h
      exact moves_of_eq rfl rfl

end

end OfficeConnect.Reimbursement
