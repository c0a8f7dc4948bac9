import OfficeConnect.Reimbursement.Money

/-!
# The ledger

What a claim is of and what was paid on it, and the cash advances: the columns that no step of a
lifecycle touches.  A returning call makes one of eight entries, and each names the operation that
makes it.
-/

namespace OfficeConnect.Reimbursement

open Lib Workflow

/-! ## Deeds -/

/-- The columns of a claim that only its filing and its payout write. -/
structure Deed where
  kind : Kind
  claimantId : ℕ
  cashAdvanceId : Option ℕ
  payoutRef : Option String
  paidOn : Option Day
deriving DecidableEq, Repr

def Claim.deed (c : Claim) : Deed :=
  { kind := c.kind
    claimantId := c.claimantId
    cashAdvanceId := c.cashAdvanceId
    payoutRef := c.payoutRef
    paidOn := c.paidOn }

def Store.deeds (σ : Store) : List Deed := σ.claims.map Claim.deed

/-- No claimant has two unsettled advances. -/
def OneAdvance (advances : List CashAdvance) : Prop :=
  ((advances.filter CashAdvance.unliquidated).map (·.claimantId)).Nodup

/-- The flip of the overdue sweep. -/
def CashAdvance.lapse (a : CashAdvance) : CashAdvance :=
  if a.status = .opened ∨ a.status = .liquidationStarted then { a with status := .overdue } else a

/-- The flip of a liquidation's filing. -/
def CashAdvance.begin (a : CashAdvance) : CashAdvance :=
  if a.status = .opened then { a with status := .liquidationStarted } else a

/-- The entry a returning call makes. -/
inductive Entry (c : Call) (σ : Store) : List Deed → List CashAdvance → Prop
  | kept : Entry c σ σ.deeds σ.advances
  | filed (d : Deed) (hpay : d.payoutRef = none ∧ d.paidOn = none)
      (hadv : d.kind = .liquidation → d.cashAdvanceId = none) :
      Entry c σ (σ.deeds ++ [d]) σ.advances
  | begun (r : StartLiquidation) (a : CashAdvance) (d : Deed) (hr : c.op = .startLiquidation r)
      (hrow : σ.advances[r.cashAdvanceId]? = some a) (hopen : a.status ≠ .settled)
      (hpay : d.payoutRef = none ∧ d.paidOn = none)
      (hadv : d.cashAdvanceId = some r.cashAdvanceId) :
      Entry c σ (σ.deeds ++ [d]) (σ.advances.modify r.cashAdvanceId CashAdvance.begin)
  | paid (r : Payout) (claim : Claim) (reference : String) (day : Day) (hr : c.op = .payout r)
      (hclaim : σ.claims[r.claimId]? = some claim) (hkind : claim.kind = .reimbursement)
      (hstatus : claim.status = .handedToFms) :
      Entry c σ (σ.deeds.modify r.claimId fun d =>
        { d with payoutRef := some reference, paidOn := some day }) σ.advances
  | opened (a : CashAdvance) (hopen : a.status = .opened) (hone : OneAdvance (σ.advances ++ [a])) :
      Entry c σ σ.deeds (σ.advances ++ [a])
  | edited (r : UpdateAdvance) (a a' : CashAdvance) (hr : c.op = .updateAdvance r)
      (hrow : σ.advances[r.cashAdvanceId]? = some a) (hedit : updatedAdvance c.env r a = .ok a')
      (hone : OneAdvance (σ.advances.modify r.cashAdvanceId fun _ => a')) :
      Entry c σ σ.deeds (σ.advances.modify r.cashAdvanceId fun _ => a')
  | lapsed (k : ℕ) : Entry c σ σ.deeds (σ.advances.modify k CashAdvance.lapse)
  | closed (r : Settle) (k : ℕ) (t : Totals) (hr : c.op = .settle r)
      (hok : settleable r σ = .ok (k, t)) : Entry c σ σ.deeds (r.recorded c.env k t σ).advances

/-- The call makes one entry. -/
def Enters (c : Call) (σ σ' : Store) : Prop := Entry c σ σ'.deeds σ'.advances

section

variable {env : Env} {σ σ₁ σ' : Store} {i j k : ℕ} {claim : Claim} {now : Time} {c : Call}

theorem enters_of_eq (hd : σ'.deeds = σ.deeds) (ha : σ'.advances = σ.advances) : Enters c σ σ' := by
  rw [Enters, hd, ha]
  exact .kept

theorem deeds_setClaim (f : Claim → Claim) (hf : ∀ c, (f c).deed = c.deed) :
    (σ.setClaim i f).deeds = σ.deeds := map_modify_of_eq hf _ _

/-! ## The lifecycle calls -/

theorem computeClaimTotals_deeds {other : Option ℚ}
    (h : computeClaimTotals env σ i other = .ok σ') : σ'.deeds = σ.deeds := by
  obtain ⟨claim, result, -, -, rfl⟩ := computeClaimTotals_eq_ok h
  refine map_modify_of_eq (fun c => ?_) _ _
  rfl

theorem Performed.deeds {r : Request} {inst inst' : Instance} {v : Published Status} {e : Event}
    {dest : State Status} {returns : List ReturnEvent}
    (h : Performed env σ i j r claim inst v e inst' dest returns σ') : σ'.deeds = σ.deeds := by
  obtain ⟨claims, history, hmirror, rfl⟩ := h.result
  rcases hmirror with ⟨-, rfl, -⟩ | ⟨-, holder, -, rfl, -, -⟩
  · rfl
  · refine map_modify_of_eq (fun c => ?_) _ _
    rfl

theorem claimAction_deeds {r : ActionRequest} (h : claimAction env r σ = .ok σ') :
    σ'.deeds = σ.deeds := by
  obtain ⟨claim, j, inst, σ₁, priced, amount, v, e, inst', dest, returns, ha⟩ := claimAction_acted h
  rcases prepareAction_eq_ok.1 ha.prepared with ⟨-, hrefresh⟩ | ⟨-, rfl, -⟩
  · obtain ⟨σ₂, claim₂, htotals, -, rfl⟩ := refreshForResubmit_eq_ok hrefresh
    have hdeeds : σ₂.deeds = σ.deeds := computeClaimTotals_deeds htotals
    exact ha.performed.deeds.trans hdeeds
  · exact ha.performed.deeds

theorem submitClaim_deeds {r : Submit} (h : submitClaim env r σ = .ok σ') : σ'.deeds = σ.deeds := by
  obtain ⟨claim, priced, packet, inst, v, e, inst', dest, entered, hs⟩ := submitClaim_eq_ok h
  obtain ⟨σ₁, htotals, -, hpacket⟩ := preparePacket_eq_ok hs.prepared
  change packet = _ at hpacket
  have hclaims : packet.claims = σ₁.claims := by
    rw [hpacket]
    rfl
  have hdeeds₂ : entered.deeds = σ₁.deeds := by
    rw [hs.store]
    unfold Store.deeds
    rw [← hclaims]
    refine map_modify_of_eq (fun c => ?_) _ _
    rfl
  exact hs.performed.deeds.trans (hdeeds₂.trans (computeClaimTotals_deeds htotals))

/-! ## Filing -/

theorem enters_createDraft {actor : ℕ} {kind : Kind} {r : ℕ × Store}
    (h : createDraftClaim env σ actor kind now = .ok r) : Enters c σ r.2 := by
  obtain ⟨staff, rfl⟩ := createDraftClaim_eq_ok h
  have hfiled : Entry c σ (σ.deeds ++ [(draftClaim kind staff actor now).deed]) σ.advances :=
    .filed _ ⟨rfl, rfl⟩ fun _ => rfl
  simpa [Enters, Store.deeds] using hfiled

theorem enters_startLiquidation {r : StartLiquidation} (hc : c.op = .startLiquidation r)
    (h : startLiquidation env r σ = .ok σ') : Enters c σ σ' := by
  simp only [startLiquidation, bind_eq_ok, found_eq_ok, refuse_eq_ok, onConflict_eq_ok,
    flushClaims_eq_ok, pure_eq_ok] at h
  obtain ⟨a, hrow, -, hopen, actor, -, -, -, -, -, ⟨id, σ₁⟩, hdraft, _, ⟨rfl, -⟩, rfl⟩ := h
  obtain ⟨staff, hr⟩ := createDraftClaim_eq_ok hdraft
  obtain ⟨rfl, rfl⟩ := Prod.mk.inj hr
  have hbegun := Entry.begun r a { (draftClaim .liquidation staff r.actorUserId (env.at r.now)).deed
    with cashAdvanceId := some r.cashAdvanceId } hc hrow hopen ⟨rfl, rfl⟩ rfl
  unfold Enters
  convert hbegun using 1
  · refine (congrArg (List.map _) (modify_length_append _ _ _)).trans ?_
    simp [Store.deeds, Claim.deed]
  · rfl

theorem enters_spawn {r : Spawn} (h : spawnReimbursement env r σ = .ok σ') : Enters c σ σ' := by
  simp only [spawnReimbursement, bind_eq_ok, onConflict_eq_ok, flushClaims_eq_ok] at h
  obtain ⟨⟨source, advanceId⟩, -, ⟨id, σ₁⟩, hdraft, σ₂, ⟨hσ₂, -⟩, htotals⟩ := h
  obtain ⟨staff, hr⟩ := createDraftClaim_eq_ok hdraft
  obtain ⟨rfl, rfl⟩ := Prod.mk.inj hr
  have hadv : σ'.advances = σ.advances := by
    rw [(computeClaimTotals_money htotals).1, hσ₂]
    rfl
  have hdeeds : σ'.deeds = σ.deeds ++ [{
      (draftClaim .reimbursement staff r.actorUserId (env.at r.now)).deed with
      cashAdvanceId := some advanceId }] := by
    rw [computeClaimTotals_deeds htotals, hσ₂]
    refine (congrArg (List.map _) (modify_length_append _ _ _)).trans ?_
    simp [Store.deeds, Claim.deed]
  rw [Enters, hdeeds, hadv]
  exact .filed _ ⟨rfl, rfl⟩ fun hkind => by cases hkind

/-! ## Advances -/

theorem flushAdvances_eq_ok : flushAdvances σ = .ok σ' ↔ σ' = σ ∧ OneAdvance σ.advances := by
  simp only [flushAdvances, bind_eq_ok, refuse_eq_ok, not_not, pure_eq_ok]
  constructor
  · rintro ⟨-, hone, rfl⟩
    exact ⟨rfl, hone⟩
  · rintro ⟨rfl, hone⟩
    exact ⟨(), hone, rfl⟩

theorem enters_createCashAdvance {r : CreateAdvance} (h : createCashAdvance env r σ = .ok σ') :
    Enters c σ σ' := by
  simp only [createCashAdvance, bind_eq_ok, onConflict_eq_ok, flushAdvances_eq_ok] at h
  obtain ⟨_, -, _, -, _, -, rfl, hone⟩ := h
  exact .opened _ rfl hone

theorem enters_updateCashAdvance {r : UpdateAdvance} (hc : c.op = .updateAdvance r)
    (h : updateCashAdvance c.env r σ = .ok σ') : Enters c σ σ' := by
  simp only [updateCashAdvance, bind_eq_ok, found_eq_ok, flushAdvances_eq_ok] at h
  obtain ⟨a, hrow, a', hedit, _, ⟨rfl, hone⟩, h⟩ := h
  have hedited := Entry.edited r a a' hc hrow hedit hone
  split_ifs at h
  · obtain rfl := pure_eq_ok.1 h
    exact hedited
  · obtain rfl := pure_eq_ok.1 h
    unfold Enters
    convert hedited using 1
    · simp only [Store.deeds, remirrorDeadline, Store.setAdvance, List.map_map]
      refine List.map_congr_left fun c _ => ?_
      simp only [Function.comp_apply]
      split_ifs <;> rfl
    · rfl

theorem enters_recordSettlement {r : Settle} (hc : c.op = .settle r)
    (h : recordSettlement c.env r σ = .ok σ') : Enters c σ σ' := by
  obtain ⟨k, t, hok, hact⟩ := recordSettlement_eq_ok.1 h
  rw [Enters, claimAction_deeds hact, (claimAction_money hact).1]
  exact .closed r k t hc hok

theorem payable_eq_ok {r : Payout} {reference : String} {day : Day}
    (h : payable r now σ = .ok (reference, day)) :
    ∃ claim, σ.claims[r.claimId]? = some claim ∧ claim.kind = .reimbursement ∧
      claim.status = .handedToFms := by
  simp only [payable, bind_eq_ok, refuse_eq_ok, lockedClaim_eq_ok, not_not, pure_eq_ok] at h
  obtain ⟨claim, hclaim, -, hkind, -, -, -, hstatus, -⟩ := h
  exact ⟨claim, hclaim, hkind, hstatus⟩

theorem recordPayout_payable {r : Payout} (h : recordPayout env r σ = .ok σ') :
    ∃ reference day, payable r (env.at r.now) σ = .ok (reference, day) := by
  simp only [recordPayout, bind_eq_ok, Prod.exists] at h
  obtain ⟨reference, day, hok, -⟩ := h
  exact ⟨reference, day, hok⟩

theorem enters_recordPayout {r : Payout} (hc : c.op = .payout r)
    (h : recordPayout env r σ = .ok σ') : Enters c σ σ' := by
  obtain ⟨_, _, hok⟩ := recordPayout_payable h
  obtain ⟨claim, hclaim, hkind, hstatus⟩ := payable_eq_ok hok
  obtain ⟨reference, day, σ₁, hclaims, -, -, hadv₁, hact⟩ := recordPayout_eq_ok h
  have hdeeds₁ : σ₁.deeds = σ.deeds.modify r.claimId fun d =>
      { d with payoutRef := some reference, paidOn := some day } := by
    unfold Store.deeds
    rw [hclaims]
    refine map_modify (fun c => ?_) _ _
    rfl
  rw [Enters, claimAction_deeds hact, (claimAction_money hact).1, hdeeds₁, hadv₁]
  exact .paid r claim reference day hc hclaim hkind hstatus

/-! ## Every call -/

theorem deeds_updateDraftFields {r : DraftEdit} (h : updateDraftFields env r σ = .ok σ') :
    σ'.deeds = σ.deeds ∧ σ'.advances = σ.advances := by
  simp only [updateDraftFields, bind_eq_ok, pure_eq_ok] at h
  obtain ⟨claim, -, _, -, _, -, _, -, rfl⟩ := h
  exact ⟨deeds_setClaim _ fun _ => rfl, rfl⟩

theorem deeds_replaceLegs {r : ReplaceLegs} (h : replaceLegs env r σ = .ok σ') :
    σ'.deeds = σ.deeds ∧ σ'.advances = σ.advances := by
  simp only [replaceLegs, bind_eq_ok, pure_eq_ok] at h
  obtain ⟨claim, -, legs, -, rfl⟩ := h
  refine ⟨map_modify_of_eq (fun c => ?_) _ _, rfl⟩
  rfl

theorem deeds_cancelDraft {r : CancelDraft} (h : cancelDraftClaim env r σ = .ok σ') :
    σ'.deeds = σ.deeds ∧ σ'.advances = σ.advances := by
  simp only [cancelDraftClaim, bind_eq_ok, flushClaims_eq_ok] at h
  obtain ⟨claim, -, -, -, -, -, -, -, -, -, rfl, -⟩ := h
  refine ⟨map_modify_of_eq (fun c => ?_) _ _, rfl⟩
  rfl

/-- Every returning call makes one entry. -/
theorem Call.step_enters (h : c.step σ = .ok σ') : Enters c σ σ' := by
  obtain ⟨env, op⟩ := c
  cases op with
  | createDraft actor kind now =>
      obtain ⟨r, hr, rfl⟩ := map_eq_ok.1 h
      exact enters_createDraft hr
  | editDraft r =>
      obtain ⟨hd, ha⟩ := deeds_updateDraftFields h
      exact enters_of_eq hd ha
  | replaceLegs r =>
      obtain ⟨hd, ha⟩ := deeds_replaceLegs h
      exact enters_of_eq hd ha
  | recomputeTotals claimId actor =>
      simp only [Call.step, recomputeTotals, bind_eq_ok] at h
      obtain ⟨claim, -, htotals⟩ := h
      exact enters_of_eq (computeClaimTotals_deeds htotals) (computeClaimTotals_money htotals).1
  | attachEvidence claimId catalogId actor =>
      simp only [Call.step, attachEvidence, bind_eq_ok, pure_eq_ok] at h
      obtain ⟨_, -, _, -, _, -, rfl⟩ := h
      exact enters_of_eq rfl rfl
  | detachEvidence claimId catalogId actor =>
      simp only [Call.step, detachEvidence, bind_eq_ok, pure_eq_ok] at h
      obtain ⟨_, -, _, -, rfl⟩ := h
      exact enters_of_eq rfl rfl
  | markGenerated claimId code =>
      simp only [Call.step, markGenerated, bind_eq_ok, pure_eq_ok] at h
      obtain ⟨_, -, _, -, _, -, rfl⟩ := h
      exact enters_of_eq rfl rfl
  | cancelDraft r =>
      obtain ⟨hd, ha⟩ := deeds_cancelDraft h
      exact enters_of_eq hd ha
  | submit r => exact enters_of_eq (submitClaim_deeds h) (submitClaim_money h).1
  | act r => exact enters_of_eq (claimAction_deeds h) (claimAction_money h).1
  | createAdvance r => exact enters_createCashAdvance h
  | updateAdvance r => exact enters_updateCashAdvance rfl h
  | markOverdue advanceId =>
      obtain rfl := Except.ok.inj h
      exact .lapsed advanceId
  | startLiquidation r => exact enters_startLiquidation rfl h
  | settle r => exact enters_recordSettlement rfl h
  | payout r => exact enters_recordPayout rfl h
  | relay r =>
      simp only [Call.step, recordExternalEvent, bind_eq_ok, pure_eq_ok] at h
      obtain ⟨_, -, _, -, claim, -, _, -, rfl⟩ := h
      exact enters_of_eq rfl rfl
  | spawn r => exact enters_spawn h
  | sweep now instanceId picked =>
      obtain rfl := Except.ok.inj h
      exact enters_of_eq rfl rfl
  | remind instanceId stepId level revisionNo =>
      obtain rfl := Except.ok.inj h
      exact enters_of_eq rfl rfl

/-! ## Reading an entry -/

theorem deeds_getElem? (h : σ.claims[i]? = some claim) : σ.deeds[i]? = some claim.deed := by
  simp [Store.deeds, h]

theorem deeds_eq_none (h : σ.claims[i]? = none) : σ.deeds[i]? = none := by
  simp [Store.deeds, h]

theorem liveLiquidation_eq_some : claim.liveLiquidation = some k ↔
    claim.kind = .liquidation ∧ claim.status ≠ .cancelled ∧ claim.cashAdvanceId = some k := by
  unfold Claim.liveLiquidation
  split_ifs with h
  · simp [h]
  · simp only [false_iff]
    tauto

/-- A settled advance is not written again. -/
theorem Entry.settled_kept {deeds : List Deed} {advances : List CashAdvance} {a : CashAdvance}
    (h : Entry c σ deeds advances) (ha : σ.advances[k]? = some a) (hsettled : a.status = .settled) :
    advances[k]? = some a := by
  have hlt : k < σ.advances.length := (List.getElem?_eq_some_iff.1 ha).1
  have hflip : ∀ {n : ℕ} {f : CashAdvance → CashAdvance}, (n = k → f a = a) →
      (σ.advances.modify n f)[k]? = some a := by
    intro n f hf
    by_cases hn : n = k
    · subst hn
      rw [getElem?_modify_self f ha, hf rfl]
    · rw [List.getElem?_modify_ne _ _ hn, ha]
  cases h with
  | kept => exact ha
  | filed d hpay hadv => exact ha
  | begun r b d hr hrow hopen hpay hadv =>
      exact hflip fun _ => by simp [CashAdvance.begin, hsettled]
  | paid r claim reference day hr hclaim hkind hstatus => exact ha
  | opened b hopen hone => rw [List.getElem?_append_left hlt, ha]
  | edited r b b' hr hrow hedit hone =>
      refine hflip fun hn => ?_
      rw [hn, ha] at hrow
      obtain rfl := Option.some.inj hrow
      exact absurd hsettled (updatedAdvance_open hedit).1
  | lapsed n => exact hflip fun _ => by simp [CashAdvance.lapse, hsettled]
  | closed r n t hr hok =>
      obtain ⟨_, b, -, -, -, hrow, hopen, -⟩ := settleable_eq_ok.1 hok
      refine hflip fun hn => ?_
      rw [hn, ha] at hrow
      obtain rfl := Option.some.inj hrow
      exact absurd hsettled hopen

/-- A new claim has no payment, and a new liquidation is of an advance that is not settled. -/
theorem Entry.new_claim {deeds : List Deed} {advances : List CashAdvance} {d : Deed}
    (h : Entry c σ deeds advances) (hnone : σ.deeds[i]? = none) (hd : deeds[i]? = some d) :
    d.payoutRef = none ∧ (d.kind = .liquidation → ∀ k, d.cashAdvanceId = some k →
      (∃ a, σ.advances[k]? = some a ∧ a.status ≠ .settled) ∧
        advances = σ.advances.modify k CashAdvance.begin) := by
  have hnew : ∀ {d' : Deed}, (σ.deeds ++ [d'])[i]? = some d → d = d' := by
    intro d' hd'
    rcases getElem?_concat_eq_some hd' with hold | ⟨-, rfl⟩
    · rw [hnone] at hold
      cases hold
    · rfl
  cases h with
  | filed d' hpay hadv =>
      obtain rfl := hnew hd
      refine ⟨hpay.1, fun hkind k hk => ?_⟩
      rw [hadv hkind] at hk
      cases hk
  | begun r a d' hr hrow hopen hpay hadv =>
      obtain rfl := hnew hd
      refine ⟨hpay.1, fun _ k hk => ?_⟩
      obtain rfl : r.cashAdvanceId = k := Option.some.inj (hadv.symm.trans hk)
      exact ⟨⟨a, hrow, hopen⟩, rfl⟩
  | paid r claim reference day hr hclaim hkind hstatus =>
      rcases getElem?_modify_eq_some hd with ⟨rfl, before, hbefore, -⟩ | ⟨-, hold⟩
      · rw [hnone] at hbefore
        cases hbefore
      · rw [hnone] at hold
        cases hold
  | _ =>
      rw [hnone] at hd
      cases hd

end

end OfficeConnect.Reimbursement
