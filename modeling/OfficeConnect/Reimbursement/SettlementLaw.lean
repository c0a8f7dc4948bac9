import OfficeConnect.Reimbursement.Money
import OfficeConnect.Reimbursement.Standing

/-!
# How an advance closes

A settlement reads its branch from the snapshot the liquidation was submitted with, while the
advance's amount stays editable until then.  The record says what the amount and the grand total say
as long as the snapshot it is read from still nets that amount.
-/

namespace OfficeConnect.Reimbursement

open Lib Workflow

/-! ## The law and the condition -/

/-- The advance closed as its amount compares with the grand total of its liquidation. -/
structure SettledAgainst (a : CashAdvance) (grand : ℤ) : Prop where
  refund : a.settlementMode = some .refund ↔ grand < a.amount
  overAdvance : a.settlementMode = some .overAdvance ↔ a.amount < grand
  exactMatch : a.settlementMode = some .exactMatch ↔ a.amount = grand
  refundAmount : a.refundAmount =
    if a.settlementMode = some .refund then some (a.amount - grand) else none
  refundOrNo : a.refundOrNo ≠ none ↔ a.settlementMode = some .refund
  refundOrDate : a.refundOrDate ≠ none ↔ a.settlementMode = some .refund

/-- Every settled advance is closed by its live liquidation, against the snapshot that stores. -/
def Lawful (σ : Store) : Prop :=
  ∀ (k : ℕ) (a : CashAdvance), σ.advances[k]? = some a → a.status = .settled →
    (∃ (i : ℕ) (claim : Claim), σ.claims[i]? = some claim ∧ claim.liveLiquidation = some k ∧
      claim.status = .settled) ∧
    ∀ (i : ℕ) (claim : Claim), σ.claims[i]? = some claim → claim.liveLiquidation = some k →
      ∃ t, claim.totals = some t ∧ SettledAgainst a t.grand

/-- The settlement a call records. -/
def Call.settle? (c : Call) : Option Settle :=
  match c.op with
  | .settle r => some r
  | _ => none

/-- The advance a claim is linked to. -/
def Store.advanceOf (σ : Store) (claim : Claim) : Option CashAdvance :=
  claim.cashAdvanceId.bind fun k => σ.advances[k]?

/-- The snapshot nets the amount the advance has, or both amounts fall short of its grand total. -/
def Totals.Nets (t : Totals) (a : CashAdvance) : Prop :=
  a.amount = t.advance ∨ (a.amount < t.grand ∧ t.advance < t.grand)

instance (t : Totals) (a : CashAdvance) : Decidable (t.Nets a) :=
  inferInstanceAs (Decidable (_ ∨ _))

/-- A settlement is of a claim that shows where its instance stands, takes a new step there, and reads
a snapshot that nets its advance. -/
def SettlesInStep (σ : Store) (c : Call) : Prop :=
  ∀ r ∈ c.settle?, ∀ claim ∈ σ.claims[r.claimId]?,
    (∀ inst ∈ σ.instanceOf claim, (∃ s ∈ state? inst.currentStateId, s.code = claim.status) ∧
      replayed inst ((r.approval c.env).key inst) = none) ∧
    ∀ t ∈ claim.totals, ∀ a ∈ σ.advanceOf claim, t.Nets a

instance (σ : Store) (c : Call) : Decidable (SettlesInStep σ c) :=
  inferInstanceAs (Decidable (∀ r ∈ c.settle?, ∀ claim ∈ σ.claims[r.claimId]?,
    (∀ inst ∈ σ.instanceOf claim, (∃ s ∈ state? inst.currentStateId, s.code = claim.status) ∧
      replayed inst ((r.approval c.env).key inst) = none) ∧
    ∀ t ∈ claim.totals, ∀ a ∈ σ.advanceOf claim, t.Nets a))

/-- No claim action replays a resubmission on a settled claim. -/
def KeepsSnapshot (σ : Store) (c : Call) : Prop :=
  ∀ r ∈ c.action?, ∀ claim ∈ σ.claims[r.claimId]?, claim.status = .settled →
    r.action = .resubmit → ∀ inst ∈ σ.instanceOf claim, replayed inst (r.key inst) = none

instance (σ : Store) (c : Call) : Decidable (KeepsSnapshot σ c) :=
  inferInstanceAs (Decidable (∀ r ∈ c.action?, ∀ claim ∈ σ.claims[r.claimId]?,
    claim.status = .settled → r.action = .resubmit → ∀ inst ∈ σ.instanceOf claim,
      replayed inst (r.key inst) = none))

/-- What a call must keep to for the law: settlements in step with the snapshot, and nothing done to
a settled claim. -/
def SettlesByLaw (σ : Store) (c : Call) : Prop :=
  SettlesInStep σ c ∧ StaysSettled σ c ∧ KeepsSnapshot σ c

instance (σ : Store) (c : Call) : Decidable (SettlesByLaw σ c) :=
  inferInstanceAs (Decidable (_ ∧ _ ∧ _))

/-! ## One settlement -/

theorem validateReceipt_eq_ok {mode : SettlementMode} {toRefund : ℤ} {r : Settle}
    (h : validateReceipt mode toRefund r = .ok ()) (hmode : mode = .refund) :
    ¬ blank r.orNo ∧ r.orDate ≠ none := by
  simp only [validateReceipt, bind_eq_ok, if_pos hmode, refuse_eq_ok, not_or] at h
  obtain ⟨-, hreceipt, -⟩ := h
  exact hreceipt

/-- The branch a netted snapshot gives, in terms of its own two figures. -/
theorem settlementMode_eq {t : Totals} (ht : Netted (some t)) :
    (settlementMode t = .refund ∧ t.grand < t.advance ∧ t.toRefund = t.advance - t.grand) ∨
      (settlementMode t = .overAdvance ∧ t.advance < t.grand) ∨
      (settlementMode t = .exactMatch ∧ t.advance = t.grand) := by
  obtain ⟨hreimburse, hrefund⟩ := ht t rfl
  unfold settlementMode
  split_ifs with hpos hover
  · exact .inl ⟨rfl, by omega, by omega⟩
  · exact .inr (.inl ⟨rfl, by omega⟩)
  · exact .inr (.inr ⟨rfl, by omega⟩)

theorem settledAgainst_markSettled {t : Totals} {a : CashAdvance} {r : Settle} {actor : ℕ}
    {now : Time} (ht : Netted (some t)) (hnets : t.Nets a)
    (hreceipt : validateReceipt (settlementMode t) t.toRefund r = .ok ()) :
    SettledAgainst (a.markSettled actor (settlementMode t) t.toRefund r now) t.grand := by
  have hpaper := validateReceipt_eq_ok hreceipt
  rcases settlementMode_eq ht with ⟨hmode, hlt, hrefund⟩ | ⟨hmode, hlt⟩ | ⟨hmode, heq⟩
  · have hamount : a.amount = t.advance := by
      rcases hnets with h | ⟨-, h⟩
      · exact h
      · omega
    obtain ⟨hno, hdate⟩ := hpaper hmode
    have hno' : r.orNo ≠ none := fun h => hno (.inl h)
    constructor <;> simp [CashAdvance.markSettled, hmode, hamount, hrefund, hno', hdate] <;> omega
  · have hamount : a.amount < t.grand := by
      rcases hnets with h | ⟨h, -⟩ <;> omega
    constructor <;> simp [CashAdvance.markSettled, hmode] <;> omega
  · have hamount : a.amount = t.grand := by
      rcases hnets with h | ⟨-, h⟩ <;> omega
    constructor <;> simp [CashAdvance.markSettled, hmode] <;> omega

/-- Out of `handed_to_fms` an approval settles a liquidation. -/
theorem Engaged.settles {c : Call} {status : Status} {inst inst' : Instance} {amount : Option ℤ}
    {q : Request} {v : Published Status} {e : Event} {dest s : State Status}
    (h : Engaged c inst amount q v e inst' dest) (hp : Placed .liquidation status inst)
    (hs : state? inst.currentStateId = some s) (hcode : s.code = .handedToFms)
    (hverb : q.action = .approve) (hfresh : replayed inst q.idempotencyKey = none) :
    dest.code = .settled := by
  have hall : ∀ t ∈ (chain .liquidation).transitions, t.action = .approve →
      ∀ s ∈ state? t.fromStateId, s.code = .handedToFms →
        ∀ d ∈ state? t.toStateId, d.code = .settled := by decide
  rcases h.cases hp with ⟨hreplay, -⟩ | ⟨current, t, out, entered, hfired, -, hdest⟩
  · rw [hfresh] at hreplay
    cases hreplay
  · have ho := (quiet_setAmount inst amount).onLadder hp.onLadder
    obtain ⟨hmem, hfrom, haction⟩ := hfired.transition
    rw [hfired.moves (ladder_chain .liquidation) ho] at hdest
    refine hall t hmem (haction.trans hverb) s ?_ hcode dest (state?_chain .liquidation hdest)
    rw [hfrom, hfired.current_id]
    exact hs

/-! ## The closing liquidation -/

/-- The claim is a settled liquidation of the advance, with this snapshot. -/
structure Closes (claim : Claim) (k : ℕ) (t : Totals) : Prop where
  kind : claim.kind = .liquidation
  advance : claim.cashAdvanceId = some k
  status : claim.status = .settled
  totals : claim.totals = some t

/-- Every settled advance has a liquidation that closed it by the law. -/
def Closed (σ : Store) : Prop :=
  ∀ (k : ℕ) (a : CashAdvance), σ.advances[k]? = some a → a.status = .settled →
    ∃ (i : ℕ) (claim : Claim) (t : Totals), σ.claims[i]? = some claim ∧ Closes claim k t ∧
      SettledAgainst a t.grand

section

variable {c : Call} {σ σ' : Store} {i k : ℕ} {claim : Claim} {t : Totals}

theorem snapshots_getElem? (h : σ.claims[i]? = some claim) : σ.snapshots[i]? = some claim.totals := by
  simp [Store.snapshots, h]

/-- The money of a settled claim is not computed again. -/
theorem not_repriceable (hstanding : ∀ i f, σ.file? i = some f → Standing f)
    (hc : KeepsSnapshot σ c) (hstep : c.step σ = .ok σ') (hclaim : σ.claims[i]? = some claim)
    (hsettled : claim.status = .settled) : ¬ Repriceable c σ i := by
  rintro ⟨claim', hclaim', hopen⟩
  obtain rfl := Option.some.inj (hclaim.symm.trans hclaim')
  have hst := hstanding i _ (exists_file hclaim)
  rcases hopen with hdraft | hreturned | hlink | ⟨r, hop, rfl, hverb⟩
  · rw [hsettled] at hdraft
    cases hdraft
  · rw [hsettled] at hreturned
    cases hreturned
  · rcases hst.unlinked hlink with h | h <;> exact absurd (hsettled.symm.trans h) (by decide)
  · -- the engine has nothing to do at a terminal but replay, and no resubmission replays here
    simp only [Call.step, hop] at hstep
    obtain ⟨claim', j, inst, σ₁, priced, amount, v, e, inst', dest, returns, ha⟩ :=
      claimAction_acted hstep
    obtain rfl := Option.some.inj (hclaim.symm.trans ha.row)
    have hinst := ha.instanceOf
    obtain ⟨inst₀, hinst₀, hp⟩ := hst.linked (by simp [Docket.file, Claim.spine, ha.link])
    obtain rfl := Option.some.inj (hinst.symm.trans hinst₀)
    change Placed claim.kind claim.status inst at hp
    rw [hsettled] at hp
    have hreplay := ha.engaged.replays_of_terminal hp (by rw [hp.kind_of_settled]; decide)
    have hnone := hc r (by simp [Call.action?, hop]) claim hclaim hsettled hverb inst hinst
    rw [ActionRequest.request, hnone] at hreplay
    cases hreplay

/-- A snapshot that is not computed again is kept. -/
theorem Repriced.kept_of_not (h : Repriced c σ σ'.snapshots) (hno : ¬ Repriceable c σ i)
    {claim' : Claim} (hclaim : σ.claims[i]? = some claim) (hclaim' : σ'.claims[i]? = some claim') :
    claim'.totals = claim.totals := by
  have hbefore := snapshots_getElem? hclaim
  have hafter := snapshots_getElem? hclaim'
  have hlt : i < σ.snapshots.length := (List.getElem?_eq_some_iff.1 hbefore).1
  generalize σ'.snapshots = snapshots at h hafter
  cases h with
  | kept => exact Option.some.inj (hafter.symm.trans hbefore)
  | filed t ht =>
      rw [List.getElem?_append_left hlt] at hafter
      exact Option.some.inj (hafter.symm.trans hbefore)
  | computed n t hn ht =>
      have hne : n ≠ i := fun h => hno (h ▸ hn)
      rw [List.getElem?_modify_ne _ _ hne] at hafter
      exact Option.some.inj (hafter.symm.trans hbefore)

/-- A closing liquidation stays one. -/
theorem Closes.persists (h : Closes claim k t) (hreg : Regular σ)
    (hstanding : ∀ i f, σ.file? i = some f → Standing f) (hstays : StaysSettled σ c)
    (hkeeps : KeepsSnapshot σ c) (hstep : c.step σ = .ok σ') (hclaim : σ.claims[i]? = some claim) :
    ∃ claim', σ'.claims[i]? = some claim' ∧ Closes claim' k t := by
  have hfile := exists_file hclaim
  obtain ⟨f', hf', hfs⟩ := hreg.file_persists hstep hfile
  obtain ⟨s, hs, rfl⟩ := file?_eq_some.1 hf'
  obtain ⟨claim', hclaim', rfl⟩ := exists_claim hs
  obtain ⟨hkind, hadvance, -⟩ := hfs.origin_eq
  have hno := not_repriceable hstanding hkeeps hstep hclaim h.status
  exact ⟨claim', hclaim', hkind.trans h.kind, hadvance.trans h.advance,
    hfs.settled hfile (hstanding _ _ hfile) hstays h.status,
    ((Call.step_moves hstep).1.kept_of_not hno hclaim hclaim').trans h.totals⟩

/-- A settlement in step leaves the claim it settles closing its advance. -/
theorem closes_recordSettlement {r : Settle} (hstanding : ∀ i f, σ.file? i = some f → Standing f)
    (hop : c.op = .settle r) (hc : SettlesInStep σ c) (hok : settleable r σ = .ok (k, t))
    (hstep : c.step σ = .ok σ') :
    ∃ claim', σ'.claims[r.claimId]? = some claim' ∧ Closes claim' k t := by
  simp only [Call.step, hop] at hstep
  obtain ⟨k', t', hok', hact⟩ := recordSettlement_eq_ok.1 hstep
  obtain ⟨rfl, rfl⟩ := Prod.mk.inj (Except.ok.inj (hok.symm.trans hok'))
  obtain ⟨claim, a, hclaim, hkind, hlinked, -, -, hstatus, htotals, -⟩ := settleable_eq_ok.1 hok
  obtain ⟨claim', j, inst, σ₁, priced, amount, v, e, inst', dest, returns, ha⟩ :=
    claimAction_acted hact
  obtain rfl : claim = claim' := Option.some.inj (hclaim.symm.trans ha.row)
  obtain rfl : σ₁ = r.recorded c.env k t σ := by
    rcases prepareAction_eq_ok.1 ha.prepared with ⟨hresubmit, -⟩ | ⟨-, hσ, -⟩
    · cases hresubmit
    · exact hσ
  obtain rfl : claim = priced := Option.some.inj (hclaim.symm.trans ha.performed.row)
  have hinst : σ.instanceOf claim = some inst := ha.instanceOf
  obtain ⟨inst₀, hinst₀, hp⟩ := (hstanding _ _ (exists_file hclaim)).linked
    (by simp [Docket.file, Claim.spine, ha.link])
  obtain rfl := Option.some.inj (hinst.symm.trans hinst₀)
  change Placed claim.kind claim.status inst at hp
  rw [hkind] at hp
  obtain ⟨⟨s, hs, hcode⟩, hfresh⟩ :=
    (hc r (by simp [Call.settle?, hop]) claim hclaim).1 inst hinst
  have hdest := ha.engaged.settles hp hs (hcode.trans hstatus) rfl hfresh
  obtain ⟨after, hafter, hshown, hbody⟩ := ha.performed.claim_after
  exact ⟨after, hafter, (congrArg Claim.kind hbody).trans hkind,
    (congrArg Claim.cashAdvanceId hbody).trans hlinked, hshown.trans hdest,
    (congrArg Claim.totals hbody).trans htotals⟩

/-- A settled advance was settled before the call, or the call settled it. -/
theorem Advanced.settled_cases (h : Advanced c σ σ'.advances) {a : CashAdvance}
    (ha : σ'.advances[k]? = some a) (hsettled : a.status = .settled) :
    σ.advances[k]? = some a ∨ ∃ r t before, c.op = .settle r ∧ settleable r σ = .ok (k, t) ∧
      σ.advances[k]? = some before ∧
      a = before.markSettled r.actorUserId (settlementMode t) t.toRefund r (c.env.at r.now) := by
  generalize σ'.advances = advances at h ha
  cases h with
  | kept => exact .inl ha
  | opened a₀ ha₀ =>
      rcases getElem?_concat_eq_some ha with hold | ⟨-, rfl⟩
      · exact .inl hold
      · exact absurd hsettled ha₀
  | edited n a₀ a' hrow ha₀ ha' =>
      rcases getElem?_modify_eq_some ha with ⟨-, before, -, rfl⟩ | ⟨-, hold⟩
      · exact absurd hsettled ha'
      · exact .inl hold
  | closed r n t hr hok =>
      rcases getElem?_modify_eq_some ha with ⟨rfl, before, hbefore, rfl⟩ | ⟨-, hold⟩
      · exact .inr ⟨r, t, before, hr, hok, hbefore, rfl⟩
      · exact .inl hold

end

/-! ## Runs -/

theorem netted_runStore (calls : List Call) : ∀ t ∈ (runStore calls).snapshots, Netted t := by
  refine run_invariant (P := fun _ _ => True) (I := fun σ : Store => ∀ t ∈ σ.snapshots, Netted t)
    (fun σ c σ' _ hσ hok => ?_) calls _ (by simp [Store.snapshots]) (conforms_true _ _)
  have hmoves := (Call.step_moves hok).1
  generalize σ'.snapshots = snapshots at hmoves
  intro t ht
  cases hmoves with
  | kept => exact hσ t ht
  | filed t' ht' =>
      rcases List.mem_append.1 ht with ht | ht
      · exact hσ t ht
      · rw [List.mem_singleton.1 ht]
        exact ht'
  | computed n t' hn ht' =>
      obtain ⟨m, hm⟩ := List.mem_iff_getElem?.1 ht
      rcases getElem?_modify_eq_some hm with ⟨-, _, -, rfl⟩ | ⟨-, hold⟩
      · exact ht'
      · exact hσ t (List.mem_of_getElem? hold)

theorem closed_runStore (calls : List Call)
    (hcalls : Conforms Call.step (OnReturn Call.step SettlesByLaw) {} calls) :
    Closed (runStore calls) := by
  refine reachable_invariant (fun done c σ' hreturned hclosed hok => ?_)
    (fun k a ha => by simp at ha) calls hcalls
  have hc := hreturned.of_ok hok
  have hstanding : ∀ i f, (runStore done).file? i = some f → Standing f :=
    fun _ _ => standing_runStore done
  intro k a ha hsettled
  rcases (Call.step_moves hok).2.settled_cases ha hsettled with hold | ⟨r, t, before, hop, hable,
    hbefore, rfl⟩
  · obtain ⟨i, claim, t, hclaim, hcloses, hlaw⟩ := hclosed k a hold hsettled
    obtain ⟨claim', hclaim', hcloses'⟩ :=
      hcloses.persists (regular_runStore done) hstanding hc.2.1 hc.2.2 hok hclaim
    exact ⟨i, claim', t, hclaim', hcloses', hlaw⟩
  · obtain ⟨claim', hclaim', hcloses⟩ := closes_recordSettlement hstanding hop hc.1 hable hok
    obtain ⟨claim, a, hclaim, -, hlinked, hrow, -, -, htotals, hreceipt⟩ :=
      settleable_eq_ok.1 hable
    obtain rfl := Option.some.inj (hrow.symm.trans hbefore)
    have hnetted : Netted (some t) := by
      rw [← htotals]
      exact netted_runStore done _ (List.mem_of_getElem? (snapshots_getElem? hclaim))
    have hnets := (hc.1 r (by simp [Call.settle?, hop]) claim hclaim).2 t htotals a
      (by simp [Store.advanceOf, hlinked, hrow])
    exact ⟨r.claimId, claim', t, hclaim', hcloses,
      settledAgainst_markSettled hnetted hnets hreceipt⟩

/-- In every run whose settlements that return are in step with their snapshots and whose settled
claims are left alone, every settled advance is closed by the law. -/
theorem lawful_runStore (calls : List Call)
    (hcalls : Conforms Call.step (OnReturn Call.step SettlesByLaw) {} calls) :
    Lawful (runStore calls) := by
  intro k a ha hsettled
  obtain ⟨i, claim, t, hclaim, hcloses, hlaw⟩ := closed_runStore calls hcalls k a ha hsettled
  have hlive : claim.liveLiquidation = some k := by
    simp [Claim.liveLiquidation, hcloses.kind, hcloses.status, hcloses.advance]
  refine ⟨⟨i, claim, hclaim, hlive, hcloses.status⟩, fun i' claim' hclaim' hlive' => ?_⟩
  obtain rfl := eq_of_nodup_filterMap (regular_runStore calls).indexed.liquidation hclaim' hclaim
    hlive' hlive
  obtain rfl := Option.some.inj (hclaim'.symm.trans hclaim)
  exact ⟨t, hcloses.totals, hlaw⟩

theorem settleTrip_lawful :
    (runStore (inOffice (settleTrip 1000))).advances.map
      (fun a => (a.status, a.settlementMode)) = [(.settled, some .overAdvance)] ∧
    Lawful (runStore (inOffice (settleTrip 1000))) :=
  ⟨by decide +kernel, lawful_runStore (inOffice (settleTrip 1000))
    (Conforms.onReturn (P := SettlesByLaw) (by decide +kernel))⟩

/-- The advance is raised above the expenses after the liquidation was priced, and then settled. -/
def raisedAdvance : List Call := inOffice (liquidateTrip 1000 ++ [
  .updateAdvance { cashAdvanceId := 0, amount := some (some 5000) },
  .settle { claimId := 0, actorUserId := 3 }])

/-- Money is to be refunded, and the record says that it is owed. -/
theorem raisedAdvance_not_settledAgainst : ∃ a claim t,
    (runStore raisedAdvance).advances[0]? = some a ∧ a.status = .settled ∧
    (runStore raisedAdvance).claims[0]? = some claim ∧ Closes claim 0 t ∧ t.grand < a.amount ∧
    a.settlementMode = some .overAdvance ∧ ¬ SettledAgainst a t.grand := by
  obtain ⟨a, ha, hrow⟩ := exists_eq_some (o := (runStore raisedAdvance).advances[0]?)
    (fun a => a.status = .settled ∧ a.settlementMode = some .overAdvance ∧ a.amount = 500000)
    (by decide +kernel)
  obtain ⟨claim, hclaim, hrow'⟩ := exists_eq_some (o := (runStore raisedAdvance).claims[0]?)
    (fun c => c.kind = .liquidation ∧ c.cashAdvanceId = some 0 ∧ c.status = .settled ∧
      c.totals.any (·.grand < 500000)) (by decide +kernel)
  simp only [decide_eq_true_eq] at hrow hrow'
  obtain ⟨hsettled, hmode, hamount⟩ := hrow
  obtain ⟨hkind, hadvance, hstatus, htotals⟩ := hrow'
  obtain ⟨t, ht, hgrand⟩ := exists_eq_some _ htotals
  have hlt : t.grand < a.amount := by
    rw [hamount]
    exact of_decide_eq_true hgrand
  refine ⟨a, claim, t, ha, hsettled, hclaim, ⟨hkind, hadvance, hstatus, ht⟩, hlt, hmode, fun h => ?_⟩
  have hover := h.overAdvance.1 hmode
  omega

end OfficeConnect.Reimbursement
