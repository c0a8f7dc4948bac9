import OfficeConnect.Reimbursement.InPlace
import OfficeConnect.Reimbursement.Ledger
import OfficeConnect.Reimbursement.Replay
import OfficeConnect.Reimbursement.SettlementLaw

/-!
# The money before the terminal

A liquidation is settled when its advance is, and a reimbursement is closed when its payment is on
record.  Two guards at `handed_to_fms` and two services that write the money keep this together; it
holds as long as replays are in place and a recorded payment or settlement moves its claim.
-/

namespace OfficeConnect.Reimbursement

open Lib Workflow
open Ingest (strip)

/-! ## The rule and the condition -/

/-- A payment reference that is not blank, and its date. -/
def Claim.Paid (c : Claim) : Prop := strip (c.payoutRef.getD "") ≠ "" ∧ c.paidOn ≠ none

instance (c : Claim) : Decidable c.Paid := inferInstanceAs (Decidable (_ ∧ _))

/-- The claim is the one live liquidation of an advance that is settled, in some mode. -/
def SettlesAdvance (σ : Store) (i : ℕ) (claim : Claim) : Prop :=
  ∃ k a, claim.liveLiquidation = some k ∧ σ.advances[k]? = some a ∧ a.status = .settled ∧
    a.settlementMode ≠ none ∧
    ∀ (i' : ℕ) (claim' : Claim), σ.claims[i']? = some claim' →
      claim'.liveLiquidation = some k → i' = i

/-- A liquidation is settled exactly when it settles its advance, and a reimbursement is closed
exactly when it is paid. -/
def MoneyFirst (σ : Store) : Prop :=
  ∀ (i : ℕ) (claim : Claim), σ.claims[i]? = some claim →
    (claim.kind = .liquidation → (claim.status = .settled ↔ SettlesAdvance σ i claim)) ∧
    (claim.kind = .reimbursement → (claim.status = .paidClosed ↔ claim.Paid))

/-- The approval a settlement or a payout drives. -/
def Call.closing? (c : Call) : Option ActionRequest :=
  match c.op with
  | .settle r => some (r.approval c.env)
  | .payout r => some (r.approval c.env)
  | _ => none

/-- The approval that closes a claim is under a key that labels no event yet. -/
def ClosesFresh (σ : Store) (c : Call) : Prop :=
  ∀ r ∈ c.closing?, ∀ claim ∈ σ.claims[r.claimId]?, ∀ inst ∈ σ.instanceOf claim,
    replayed inst (r.key inst) = none

instance (σ : Store) (c : Call) : Decidable (ClosesFresh σ c) :=
  inferInstanceAs (Decidable (∀ r ∈ c.closing?, ∀ claim ∈ σ.claims[r.claimId]?,
    ∀ inst ∈ σ.instanceOf claim, replayed inst (r.key inst) = none))

/-- Replays are in place, and what closes a claim is no replay. -/
def ClosesInStep (σ : Store) (c : Call) : Prop := ReplaysInPlace σ c ∧ ClosesFresh σ c

instance (σ : Store) (c : Call) : Decidable (ClosesInStep σ c) :=
  inferInstanceAs (Decidable (_ ∧ _))

/-! ## What the ledger keeps -/

section

variable {c : Call} {σ σ' : Store} {i k : ℕ} {claim claim' : Claim}

theorem Entry.banked {deeds : List Deed} {advances : List CashAdvance} {a : CashAdvance}
    (h : Entry c σ deeds advances)
    (hbanked : ∀ (k : ℕ) (a : CashAdvance), σ.advances[k]? = some a → a.status = .settled →
      a.settlementMode ≠ none)
    (ha : advances[k]? = some a) (hsettled : a.status = .settled) : a.settlementMode ≠ none := by
  cases h with
  | kept => exact hbanked k a ha hsettled
  | filed d hpay hadv => exact hbanked k a ha hsettled
  | begun r b d hr hrow hopen hpay hadv =>
      rcases getElem?_modify_eq_some ha with ⟨-, before, hbefore, rfl⟩ | ⟨-, hold⟩
      · unfold CashAdvance.begin at hsettled ⊢
        split_ifs at hsettled ⊢
        exact hbanked _ before hbefore hsettled
      · exact hbanked k a hold hsettled
  | paid r claim reference day hr hclaim hkind hstatus => exact hbanked k a ha hsettled
  | opened b hopen hone =>
      rcases getElem?_concat_eq_some ha with hold | ⟨-, rfl⟩
      · exact hbanked k a hold hsettled
      · rw [hopen] at hsettled
        cases hsettled
  | edited r b b' hr hrow hedit hone =>
      rcases getElem?_modify_eq_some ha with ⟨-, _, -, rfl⟩ | ⟨-, hold⟩
      · exact absurd hsettled (updatedAdvance_open hedit).2
      · exact hbanked k a hold hsettled
  | lapsed n =>
      rcases getElem?_modify_eq_some ha with ⟨-, before, hbefore, rfl⟩ | ⟨-, hold⟩
      · unfold CashAdvance.lapse at hsettled ⊢
        split_ifs at hsettled ⊢
        exact hbanked _ before hbefore hsettled
      · exact hbanked k a hold hsettled
  | closed r n t hr hok =>
      rcases getElem?_modify_eq_some ha with ⟨-, before, -, rfl⟩ | ⟨-, hold⟩
      · simp [CashAdvance.markSettled]
      · exact hbanked k a hold hsettled

/-- A payment comes with its date. -/
theorem Entry.dated {deeds : List Deed} {advances : List CashAdvance} {d : Deed}
    (h : Entry c σ deeds advances) (hdated : ∀ d ∈ σ.deeds, d.payoutRef ≠ none → d.paidOn ≠ none)
    (hd : d ∈ deeds) (hpaid : d.payoutRef ≠ none) : d.paidOn ≠ none := by
  cases h with
  | filed d' hpay hadv =>
      rcases List.mem_append.1 hd with hold | hnew
      · exact hdated d hold hpaid
      · rw [List.mem_singleton.1 hnew] at hpaid
        exact absurd hpay.1 hpaid
  | begun r b d' hr hrow hopen hpay hadv =>
      rcases List.mem_append.1 hd with hold | hnew
      · exact hdated d hold hpaid
      · rw [List.mem_singleton.1 hnew] at hpaid
        exact absurd hpay.1 hpaid
  | paid r claim reference day hr hclaim hkind hstatus =>
      obtain ⟨n, hn⟩ := List.mem_iff_getElem?.1 hd
      rcases getElem?_modify_eq_some hn with ⟨-, before, -, rfl⟩ | ⟨-, hold⟩
      · simp
      · exact hdated d (List.mem_of_getElem? hold) hpaid
  | _ => exact hdated d hd hpaid

/-- The payment of a claim is kept, or a payout out of FMS writes it. -/
theorem Entry.paid_cases {deeds : List Deed} {advances : List CashAdvance} {d d' : Deed}
    (h : Entry c σ deeds advances) (hd : σ.deeds[i]? = some d) (hd' : deeds[i]? = some d') :
    d'.payoutRef = d.payoutRef ∨ ∃ r claim, c.op = .payout r ∧ r.claimId = i ∧
      σ.claims[i]? = some claim ∧ claim.status = .handedToFms := by
  cases h with
  | filed d₀ hpay hadv =>
      rw [List.getElem?_append_left (List.getElem?_eq_some_iff.1 hd).1, hd] at hd'
      exact .inl (congrArg Deed.payoutRef (Option.some.inj hd').symm)
  | begun r a d₀ hr hrow hopen hpay hadv =>
      rw [List.getElem?_append_left (List.getElem?_eq_some_iff.1 hd).1, hd] at hd'
      exact .inl (congrArg Deed.payoutRef (Option.some.inj hd').symm)
  | paid r claim reference day hr hclaim hkind hstatus =>
      rcases getElem?_modify_eq_some hd' with ⟨rfl, -, -, -⟩ | ⟨-, hold⟩
      · exact .inr ⟨r, claim, hr, rfl, hclaim, hstatus⟩
      · exact .inl (congrArg Deed.payoutRef (Option.some.inj (hold.symm.trans hd)))
  | _ => exact .inl (congrArg Deed.payoutRef (Option.some.inj (hd'.symm.trans hd)))

/-! ## The guards and the closing approval -/

/-- An approval out of FMS found the money on record, in a ledger it leaves as it is. -/
theorem approval_guarded (htakes : c.Takes i .approve) (hstep : c.step σ = .ok σ')
    (hclaim : σ.claims[i]? = some claim) (hstatus : claim.status = .handedToFms) :
    ∃ σ₀ claim₀, σ₀.claims[i]? = some claim₀ ∧ claim₀.spine = claim.spine ∧
      moneyRecorded σ₀ claim₀ = .ok () ∧ σ'.deeds = σ₀.deeds ∧ σ'.advances = σ₀.advances := by
  rcases htakes with hcancel | ⟨r, -, -, hsubmit⟩ | ⟨r, hr, rfl, hverb⟩
  · cases hcancel
  · cases hsubmit
  · obtain ⟨σ₀, hact, hdocket⟩ := Call.step_action hr hstep
    obtain ⟨-, claim₀, j, inst, σ₁, hclaim₀, -, -, -, -, hprep, -⟩ := claimAction_eq_ok.1 hact
    have hspine : claim₀.spine = claim.spine := by
      have hs := docket_spine hclaim₀
      rw [hdocket] at hs
      exact Option.some.inj (hs.symm.trans (docket_spine hclaim))
    refine ⟨σ₀, claim₀, hclaim₀, hspine, ?_, claimAction_deeds hact, (claimAction_money hact).1⟩
    rcases prepareAction_eq_ok.1 hprep with ⟨hresubmit, -⟩ | ⟨-, -, happroved⟩
    · rw [hverb] at hresubmit
      cases hresubmit
    · exact (approveAllowed_eq_ok.1 (happroved hverb)).2
        ((congrArg Spine.status hspine).trans hstatus)

/-- A settlement or a payout under a fresh key closes its claim. -/
theorem closing_closes {r : ActionRequest} (hshown : ∀ i f, σ.file? i = some f → Shown f)
    (hfresh : ClosesFresh σ c) (hr : c.closing? = some r) (hstep : c.step σ = .ok σ')
    (hclaim : σ.claims[r.claimId]? = some claim) (hstatus : claim.status = .handedToFms) :
    ∃ after, σ'.claims[r.claimId]? = some after ∧ after.status = claim.kind.closing := by
  have haction : c.action? = some r ∧ r.action = .approve := by
    obtain ⟨env, op⟩ := c
    cases op with
    | settle q =>
        obtain rfl := Option.some.inj hr
        exact ⟨rfl, rfl⟩
    | payout q =>
        obtain rfl := Option.some.inj hr
        exact ⟨rfl, rfl⟩
    | _ => cases hr
  obtain ⟨σ₀, hact, hdocket⟩ := Call.step_action haction.1 hstep
  obtain ⟨claim₀, j, inst, σ₁, priced, amount, v, e, inst', dest, returns, ha⟩ :=
    claimAction_acted hact
  have hspine : claim₀.spine = claim.spine := by
    have hs := docket_spine ha.row
    rw [hdocket] at hs
    exact Option.some.inj (hs.symm.trans (docket_spine hclaim))
  have hfile : σ₀.file? r.claimId = some (σ.docket.file r.claimId claim.spine) := by
    have hf := exists_file hclaim
    rw [Store.file?] at hf ⊢
    rw [hdocket, hf]
  have hinst : σ.instanceOf claim = some inst := by
    have hlink : claim.workflowInstanceId = some j :=
      (congrArg Spine.link hspine).symm.trans ha.link
    have hinstances : σ₀.instances = σ.instances := congrArg Docket.instances hdocket
    rw [Store.instanceOf, hlink, Option.bind_some, ← hinstances, ha.live]
  have hedge := ha.edge hfile (hshown _ _ (exists_file hclaim)) (hfresh r hr claim hclaim inst hinst)
  have hkind : claim₀.kind = claim.kind := congrArg Spine.kind hspine
  have hstatus₀ : claim₀.status = .handedToFms := (congrArg Spine.status hspine).trans hstatus
  obtain ⟨after, hafter, hdest, -⟩ := ha.performed.claim_after
  refine ⟨after, hafter, ?_⟩
  rw [hdest, ← hkind]
  exact (edge_closing hedge).2 ⟨haction.2, hstatus₀⟩

/-! ## The invariant -/

/-- Claims show where they stand, settled advances have a mode, payments have a date, and money and
terminal status go together. -/
structure Closings (σ : Store) : Prop where
  shown : ∀ (i : ℕ) (f : CaseFile), σ.file? i = some f → Shown f
  banked : ∀ (k : ℕ) (a : CashAdvance), σ.advances[k]? = some a → a.status = .settled →
    a.settlementMode ≠ none
  dated : ∀ d ∈ σ.deeds, d.payoutRef ≠ none → d.paidOn ≠ none
  linked : ∀ (i : ℕ) (claim : Claim), σ.claims[i]? = some claim → claim.kind = .liquidation →
    claim.status = .settled → ∃ k a, claim.cashAdvanceId = some k ∧ σ.advances[k]? = some a ∧
      a.status = .settled
  settled : ∀ (i k : ℕ) (claim : Claim) (a : CashAdvance), σ.claims[i]? = some claim →
    claim.liveLiquidation = some k → σ.advances[k]? = some a → a.status = .settled →
      claim.status = .settled
  paid : ∀ (i : ℕ) (claim : Claim), σ.claims[i]? = some claim → claim.kind = .reimbursement →
    (claim.status = .paidClosed ↔ strip (claim.payoutRef.getD "") ≠ "")

theorem closing_terminal (kind : Kind) : kind.closing ∈ (vocabulary kind).terminal := by
  cases kind <;> decide

theorem cancelled_terminal (kind : Kind) : .cancelled ∈ (vocabulary kind).terminal := by
  cases kind <;> decide

/-- A terminal status is kept. -/
theorem status_of_terminal
    (hmoved : claim'.status = claim.status ∨
      ∃ action, c.Takes i action ∧ Edge claim.kind action claim.status claim'.status)
    (hterminal : claim.status ∈ (vocabulary claim.kind).terminal) :
    claim'.status = claim.status := by
  rcases hmoved with hsame | ⟨action, -, hedge⟩
  · exact hsame
  · exact absurd hterminal (no_edge_of_terminal hedge)

theorem Closings.linked_step (h : Closings σ) (hreg : Regular σ) (hc : ClosesInStep σ c)
    (hstep : c.step σ = .ok σ') (hclaim' : σ'.claims[i]? = some claim')
    (hkind' : claim'.kind = .liquidation) (hsettled : claim'.status = .settled) :
    ∃ k a, claim'.cashAdvanceId = some k ∧ σ'.advances[k]? = some a ∧ a.status = .settled := by
  rcases claim_step hreg h.shown hc.1 hstep hclaim' with
    ⟨claim, hclaim, hkind, hadvance, hmoved⟩ | ⟨-, hdraft⟩
  · rw [hkind] at hkind'
    rw [hadvance]
    rcases hmoved with hsame | ⟨action, htakes, hedge⟩
    · obtain ⟨k, a, hk, ha, hstatus⟩ := h.linked i claim hclaim hkind' (hsame.symm.trans hsettled)
      exact ⟨k, a, hk, (Call.step_enters hstep).settled_kept ha hstatus, hstatus⟩
    · obtain ⟨rfl, hfms⟩ := (edge_closing hedge).1 (by rw [hsettled, hkind']; rfl)
      obtain ⟨σ₀, claim₀, -, hspine, hmoney, -, hadvances⟩ :=
        approval_guarded htakes hstep hclaim hfms
      have hkind₀ : claim₀.kind = .liquidation := (congrArg Spine.kind hspine).trans hkind'
      simp only [moneyRecorded, hkind₀, assertAdvanceSettled, bind_eq_ok, found_eq_ok,
        refuse_eq_ok, not_not] at hmoney
      obtain ⟨k, hk, a, ha, hstatus⟩ := hmoney
      exact ⟨k, a, (congrArg Spine.cashAdvanceId hspine).symm.trans hk, by rw [hadvances]; exact ha,
        hstatus⟩
  · rw [hdraft] at hsettled
    cases hsettled

theorem Closings.settled_step (h : Closings σ) (hreg : Regular σ) (hc : ClosesInStep σ c)
    (hstep : c.step σ = .ok σ') (hclaim' : σ'.claims[i]? = some claim')
    (hlive' : claim'.liveLiquidation = some k) {a : CashAdvance} (ha : σ'.advances[k]? = some a)
    (hsettled : a.status = .settled) : claim'.status = .settled := by
  obtain ⟨hkind', hnot', hadvance'⟩ := liveLiquidation_eq_some.1 hlive'
  have hclosed : Status.settled = Kind.liquidation.closing := rfl
  rcases (Call.step_moves hstep).2.settled_cases ha hsettled with hold | ⟨r, t, -, hop, hok, -, -⟩
  · -- the advance was settled before: its live liquidation was too, and a terminal is kept
    rcases claim_step hreg h.shown hc.1 hstep hclaim' with
      ⟨claim, hclaim, hkind, hadvance, hmoved⟩ | ⟨hnone, -⟩
    · rw [hkind] at hkind'
      have hlive : claim.status ≠ .cancelled := by
        intro hcancelled
        refine hnot' ((status_of_terminal hmoved ?_).trans hcancelled)
        rw [hcancelled]
        exact cancelled_terminal claim.kind
      have hwas := h.settled i k claim a hclaim
        (liveLiquidation_eq_some.2 ⟨hkind', hlive, hadvance.symm.trans hadvance'⟩) hold hsettled
      refine (status_of_terminal hmoved ?_).trans hwas
      rw [hwas, hkind']
      exact closing_terminal .liquidation
    · obtain ⟨⟨a₀, ha₀, hopen⟩, -⟩ := ((Call.step_enters hstep).new_claim (deeds_eq_none hnone)
        (deeds_getElem? hclaim')).2 hkind' k hadvance'
      obtain rfl := Option.some.inj (hold.symm.trans ha₀)
      exact absurd hsettled hopen
  · -- the call settled it, and closed the claim it settled: the one live liquidation
    obtain ⟨claim, -, hclaim, hkind, hadvance, -, -, hfms, -⟩ := settleable_eq_ok.1 hok
    obtain ⟨after, hafter, hstatus⟩ := closing_closes (r := r.approval c.env) h.shown hc.2
      (by simp [Call.closing?, hop]) hstep hclaim hfms
    change σ'.claims[r.claimId]? = some after at hafter
    rcases claim_step hreg h.shown hc.1 hstep hafter with
      ⟨before, hbefore, hkind₁, hadvance₁, -⟩ | ⟨hnone, -⟩
    · obtain rfl := Option.some.inj (hclaim.symm.trans hbefore)
      rw [hkind] at hstatus
      have hlive : after.liveLiquidation = some k := liveLiquidation_eq_some.2
        ⟨hkind₁.trans hkind, by rw [hstatus]; decide, hadvance₁.trans hadvance⟩
      obtain rfl := eq_of_nodup_filterMap (hreg.step hstep).indexed.liquidation hclaim' hafter
        hlive' hlive
      obtain rfl := Option.some.inj (hclaim'.symm.trans hafter)
      exact hstatus
    · rw [hclaim] at hnone
      cases hnone

theorem Closings.paid_step (h : Closings σ) (hreg : Regular σ) (hc : ClosesInStep σ c)
    (hstep : c.step σ = .ok σ') (hclaim' : σ'.claims[i]? = some claim')
    (hkind' : claim'.kind = .reimbursement) :
    claim'.status = .paidClosed ↔ strip (claim'.payoutRef.getD "") ≠ "" := by
  have hentry := Call.step_enters hstep
  rcases claim_step hreg h.shown hc.1 hstep hclaim' with
    ⟨claim, hclaim, hkind, -, hmoved⟩ | ⟨hnone, hdraft⟩
  · rw [hkind] at hkind'
    have hbefore := h.paid i claim hclaim hkind'
    have hcases := hentry.paid_cases (deeds_getElem? hclaim) (deeds_getElem? hclaim')
    change claim'.payoutRef = claim.payoutRef ∨ _ at hcases
    constructor
    · intro hpaid
      rcases hmoved with hsame | ⟨action, htakes, hedge⟩
      · have hwas := hsame.symm.trans hpaid
        rcases hcases with href | ⟨r, claim₁, -, -, hclaim₁, hfms⟩
        · rw [href]
          exact hbefore.1 hwas
        · obtain rfl := Option.some.inj (hclaim.symm.trans hclaim₁)
          rw [hwas] at hfms
          cases hfms
      · obtain ⟨rfl, hfms⟩ := (edge_closing hedge).1 (by rw [hpaid, hkind']; rfl)
        obtain ⟨σ₀, claim₀, hclaim₀, hspine, hmoney, hdeeds, -⟩ :=
          approval_guarded htakes hstep hclaim hfms
        have hkind₀ : claim₀.kind = .reimbursement := (congrArg Spine.kind hspine).trans hkind'
        have hdeed : claim'.deed = claim₀.deed := by
          have hd := deeds_getElem? hclaim'
          rw [hdeeds] at hd
          exact Option.some.inj (hd.symm.trans (deeds_getElem? hclaim₀))
        have href : claim'.payoutRef = claim₀.payoutRef := congrArg Deed.payoutRef hdeed
        simp only [moneyRecorded, hkind₀, assertPayoutRecorded, refuse_eq_ok] at hmoney
        rw [href]
        exact hmoney
    · intro href
      rcases hcases with hsame | ⟨r, claim₁, hop, rfl, hclaim₁, hfms⟩
      · rw [hsame] at href
        have hwas := hbefore.2 href
        refine (status_of_terminal hmoved ?_).trans hwas
        rw [hwas, hkind']
        exact closing_terminal .reimbursement
      · obtain rfl := Option.some.inj (hclaim.symm.trans hclaim₁)
        obtain ⟨after, hafter, hstatus⟩ := closing_closes (r := r.approval c.env) h.shown hc.2
          (by simp [Call.closing?, hop]) hstep hclaim hfms
        obtain rfl := Option.some.inj (hclaim'.symm.trans hafter)
        rw [hkind'] at hstatus
        exact hstatus
  · have hnew := (hentry.new_claim (deeds_eq_none hnone) (deeds_getElem? hclaim')).1
    change claim'.payoutRef = none at hnew
    rw [hdraft, hnew]
    decide

theorem Closings.step (h : Closings σ) (hreg : Regular σ) (hc : ClosesInStep σ c)
    (hstep : c.step σ = .ok σ') : Closings σ' where
  shown := shown_step hreg h.shown hc.1 hstep
  banked _ _ ha := (Call.step_enters hstep).banked h.banked ha
  dated _ hd := (Call.step_enters hstep).dated h.dated hd
  linked _ _ hclaim' := h.linked_step hreg hc hstep hclaim'
  settled _ _ _ _ hclaim' hlive' ha := h.settled_step hreg hc hstep hclaim' hlive' ha
  paid _ _ hclaim' := h.paid_step hreg hc hstep hclaim'

theorem Closings.moneyFirst (h : Closings σ) (hreg : Regular σ) : MoneyFirst σ := by
  intro i claim hclaim
  refine ⟨fun hkind => ⟨fun hstatus => ?_, ?_⟩, fun hkind => ?_⟩
  · obtain ⟨k, a, hk, ha, hsettled⟩ := h.linked i claim hclaim hkind hstatus
    have hlive : claim.liveLiquidation = some k :=
      liveLiquidation_eq_some.2 ⟨hkind, by rw [hstatus]; decide, hk⟩
    exact ⟨k, a, hlive, ha, hsettled, h.banked k a ha hsettled, fun i' claim' hclaim' hlive' =>
      eq_of_nodup_filterMap hreg.indexed.liquidation hclaim' hclaim hlive' hlive⟩
  · rintro ⟨k, a, hlive, ha, hsettled, -, -⟩
    exact h.settled i k claim a hclaim hlive ha hsettled
  · rw [h.paid i claim hclaim hkind]
    refine ⟨fun href => ⟨href, ?_⟩, And.left⟩
    refine h.dated claim.deed (List.mem_of_getElem? (deeds_getElem? hclaim)) fun hnone => href ?_
    change claim.payoutRef = none at hnone
    rw [hnone]
    decide

end

/-! ## Runs -/

/-- In every run whose replays that return are in place and whose closings are no replays, a
liquidation is settled exactly with its advance and a reimbursement closed exactly with its
payment. -/
theorem moneyFirst_runStore (calls : List Call)
    (hcalls : Conforms Call.step (OnReturn Call.step ClosesInStep) {} calls) :
    MoneyFirst (runStore calls) := by
  have hclosings : Closings (runStore calls) := by
    refine reachable_invariant (fun done c σ' hc h hok => ?_) ⟨shown_empty, ?_, ?_, ?_, ?_, ?_⟩ calls
      hcalls
    · exact h.step (regular_runStore done) (hc.of_ok hok) hok
    all_goals simp [Store.deeds]
  exact hclosings.moneyFirst (regular_runStore calls)

/-- An over-advance is settled by claim 0, and the difference is claimed and paid by claim 1. -/
def payTrip : List Op := settleTrip 1000 ++ [
  .spawn { liquidationClaimId := 0, actorUserId := 1 },
  .submit { claimId := 1, actorUserId := 1 }] ++ signTrip 1 ++ [
  .payout { claimId := 1, actorUserId := 3, payoutRef := some "LDDAP 7", paidOn := some 20453 }]

theorem payTrip_moneyFirst :
    (runStore (inOffice payTrip)).claims.map (·.status) = [.settled, .paidClosed] ∧
    MoneyFirst (runStore (inOffice payTrip)) :=
  ⟨by decide +kernel, moneyFirst_runStore (inOffice payTrip)
    (Conforms.onReturn (P := ClosesInStep) (by decide +kernel))⟩

/-- The first certifier's request comes again after the settlement: the advance is settled, and its
one liquidation shows `certify_c`. -/
theorem lateRetry_not_moneyFirst :
    ¬ MoneyFirst (runStore (lateRetry ++ inOffice [.act (firstSignature 0)])) := by
  intro h
  set σ := runStore (lateRetry ++ inOffice [.act (firstSignature 0)]) with hσ
  obtain ⟨claim, hclaim, hrow⟩ := exists_eq_some (o := σ.claims[0]?)
    (fun c => c.kind = .liquidation ∧ c.status = .certifyC ∧ c.cashAdvanceId = some 0)
    (by rw [hσ]; decide +kernel)
  obtain ⟨a, ha, hadvance⟩ := exists_eq_some (o := σ.advances[0]?)
    (fun a => a.status = .settled ∧ a.settlementMode ≠ none) (by rw [hσ]; decide +kernel)
  have hone : σ.claims.length = 1 := by
    rw [hσ]
    decide +kernel
  simp only [decide_eq_true_eq] at hrow hadvance
  obtain ⟨hkind, hstatus, hlink⟩ := hrow
  have hsettled := ((h 0 claim hclaim).1 hkind).2 ⟨0, a, liveLiquidation_eq_some.2
    ⟨hkind, by rw [hstatus]; decide, hlink⟩, ha, hadvance.1, hadvance.2, fun i' claim' hclaim' _ => by
      have := (List.getElem?_eq_some_iff.1 hclaim').1
      omega⟩
  rw [hstatus] at hsettled
  cases hsettled

end OfficeConnect.Reimbursement
