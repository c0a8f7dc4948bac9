import OfficeConnect.Reimbursement.InPlace
import OfficeConnect.Reimbursement.SettlementLaw

/-!
# A spawn is owed something

A reimbursement that nets a cash advance enters the chain by two doors.  The submission refuses one
that is priced below its advance; the resubmission prices the claim again and asks nothing.
-/

namespace OfficeConnect.Reimbursement

open Lib Workflow

/-! ## The rule and the condition -/

/-- The states between the two doors and the money. -/
def inChain : List Status := [.divisionApproval, .adminReview, .handedToFms]

/-- No reimbursement that nets an advance is in the chain with money to refund. -/
def NetsAbove (σ : Store) : Prop :=
  ∀ (i : ℕ) (claim : Claim), σ.claims[i]? = some claim → claim.kind = .reimbursement →
    claim.cashAdvanceId ≠ none → claim.status ∈ inChain → ∀ t ∈ claim.totals, ¬ 0 < t.toRefund

/-- A resubmission of a reimbursement that nets an advance prices it at no less than the advance. -/
def ResubmitsAbove (σ : Store) (c : Call) : Prop :=
  ∀ r ∈ c.action?, r.action = .resubmit → ∀ claim ∈ σ.claims[r.claimId]?,
    claim.kind = .reimbursement → claim.cashAdvanceId ≠ none →
    ∀ result ∈ (claimPerDiem c.env σ r.claimId claim).toOption,
      σ.advanceAmount claim ≤ result.perDiemTotal + result.transportTotal + claim.trip.otherTotal

instance (σ : Store) (c : Call) : Decidable (ResubmitsAbove σ c) :=
  inferInstanceAs (Decidable (∀ r ∈ c.action?, r.action = .resubmit →
    ∀ claim ∈ σ.claims[r.claimId]?, claim.kind = .reimbursement → claim.cashAdvanceId ≠ none →
      ∀ result ∈ (claimPerDiem c.env σ r.claimId claim).toOption,
        σ.advanceAmount claim ≤
          result.perDiemTotal + result.transportTotal + claim.trip.otherTotal))

/-- Replays are in place, and no resubmission is below its advance. -/
def ResubmitsOwed (σ : Store) (c : Call) : Prop := ReplaysInPlace σ c ∧ ResubmitsAbove σ c

instance (σ : Store) (c : Call) : Decidable (ResubmitsOwed σ c) :=
  inferInstanceAs (Decidable (_ ∧ _))

/-! ## The two doors -/

/-- The chain is entered by a submission or a resubmission, and climbed by approvals. -/
theorem edge_inChain {action : Action} {before after : Status}
    (h : Edge .reimbursement action before after) (hafter : after ∈ inChain) :
    action = .submit ∨ action = .resubmit ∨ (action = .approve ∧ before ∈ inChain) := by
  have hall : ∀ t ∈ (chain .reimbursement).transitions, ∀ s ∈ state? t.fromStateId,
      ∀ s' ∈ state? t.toStateId, s'.code ∈ inChain →
        t.action = .submit ∨ t.action = .resubmit ∨ (t.action = .approve ∧ s.code ∈ inChain) := by
    decide
  obtain ⟨t, ht, rfl, s, hs, s', hs', rfl, rfl⟩ := h
  exact hall t ht s hs s' hs' hafter

section

variable {env : Env} {c : Call} {σ σ' : Store} {i : ℕ} {claim claim' : Claim} {now : Time}

theorem preparePacket_owed {p : Claim × Store} (h : preparePacket env σ i now = .ok p) :
    p.1.kind = .reimbursement → p.1.cashAdvanceId ≠ none → ∀ t ∈ p.1.totals, ¬ 0 < t.toRefund := by
  simp only [preparePacket, bind_eq_ok, refuse_eq_ok, pure_eq_ok] at h
  obtain ⟨σ₁, -, priced, -, -, hguard, -, -, rfl⟩ := h
  intro hkind hadvance t ht hrefund
  exact hguard ⟨hkind, hadvance, t, ht, hrefund⟩

/-- The columns of a submitted claim that the submission prices. -/
theorem submitClaim_priced {r : Submit} (h : submitClaim env r σ = .ok σ')
    (hclaim' : σ'.claims[r.claimId]? = some claim') :
    ∃ p, preparePacket env σ r.claimId (env.at r.now) = .ok p ∧ claim'.kind = p.1.kind ∧
      claim'.cashAdvanceId = p.1.cashAdvanceId ∧ claim'.totals = p.1.totals := by
  obtain ⟨claim, priced, packet, inst, v, e, inst', dest, entered, hs⟩ := submitClaim_eq_ok h
  obtain ⟨after, hafter, -, hbody⟩ := hs.performed.claim_after
  obtain rfl := Option.some.inj (hclaim'.symm.trans hafter)
  have hkind := congrArg Claim.kind hbody
  have hadvance := congrArg Claim.cashAdvanceId hbody
  have hsnapshot := congrArg Claim.totals hbody
  exact ⟨(priced, packet), hs.prepared, hkind, hadvance, hsnapshot⟩

/-- The snapshot a resubmission leaves. -/
theorem resubmit_priced {r : ActionRequest} (h : claimAction env r σ = .ok σ')
    (hverb : r.action = .resubmit) (hclaim : σ.claims[r.claimId]? = some claim)
    (hclaim' : σ'.claims[r.claimId]? = some claim') :
    ∃ result, claimPerDiem env σ r.claimId claim = .ok result ∧
      claim'.totals = some (totalsOf result claim.trip.otherTotal (σ.advanceAmount claim)
        env.utcNow) := by
  obtain ⟨claim₀, j, inst, σ₁, priced, amount, v, e, inst', dest, returns, ha⟩ :=
    claimAction_acted h
  obtain rfl := Option.some.inj (hclaim.symm.trans ha.row)
  rcases prepareAction_eq_ok.1 ha.prepared with ⟨-, hrefresh⟩ | ⟨hne, -⟩
  · obtain ⟨σ₂, claim₂, htotals, hclaim₂, hσ₁⟩ := refreshForResubmit_eq_ok hrefresh
    obtain ⟨claim₃, result, hclaim₃, hresult, rfl⟩ := computeClaimTotals_eq_ok htotals
    obtain rfl := Option.some.inj (hclaim.symm.trans hclaim₃)
    refine ⟨result, hresult, ?_⟩
    have hrow : σ₁.claims[r.claimId]? = some { claim with
        trip := { claim.trip with otherTotal := claim.trip.otherTotal }
        totals := some (totalsOf result claim.trip.otherTotal (σ.advanceAmount claim)
          env.utcNow) } := by
      rw [hσ₁]
      exact getElem?_modify_self _ hclaim
    obtain rfl := Option.some.inj (hrow.symm.trans ha.performed.row)
    obtain ⟨after, hafter, -, hbody⟩ := ha.performed.claim_after
    obtain rfl := Option.some.inj (hclaim'.symm.trans hafter)
    have hsnapshot := congrArg Claim.totals hbody
    exact hsnapshot
  · exact absurd hverb hne

theorem toRefund_totalsOf {result : PerDiemResult} {other advance : ℤ} {now : Time}
    (h : advance ≤ result.perDiemTotal + result.transportTotal + other) :
    ¬ 0 < (totalsOf result other advance now).toRefund := by
  simp only [totalsOf, settle]
  omega

/-! ## One step -/

/-- A claim in the chain is not priced again but by a resubmission. -/
theorem inChain_not_repriceable (hshown : ∀ i f, σ.file? i = some f → Shown f)
    (hclaim : σ.claims[i]? = some claim) (hstatus : claim.status ∈ inChain)
    (hresubmit : ¬ ∃ r, c.op = .act r ∧ r.claimId = i ∧ r.action = .resubmit) :
    ¬ Repriceable c σ i := by
  rintro ⟨claim₁, hclaim₁, hopen⟩
  obtain rfl := Option.some.inj (hclaim.symm.trans hclaim₁)
  have hst := (hshown i _ (exists_file hclaim)).standing
  rcases hopen with hdraft | hreturned | hlink | hact
  · rw [hdraft] at hstatus
    exact absurd hstatus (by decide)
  · rw [hreturned] at hstatus
    exact absurd hstatus (by decide)
  · have hunlinked : claim.status = .draft ∨ claim.status = .cancelled := hst.unlinked hlink
    rcases hunlinked with h | h <;> rw [h] at hstatus <;> exact absurd hstatus (by decide)
  · exact hresubmit hact

theorem NetsAbove.step (h : NetsAbove σ) (hreg : Regular σ)
    (hshown : ∀ i f, σ.file? i = some f → Shown f) (hc : ResubmitsOwed σ c)
    (hstep : c.step σ = .ok σ') : NetsAbove σ' := by
  intro i claim' hclaim' hkind' hadvance' hstatus' t ht
  rcases claim_step hreg hshown hc.1 hstep hclaim' with
    ⟨claim, hclaim, hkind, hadvance, hmoved⟩ | ⟨-, hdraft⟩
  · by_cases hsubmit : ∃ r, c.op = .submit r ∧ r.claimId = i
    · obtain ⟨r, hop, rfl⟩ := hsubmit
      simp only [Call.step, hop] at hstep
      obtain ⟨p, hprep, hkind₁, hadvance₁, htotals⟩ := submitClaim_priced hstep hclaim'
      rw [htotals] at ht
      exact preparePacket_owed hprep (hkind₁.symm.trans hkind') (hadvance₁ ▸ hadvance') t ht
    by_cases hresubmit : ∃ r, c.op = .act r ∧ r.claimId = i ∧ r.action = .resubmit
    · obtain ⟨r, hop, rfl, hverb⟩ := hresubmit
      simp only [Call.step, hop] at hstep
      obtain ⟨result, hresult, htotals⟩ := resubmit_priced hstep hverb hclaim hclaim'
      rw [htotals] at ht
      obtain rfl := Option.some.inj ht
      refine toRefund_totalsOf ?_
      exact hc.2 r (by simp [Call.action?, hop]) hverb claim hclaim (hkind.symm.trans hkind')
        (hadvance ▸ hadvance') result (by rw [hresult]; rfl)
    · -- past both doors the claim was in the chain before, with the snapshot it has now
      have hwas : claim.status ∈ inChain := by
        rcases hmoved with hsame | ⟨action, htakes, hedge⟩
        · rw [← hsame]
          exact hstatus'
        · rw [← hkind, hkind'] at hedge
          rcases edge_inChain hedge hstatus' with rfl | rfl | ⟨-, hbefore⟩
          · rcases htakes with hcancel | ⟨r, hop, hi, -⟩ | ⟨r, hr, -, hverb⟩
            · cases hcancel
            · exact absurd ⟨r, hop, hi⟩ hsubmit
            · obtain ⟨σ₀, hact, -⟩ := Call.step_action hr hstep
              have hknown := (claimAction_eq_ok.1 hact).1
              rw [hverb] at hknown
              exact absurd hknown (by decide)
          · rcases htakes with hcancel | ⟨r, -, -, hverb⟩ | ⟨r, hr, hi, hverb⟩
            · cases hcancel
            · cases hverb
            · exact absurd ⟨r, op_of_resubmit hr hverb, hi, hverb⟩ hresubmit
          · exact hbefore
      have hkept := (Call.step_moves hstep).1.kept_of_not
        (inChain_not_repriceable hshown hclaim hwas hresubmit) hclaim hclaim'
      rw [hkept] at ht
      exact h i claim hclaim (hkind.symm.trans hkind') (hadvance ▸ hadvance') hwas t ht
  · rw [hdraft] at hstatus'
    exact absurd hstatus' (by decide)

end

/-! ## Runs -/

/-- In every run whose replays that return are in place and whose resubmissions are owed something, no
spawn is in the chain with money to refund. -/
theorem netsAbove_runStore (calls : List Call)
    (hcalls : Conforms Call.step (OnReturn Call.step ResubmitsOwed) {} calls) :
    NetsAbove (runStore calls) := by
  have hinv : (∀ i f, (runStore calls).file? i = some f → Shown f) ∧ NetsAbove (runStore calls) := by
    refine reachable_invariant (I := fun σ : Store =>
      (∀ i f, σ.file? i = some f → Shown f) ∧ NetsAbove σ) (fun done c σ' hreturned h hok => ?_)
      ⟨shown_empty, fun i claim hclaim => by simp at hclaim⟩ calls hcalls
    have hreg := regular_runStore done
    have hc : ResubmitsOwed (runStore done) c := hreturned.of_ok hok
    exact ⟨shown_step hreg h.1 hc.1 hok, h.2.step hreg h.1 hc hok⟩
  exact hinv.2

/-- The over-advance settled by claim 0 is claimed by claim 1, which its first approver returns. -/
def returnSpawn : List Op := settleTrip 1000 ++ [
  .spawn { liquidationClaimId := 0, actorUserId := 1 },
  .submit { claimId := 1, actorUserId := 1 },
  .act { claimId := 1, action := .return, actorUserId := 2, comment := some "fix", reasonIds := [1] }]

def resubmitSpawn : Op := .act { claimId := 1, action := .resubmit, actorUserId := 1 }

theorem returnSpawn_netsAbove :
    (runStore (inOffice (returnSpawn ++ [resubmitSpawn]))).claims.map (·.status) =
      [.settled, .divisionApproval] ∧
    NetsAbove (runStore (inOffice (returnSpawn ++ [resubmitSpawn]))) :=
  ⟨by decide +kernel,
    netsAbove_runStore (inOffice (returnSpawn ++ [resubmitSpawn]))
      (Conforms.onReturn (P := ResubmitsOwed) (by decide +kernel))⟩

/-- While it is returned the traveller takes lodging and meals off the trip. -/
def cheapSpawn : List Op := returnSpawn ++ [
  .replaceLegs { claimId := 1, actorUserId := 1, legs := [{ inputs := {
    legDate := some 20454, lodgingProvided := true, mealsProvided := true } }] },
  resubmitSpawn]

/-- The claim is at its first gate again, and money is to be refunded on it. -/
theorem cheapSpawn_not_netsAbove : ¬ NetsAbove (runStore (inOffice cheapSpawn)) := by
  intro h
  obtain ⟨claim, hclaim, hrow⟩ := exists_eq_some (o := (runStore (inOffice cheapSpawn)).claims[1]?)
    (fun c => c.kind = .reimbursement ∧ c.cashAdvanceId ≠ none ∧ c.status = .divisionApproval ∧
      c.totals.any (0 < ·.toRefund)) (by decide +kernel)
  simp only [decide_eq_true_eq] at hrow
  obtain ⟨hkind, hadvance, hstatus, htotals⟩ := hrow
  obtain ⟨t, ht, hrefund⟩ := exists_eq_some _ htotals
  exact h 1 claim hclaim hkind hadvance (by rw [hstatus]; decide) t ht (by simpa using hrefund)

end OfficeConnect.Reimbursement
