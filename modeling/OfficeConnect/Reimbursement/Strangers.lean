import OfficeConnect.Reimbursement.Machine

/-!
# What a stranger hears

Eight services are called on a record by id.  An actor who is neither its owner nor its overseer is
refused by all of them, and the refusal should not depend on what is in the record.  Six check the
actor before they read anything else; the spawn reads the claim's kind first, and the start of a
liquidation reads the advance's status first.
-/

namespace OfficeConnect.Reimbursement

open Lib Workflow

/-! ## Probes -/

inductive Target where
  | claim (id : ℕ)
  | advance (id : ℕ)
deriving DecidableEq, Repr

/-- The record a service is called on, and by whom. -/
def Op.probe? : Op → Option (Target × ℕ)
  | .submit r => some (.claim r.claimId, r.actorUserId)
  | .cancelDraft r => some (.claim r.claimId, r.actorUserId)
  | .act r => some (.claim r.claimId, r.actorUserId)
  | .editDraft r => some (.claim r.claimId, r.actorUserId)
  | .replaceLegs r => some (.claim r.claimId, r.actorUserId)
  | .recomputeTotals claimId actor => some (.claim claimId, actor)
  | .spawn r => some (.claim r.liquidationClaimId, r.actorUserId)
  | .startLiquidation r => some (.advance r.cashAdvanceId, r.actorUserId)
  | _ => none

/-- The stores differ in the contents of one record at most, an instance of the claim included; the
record is there in both and has one owner. -/
def AgreeBut : Target → Store → Store → Prop
  | .claim i, σ, τ => ∃ claim claim', σ.claims[i]? = some claim ∧
      claim'.claimantId = claim.claimantId ∧
      τ = { σ with claims := σ.claims.modify i fun _ => claim', instances := τ.instances }
  | .advance k, σ, τ => ∃ a a', σ.advances[k]? = some a ∧ a'.claimantId = a.claimantId ∧
      τ = { σ with advances := σ.advances.modify k fun _ => a' }

/-- Neither the owner of the claim nor an overseer; no service knows overseers of an advance, so
there a stranger is anyone but its holder. -/
def Stranger (env : Env) (actor : ℕ) : Target → Store → Prop
  | .claim i, σ => ∀ claim ∈ σ.claims[i]?, maySeeClaim env σ claim actor = false
  | .advance k, σ => ∀ a ∈ σ.advances[k]?, ∀ u ∈ env.directory.user? actor,
      u.staffId ≠ some a.claimantId

instance (env : Env) (actor : ℕ) (target : Target) (σ : Store) :
    Decidable (Stranger env actor target σ) :=
  match target with
  | .claim i => inferInstanceAs (Decidable (∀ claim ∈ σ.claims[i]?,
      maySeeClaim env σ claim actor = false))
  | .advance k => inferInstanceAs (Decidable (∀ a ∈ σ.advances[k]?,
      ∀ u ∈ env.directory.user? actor, u.staffId ≠ some a.claimantId))

/-- The call is refused with one error in both stores and writes neither. -/
def RefusedAlike (c : Call) (σ τ : Store) : Prop :=
  (∃ e, c.step σ = .error e ∧ c.step τ = .error e) ∧
    commit Call.step σ c = σ ∧ commit Call.step τ c = τ

/-- What the two early checks read is the same in both stores. -/
def SameFace : Op → Store → Store → Prop
  | .spawn r, σ, τ =>
      (∃ claim ∈ σ.claims[r.liquidationClaimId]?, claim.kind = .liquidation) ↔
        ∃ claim ∈ τ.claims[r.liquidationClaimId]?, claim.kind = .liquidation
  | .startLiquidation r, σ, τ =>
      (∃ a ∈ σ.advances[r.cashAdvanceId]?, a.status = .settled) ↔
        ∃ a ∈ τ.advances[r.cashAdvanceId]?, a.status = .settled
  | _, _, _ => True

/-! ## The refusal of a stranger -/

/-- The error a stranger gets. -/
def Op.refusal (op : Op) (σ : Store) : Raised :=
  match op with
  | .act r => if r.action ∈ claimActions then notClaimOwner else unsupportedClaimAction r.action
  | .spawn r =>
      if ∃ claim ∈ σ.claims[r.liquidationClaimId]?, claim.kind = .liquidation then notAdvanceHolder
      else notALiquidation
  | .startLiquidation r =>
      if ∃ a ∈ σ.advances[r.cashAdvanceId]?, a.status = .settled then
        cashAdvanceAlreadySettledForLiquidation
      else notAdvanceHolder
  | _ => notClaimOwner

section

variable {env : Env} {σ τ : Store} {i actor : ℕ} {claim : Claim} {c : Call} {target : Target}

theorem not_owner_of_not_see (h : maySeeClaim env σ claim actor = false) :
    isClaimOwner env claim actor = false := by
  simp only [maySeeClaim, Bool.or_eq_false_iff] at h
  exact h.1

theorem not_user_of_not_owner (h : isClaimOwner env claim actor = false) :
    ∀ u ∈ env.directory.user? actor, u.staffId ≠ some claim.claimantId := by
  intro u hu hstaff
  rw [isClaimOwner, hu, Option.any_some] at h
  simp [hstaff] at h

theorem ownedEditableClaim_stranger (hrow : σ.claims[i]? = some claim)
    (h : isClaimOwner env claim actor = false) :
    ownedEditableClaim env σ i actor = .error notClaimOwner := by
  simp [ownedEditableClaim, lockedClaim, hrow, h, refuse]

theorem submitClaim_stranger {r : Submit} (hrow : σ.claims[r.claimId]? = some claim)
    (h : isClaimOwner env claim r.actorUserId = false) :
    submitClaim env r σ = .error notClaimOwner := by
  simp [submitClaim, submittable, lockedClaim, hrow, h, refuse]

theorem cancelDraftClaim_stranger {r : CancelDraft} (hrow : σ.claims[r.claimId]? = some claim)
    (h : isClaimOwner env claim r.actorUserId = false) :
    cancelDraftClaim env r σ = .error notClaimOwner := by
  simp [cancelDraftClaim, lockedClaim, hrow, h, refuse]

theorem claimAction_stranger {r : ActionRequest} (hrow : σ.claims[r.claimId]? = some claim)
    (h : maySeeClaim env σ claim r.actorUserId = false) :
    claimAction env r σ = .error (Op.refusal (.act r) σ) := by
  by_cases hknown : r.action ∈ claimActions
  · simp [claimAction, Op.refusal, lockedClaim, hrow, h, hknown, refuse]
  · simp [claimAction, Op.refusal, hknown, refuse]

theorem spawnReimbursement_stranger {r : Spawn}
    (hrow : σ.claims[r.liquidationClaimId]? = some claim)
    (h : ∀ u ∈ env.directory.user? r.actorUserId, u.staffId ≠ some claim.claimantId) :
    spawnReimbursement env r σ = .error (Op.refusal (.spawn r) σ) := by
  by_cases hkind : claim.kind = .liquidation
  · cases hu : env.directory.user? r.actorUserId with
    | none =>
        simp [spawnReimbursement, spawnable, Op.refusal, lockedClaim, hrow, hkind, hu, refuse]
    | some u =>
        have hstaff := h u hu
        simp [spawnReimbursement, spawnable, Op.refusal, lockedClaim, hrow, hkind, hu, hstaff,
          refuse]
  · simp [spawnReimbursement, spawnable, Op.refusal, lockedClaim, hrow, hkind, refuse]

theorem startLiquidation_stranger {r : StartLiquidation} {a : CashAdvance}
    (hrow : σ.advances[r.cashAdvanceId]? = some a)
    (h : ∀ u ∈ env.directory.user? r.actorUserId, u.staffId ≠ some a.claimantId) :
    startLiquidation env r σ = .error (Op.refusal (.startLiquidation r) σ) := by
  by_cases hsettled : a.status = .settled
  · simp [startLiquidation, Op.refusal, hrow, hsettled, refuse]
  · cases hu : env.directory.user? r.actorUserId with
    | none => simp [startLiquidation, Op.refusal, hrow, hsettled, hu, refuse]
    | some u =>
        have hstaff := h u hu
        simp [startLiquidation, Op.refusal, hrow, hsettled, hu, hstaff, refuse]

/-- The record is there. -/
def Target.Exists : Target → Store → Prop
  | .claim i, σ => ∃ claim, σ.claims[i]? = some claim
  | .advance k, σ => ∃ a, σ.advances[k]? = some a

/-- Every service refuses a stranger, with the error its early checks choose. -/
theorem Call.step_stranger (hprobe : c.op.probe? = some (target, actor)) (hrow : target.Exists σ)
    (h : Stranger c.env actor target σ) : c.step σ = .error (c.op.refusal σ) := by
  obtain ⟨env, op⟩ := c
  have hclaim : ∀ {i : ℕ}, target = .claim i → ∃ claim, σ.claims[i]? = some claim ∧
      maySeeClaim env σ claim actor = false ∧ isClaimOwner env claim actor = false := by
    rintro i rfl
    obtain ⟨claim, hclaim⟩ := hrow
    have hsee := h claim hclaim
    exact ⟨claim, hclaim, hsee, not_owner_of_not_see hsee⟩
  cases op with
  | submit r =>
      obtain ⟨rfl, rfl⟩ := Prod.mk.inj (Option.some.inj hprobe)
      obtain ⟨claim, hclaim, -, howner⟩ := hclaim rfl
      exact submitClaim_stranger hclaim howner
  | cancelDraft r =>
      obtain ⟨rfl, rfl⟩ := Prod.mk.inj (Option.some.inj hprobe)
      obtain ⟨claim, hclaim, -, howner⟩ := hclaim rfl
      exact cancelDraftClaim_stranger hclaim howner
  | act r =>
      obtain ⟨rfl, rfl⟩ := Prod.mk.inj (Option.some.inj hprobe)
      obtain ⟨claim, hclaim, hsee, -⟩ := hclaim rfl
      exact claimAction_stranger hclaim hsee
  | editDraft r =>
      obtain ⟨rfl, rfl⟩ := Prod.mk.inj (Option.some.inj hprobe)
      obtain ⟨claim, hclaim, -, howner⟩ := hclaim rfl
      simp [Call.step, updateDraftFields, ownedEditableClaim_stranger hclaim howner, Op.refusal]
  | replaceLegs r =>
      obtain ⟨rfl, rfl⟩ := Prod.mk.inj (Option.some.inj hprobe)
      obtain ⟨claim, hclaim, -, howner⟩ := hclaim rfl
      simp [Call.step, replaceLegs, ownedEditableClaim_stranger hclaim howner, Op.refusal]
  | recomputeTotals claimId actor =>
      obtain ⟨rfl, rfl⟩ := Prod.mk.inj (Option.some.inj hprobe)
      obtain ⟨claim, hclaim, -, howner⟩ := hclaim rfl
      simp [Call.step, recomputeTotals, ownedEditableClaim_stranger hclaim howner, Op.refusal]
  | spawn r =>
      obtain ⟨rfl, rfl⟩ := Prod.mk.inj (Option.some.inj hprobe)
      obtain ⟨claim, hclaim, -, howner⟩ := hclaim rfl
      exact spawnReimbursement_stranger hclaim (not_user_of_not_owner howner)
  | startLiquidation r =>
      obtain ⟨rfl, rfl⟩ := Prod.mk.inj (Option.some.inj hprobe)
      obtain ⟨a, ha⟩ := hrow
      exact startLiquidation_stranger ha (h a ha)
  | _ => cases hprobe

theorem agreeBut_setClaim (f : Claim → Claim) (hf : (f claim).claimantId = claim.claimantId)
    (hrow : σ.claims[i]? = some claim) : AgreeBut (.claim i) σ (σ.setClaim i f) := by
  refine ⟨claim, f claim, hrow, hf, ?_⟩
  rw [Store.setClaim, modify_congr_self hrow]

theorem AgreeBut.exists_left (h : AgreeBut target σ τ) : target.Exists σ := by
  cases target with
  | claim i =>
      obtain ⟨claim, _, hrow, -⟩ := h
      exact ⟨claim, hrow⟩
  | advance k =>
      obtain ⟨a, _, hrow, -⟩ := h
      exact ⟨a, hrow⟩

theorem AgreeBut.exists_right (h : AgreeBut target σ τ) : target.Exists τ := by
  cases target with
  | claim i =>
      obtain ⟨claim, claim', hrow, -, hτ⟩ := h
      refine ⟨claim', ?_⟩
      rw [hτ]
      exact getElem?_modify_self _ hrow
  | advance k =>
      obtain ⟨a, a', hrow, -, hτ⟩ := h
      refine ⟨a', ?_⟩
      rw [hτ]
      exact getElem?_modify_self _ hrow

/-- The two early checks choose between errors that differ. -/
theorem refusal_eq_iff (op : Op) (σ τ : Store) : op.refusal σ = op.refusal τ ↔ SameFace op σ τ := by
  cases op with
  | spawn r =>
      simp only [Op.refusal, SameFace]
      split_ifs with hσ hτ hτ
      · exact iff_of_true rfl (iff_of_true hσ hτ)
      · exact iff_of_false (by decide) fun h => hτ (h.1 hσ)
      · exact iff_of_false (by decide) fun h => hσ (h.2 hτ)
      · exact iff_of_true rfl (iff_of_false hσ hτ)
  | startLiquidation r =>
      simp only [Op.refusal, SameFace]
      split_ifs with hσ hτ hτ
      · exact iff_of_true rfl (iff_of_true hσ hτ)
      · exact iff_of_false (by decide) fun h => hτ (h.1 hσ)
      · exact iff_of_false (by decide) fun h => hσ (h.2 hτ)
      · exact iff_of_true rfl (iff_of_false hσ hτ)
  | _ => exact iff_of_true rfl trivial

end

/-! ## Two stores -/

/-- A stranger hears the same of two stores exactly when the kind that a spawn reads, and the
status that the start of a liquidation reads, answer alike. -/
theorem refusedAlike_iff (c : Call) (σ τ : Store) (target : Target) (actor : ℕ)
    (hprobe : c.op.probe? = some (target, actor)) (hagree : AgreeBut target σ τ)
    (hσ : Stranger c.env actor target σ) (hτ : Stranger c.env actor target τ) :
    RefusedAlike c σ τ ↔ SameFace c.op σ τ := by
  have hleft := Call.step_stranger hprobe hagree.exists_left hσ
  have hright := Call.step_stranger hprobe hagree.exists_right hτ
  rw [← refusal_eq_iff, RefusedAlike, commit, commit, hleft, hright]
  constructor
  · rintro ⟨⟨e, he, he'⟩, -⟩
    exact (Except.error.inj he).trans (Except.error.inj he').symm
  · intro heq
    exact ⟨⟨_, rfl, by rw [heq]⟩, rfl, rfl⟩

/-- The office with a visitor, user 4, who holds nothing. -/
def lobby : Env := { office with
  directory := { office.directory with users := office.directory.users ++ [
    { id := 4, staffId := some 4 }] } }

/-- A claim of either kind, drafted by user 1. -/
def drafted (kind : Kind) : Store := runStore [{ env := lobby, op := .createDraft 1 kind none }]

/-- The visitor tries to approve claim 0. -/
def visitorApproves : Call :=
  { env := lobby, op := .act { claimId := 0, action := .approve, actorUserId := 4 } }

/-- Whether the claim is a draft or cancelled, the visitor hears the same. -/
theorem visitorApproves_alike :
    RefusedAlike visitorApproves (drafted .liquidation)
      ((drafted .liquidation).setClaim 0 fun c => { c with status := .cancelled }) := by
  obtain ⟨claim, hclaim, -⟩ := exists_eq_some (o := (drafted .liquidation).claims[0]?)
    (fun _ => true) (by decide +kernel)
  exact (refusedAlike_iff visitorApproves _ _ (.claim 0) 4 rfl (agreeBut_setClaim _ rfl hclaim)
    (by decide +kernel) (by decide +kernel)).2 trivial

/-- The visitor tries to spawn from claim 0. -/
def visitorSpawns : Call :=
  { env := lobby, op := .spawn { liquidationClaimId := 0, actorUserId := 4 } }

/-- A spawn tells the visitor whether the claim is a liquidation. -/
theorem visitorSpawns_hears : ¬ ∀ (c : Call) (σ τ : Store) (target : Target) (actor : ℕ),
    c.op.probe? = some (target, actor) → AgreeBut target σ τ → Stranger c.env actor target σ →
    Stranger c.env actor target τ → RefusedAlike c σ τ := by
  intro h
  obtain ⟨claim, hclaim, -⟩ := exists_eq_some (o := (drafted .liquidation).claims[0]?)
    (fun _ => true) (by decide +kernel)
  have hdrafts : drafted .reimbursement = (drafted .liquidation).setClaim 0 fun c => { c with
      kind := .reimbursement
      nextAction := (vocabulary .reimbursement).nextAction? .draft } := by
    decide +kernel
  have hagree : AgreeBut (.claim 0) (drafted .liquidation) (drafted .reimbursement) := by
    rw [hdrafts]
    exact agreeBut_setClaim _ rfl hclaim
  obtain ⟨⟨e, hleft, hright⟩, -⟩ := h visitorSpawns (drafted .liquidation) (drafted .reimbursement)
    (.claim 0) 4 rfl hagree (by decide +kernel) (by decide +kernel)
  have hdiffer : visitorSpawns.step (drafted .liquidation) ≠
      visitorSpawns.step (drafted .reimbursement) := by
    rw [Call.step_stranger rfl hagree.exists_left
        (by decide +kernel),
      Call.step_stranger rfl hagree.exists_right
        (by decide +kernel)]
    decide +kernel
  exact hdiffer (hleft.trans hright.symm)

end OfficeConnect.Reimbursement
