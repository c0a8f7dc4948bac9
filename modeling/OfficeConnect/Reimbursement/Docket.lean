import OfficeConnect.Reimbursement.Spec

/-!
# The docket

What the lifecycle of a claim rests on, without the money: each claim's kind, status and links, the
workflow instances and the status history.  A returning call does one of six things to the docket,
whatever else it writes.
-/

namespace OfficeConnect.Reimbursement

open Lib Workflow

/-! ## The abstract state -/

structure Spine where
  kind : Kind
  status : Status
  link : Option ℕ
  cashAdvanceId : Option ℕ
  spawnedFrom : Option ℕ
deriving DecidableEq, Repr

def Claim.spine (c : Claim) : Spine :=
  { kind := c.kind
    status := c.status
    link := c.workflowInstanceId
    cashAdvanceId := c.cashAdvanceId
    spawnedFrom := c.spawnedFromClaimId }

structure Docket where
  spines : List Spine
  instances : List Instance
  history : List StatusHistory
deriving DecidableEq, Repr

def Store.docket (σ : Store) : Docket :=
  { spines := σ.claims.map Claim.spine
    instances := σ.instances
    history := σ.history }

theorem docket_spine {σ : Store} {i : ℕ} {claim : Claim} (h : σ.claims[i]? = some claim) :
    σ.docket.spines[i]? = some claim.spine := by
  simp [Store.docket, h]

theorem exists_claim {σ : Store} {i : ℕ} {s : Spine} (h : σ.docket.spines[i]? = some s) :
    ∃ claim, σ.claims[i]? = some claim ∧ claim.spine = s := by
  simpa [Store.docket] using h

/-- Every open row of a gate inside the bureau carries a due date. -/
def Dated (inst : Instance) : Prop :=
  ∀ s ∈ inst.steps, s.status = .active → ∀ g, state? s.stateId = some g →
    g.code ≠ .handedToFms → s.slaDueAt ≠ none

/-! ## What a call does to it -/

/-- The engine ran on an instance; a resubmission may have set the amount first. -/
structure Engaged (c : Call) (inst : Instance) (amount : Option ℤ) (r : Request)
    (v : Published Status) (e : Event) (inst' : Instance) (dest : State Status) : Prop where
  version : version? inst.definitionVersionId = some v
  exec : executeAction c.env.directory v.toVersion { inst with amount := amount } r = .ok (e, inst')
  target : eventState e = .ok dest

/-- The history rows of a claim that goes from one status to another. -/
def Logged (i : ℕ) (before after : Status) (rows : List StatusHistory) : Prop :=
  (after = before ∧ rows = []) ∨
    (after ≠ before ∧ ∃ row : StatusHistory, row.claimId = i ∧ row.fromStatus = some before ∧
      row.toStatus = after ∧ rows = [row])

/-- A claim is filed on its own, or a reimbursement is spawned from a liquidation and nets its
advance. -/
def Origin (c : Call) (d : Docket) (s : Spine) : Prop :=
  s.spawnedFrom = none ∨ ∃ r source, c.op = .spawn r ∧
    d.spines[r.liquidationClaimId]? = some source ∧ source.kind = .liquidation ∧
    s.kind = .reimbursement ∧ s.spawnedFrom = some r.liquidationClaimId ∧
    s.cashAdvanceId = source.cashAdvanceId

/-- What a returning call does to the docket. -/
inductive Effect (c : Call) (d : Docket) : Docket → Prop
  | idle : Effect c d d
  | quiet (j : ℕ) (f : Instance → Instance) (hquiet : ∀ inst, Workflow.Quiet inst (f inst))
      (hdated : ∀ inst, Dated inst → Dated (f inst)) :
      Effect c d { d with instances := d.instances.modify j f }
  | filed (s : Spine) (row : StatusHistory) (hstatus : s.status = .draft) (hlink : s.link = none)
      (horigin : Origin c d s) (hclaim : row.claimId = d.spines.length)
      (hfrom : row.fromStatus = none) (hdest : row.toStatus = .draft) :
      Effect c d { d with spines := d.spines ++ [s], history := d.history ++ [row] }
  | dropped (i : ℕ) (s : Spine) (rows : List StatusHistory) (hs : d.spines[i]? = some s)
      (hlink : s.link = none) (hrows : Logged i s.status .cancelled rows) :
      Effect c d { d with
        spines := d.spines.modify i fun s => { s with status := .cancelled }
        history := d.history ++ rows }
  | submitted (r : Submit) (s : Spine) (initial : State Status) (start : Start) (now due : Time)
      (inst : Instance) (v : Published Status) (e : Event) (inst' : Instance) (dest : State Status)
      (rows : List StatusHistory) (hr : c.op = .submit r) (hs : d.spines[r.claimId]? = some s)
      (hlink : s.link = none) (hlive : s.status ≠ .cancelled)
      (hinitial : initialState (chain s.kind).toVersion = some initial)
      (hinst : inst = newInstance (chain s.kind).toVersion initial start now)
      (hrun : Engaged c inst start.amount (r.request c.env inst) v e inst' dest)
      (hrows : Logged r.claimId s.status dest.code rows) :
      Effect c d {
        spines := d.spines.modify r.claimId fun s =>
          { s with link := some d.instances.length, status := dest.code }
        instances := d.instances ++ [stamped s.kind dest due inst']
        history := d.history ++ rows }
  | acted (r : ActionRequest) (s : Spine) (j : ℕ) (inst : Instance) (amount : Option ℤ) (due : Time)
      (v : Published Status) (e : Event) (inst' : Instance) (dest : State Status)
      (rows : List StatusHistory) (hr : c.action? = some r) (hs : d.spines[r.claimId]? = some s)
      (hlink : s.link = some j) (hinst : d.instances[j]? = some inst)
      (hrun : Engaged c inst amount (r.request c.env inst) v e inst' dest)
      (hrows : Logged r.claimId s.status dest.code rows) :
      Effect c d {
        spines := d.spines.modify r.claimId fun s => { s with status := dest.code }
        instances := d.instances.modify j fun _ => stamped s.kind dest due inst'
        history := d.history ++ rows }

/-! ## Writes beside the docket -/

section

variable {env : Env} {σ σ₁ σ' : Store} {i j : ℕ} {claim : Claim} {now : Time} {c : Call}

/-- The columns the unique indexes read. -/
def Claim.keys (c : Claim) : Option String × Spine := (c.refNo, c.spine)

theorem Indexed.of_keys {claims claims' : List Claim} (h : Indexed claims)
    (hkeys : claims'.map Claim.keys = claims.map Claim.keys) : Indexed claims' := by
  have hcolumn : ∀ {α : Type} (f : Option String × Spine → Option α),
      claims'.filterMap (fun c => f c.keys) = claims.filterMap (fun c => f c.keys) := by
    intro α f
    have hmap := congrArg (List.filterMap f) hkeys
    rw [List.filterMap_map, List.filterMap_map] at hmap
    exact hmap
  exact {
    refNo := (hcolumn fun k => k.1) ▸ h.refNo
    link := (hcolumn fun k => k.2.link) ▸ h.link
    spawn := (hcolumn fun k => if k.2.status ≠ .cancelled then k.2.spawnedFrom else none) ▸ h.spawn
    liquidation := (hcolumn fun k =>
      if k.2.kind = .liquidation ∧ k.2.status ≠ .cancelled then k.2.cashAdvanceId else none) ▸
        h.liquidation }

/-- The write touches no indexed column, no instance and no history row. -/
structure Idle (σ σ' : Store) : Prop where
  keys : σ'.claims.map Claim.keys = σ.claims.map Claim.keys
  instances : σ'.instances = σ.instances
  history : σ'.history = σ.history

theorem Idle.refl (σ : Store) : Idle σ σ := ⟨rfl, rfl, rfl⟩

theorem Idle.trans (h : Idle σ σ₁) (h' : Idle σ₁ σ') : Idle σ σ' :=
  ⟨h'.keys.trans h.keys, h'.instances.trans h.instances, h'.history.trans h.history⟩

theorem Idle.spines (h : Idle σ σ') : σ'.claims.map Claim.spine = σ.claims.map Claim.spine := by
  have hmap := congrArg (List.map Prod.snd) h.keys
  rw [List.map_map, List.map_map] at hmap
  exact hmap

theorem Idle.docket (h : Idle σ σ') : σ'.docket = σ.docket := by
  simp only [Store.docket, h.spines, h.instances, h.history]

theorem Idle.exists_keys (h : Idle σ σ') (hclaim : σ'.claims[i]? = some claim) :
    ∃ before, σ.claims[i]? = some before ∧ before.keys = claim.keys := by
  have hkeys := congrArg (·[i]?) h.keys
  simpa [hclaim] using hkeys.symm

theorem Idle.exists_before (h : Idle σ σ') (hclaim : σ'.claims[i]? = some claim) :
    ∃ before, σ.claims[i]? = some before ∧ before.spine = claim.spine := by
  obtain ⟨before, hbefore, hkeys⟩ := h.exists_keys hclaim
  exact ⟨before, hbefore, congrArg Prod.snd hkeys⟩

theorem idle_setClaim (f : Claim → Claim) (hf : ∀ c, (f c).keys = c.keys) :
    Idle σ (σ.setClaim i f) := ⟨map_modify_of_eq hf _ _, rfl, rfl⟩

theorem idle_computeClaimTotals {other : Option ℚ}
    (h : computeClaimTotals env σ i other = .ok σ') : Idle σ σ' := by
  obtain ⟨claim, result, -, -, rfl⟩ := computeClaimTotals_eq_ok h
  refine ⟨map_modify_of_eq (fun c => ?_) _ _, rfl, rfl⟩
  rfl

theorem idle_preparePacket {r : Claim × Store} (h : preparePacket env σ i now = .ok r) :
    Idle σ r.2 := by
  obtain ⟨σ₁, htotals, -, hr⟩ := preparePacket_eq_ok h
  rw [hr]
  exact (idle_computeClaimTotals htotals).trans ⟨rfl, rfl, rfl⟩

/-- A call keeps the unique indexes and does one of the six things to the docket. -/
def Refines (c : Call) (σ σ' : Store) : Prop :=
  Indexed σ'.claims ∧ Effect c σ.docket σ'.docket

theorem Idle.refines (h : Idle σ σ') (hidx : Indexed σ.claims) : Refines c σ σ' := by
  refine ⟨hidx.of_keys h.keys, ?_⟩
  rw [h.docket]
  exact .idle

/-! ## The lifecycle calls -/

theorem Performed.indexed {r : Request} {inst inst' : Instance} {v : Published Status} {e : Event}
    {dest : State Status} {returns : List ReturnEvent}
    (h : Performed env σ i j r claim inst v e inst' dest returns σ') (hidx : Indexed σ.claims) :
    Indexed σ'.claims := by
  obtain ⟨claims, history, hmirror, rfl⟩ := h.result
  rcases hmirror with ⟨-, rfl, -⟩ | ⟨-, holder, -, -, -, hidx'⟩
  · exact hidx
  · exact hidx'

/-- The claim's spine follows the event, and a history row says so when the status changed. -/
theorem Performed.spines {r : Request} {inst inst' : Instance} {v : Published Status} {e : Event}
    {dest : State Status} {returns : List ReturnEvent}
    (h : Performed env σ i j r claim inst v e inst' dest returns σ') :
    σ'.docket.spines = σ.docket.spines.modify i (fun s => { s with status := dest.code }) ∧
      ∃ rows, Logged i claim.status dest.code rows ∧ σ'.history = σ.history ++ rows := by
  obtain ⟨claims, history, hmirror, rfl⟩ := h.result
  rcases hmirror with ⟨hsame, rfl, rfl⟩ | ⟨hne, holder, -, rfl, rfl, -⟩
  · refine ⟨?_, [], .inl ⟨hsame, rfl⟩, by simp⟩
    refine List.ext_getElem? fun m => ?_
    simp only [Store.docket, List.getElem?_modify, List.getElem?_map]
    by_cases hm : i = m
    · subst hm
      simp [h.row, Claim.spine, hsame]
    · simp [hm]
  · refine ⟨?_, [mirrorRow i claim dest e], .inr ⟨hne, _, rfl, rfl, rfl, rfl⟩, rfl⟩
    refine map_modify (fun c => ?_) _ _
    rfl

/-- What is prepared for the engine differs in money, packet and the instance's amount only. -/
theorem prepareAction_idle {r : ActionRequest} (h : prepareAction env σ claim j r = .ok σ₁) :
    ∃ amount : Instance → Option ℤ, Idle σ { σ₁ with instances := σ.instances } ∧
      σ₁.instances = σ.instances.modify j fun inst => { inst with amount := amount inst } := by
  rcases prepareAction_eq_ok.1 h with ⟨-, hrefresh⟩ | ⟨-, hσ, -⟩
  · obtain ⟨σ₂, claim₂, htotals, -, rfl⟩ := refreshForResubmit_eq_ok hrefresh
    have hidle := idle_computeClaimTotals htotals
    refine ⟨fun _ => claim₂.totals.map (·.grand), ⟨hidle.keys, rfl, hidle.history⟩, ?_⟩
    simp only [Store.setInstance, refreshChecklist, hidle.instances]
  · rw [hσ]
    exact ⟨fun inst => inst.amount, ⟨rfl, rfl, rfl⟩, (List.modify_id j _).symm⟩

/-- A returning claim action: what it read and checked, what it prepared, and what the engine made of
the prepared store. -/
structure Acted (env : Env) (r : ActionRequest) (σ : Store) (claim : Claim) (j : ℕ)
    (inst : Instance) (σ₁ : Store) (priced : Claim) (amount : Option ℤ) (v : Published Status)
    (e : Event) (inst' : Instance) (dest : State Status) (returns : List ReturnEvent)
    (σ' : Store) : Prop where
  row : σ.claims[r.claimId]? = some claim
  link : claim.workflowInstanceId = some j
  live : σ.instances[j]? = some inst
  prepared : prepareAction env σ claim j r = .ok σ₁
  idle : Idle σ { σ₁ with instances := σ.instances }
  instances : σ₁.instances = σ.instances.modify j fun _ => { inst with amount := amount }
  spine : priced.spine = claim.spine
  recorded : returnRecord r (inst.events.any (·.idempotencyKey = r.key inst)) e inst' = .ok returns
  performed : Performed env σ₁ r.claimId j (r.request env inst) priced
    { inst with amount := amount } v e inst' dest returns σ'

theorem claimAction_acted {r : ActionRequest} (h : claimAction env r σ = .ok σ') :
    ∃ claim j inst σ₁ priced amount v e inst' dest returns,
      Acted env r σ claim j inst σ₁ priced amount v e inst' dest returns σ' := by
  obtain ⟨-, claim, j, inst, σ₁, hclaim, -, hlink, hinst, -, hprep, hperf⟩ :=
    claimAction_eq_ok.1 h
  obtain ⟨amount, hidle, hinstances⟩ := prepareAction_idle hprep
  have hsame : ∀ c, σ₁.claims[r.claimId]? = some c → c.spine = claim.spine := by
    intro c hc
    obtain ⟨before, hbefore, hspine⟩ := hidle.exists_before hc
    obtain rfl := Option.some.inj (hclaim.symm.trans hbefore)
    exact hspine.symm
  have hlink₁ : ∀ c, σ₁.claims[r.claimId]? = some c → c.workflowInstanceId = some j :=
    fun c hc => (congrArg Spine.link (hsame c hc)).trans hlink
  obtain ⟨priced, inst₁, v, e, inst', dest, returns, hrecord, hp⟩ :=
    (performAction_eq_ok hlink₁).1 hperf
  obtain rfl : inst₁ = { inst with amount := amount inst } := by
    have hlive := hp.live
    rw [hinstances, getElem?_modify_self _ hinst] at hlive
    exact (Option.some.inj hlive).symm
  refine ⟨claim, j, inst, σ₁, priced, amount inst, v, e, inst', dest, returns, hclaim, hlink, hinst,
    hprep, hidle, ?_, hsame priced hp.row, hrecord, hp⟩
  rw [hinstances, modify_congr_self hinst]

theorem refines_claimAction {r : ActionRequest} (hc : c.action? = some r)
    (hidx : Indexed σ.claims) (h : claimAction c.env r σ = .ok σ') : Refines c σ σ' := by
  obtain ⟨claim, j, inst, σ₁, priced, amount, v, e, inst', dest, returns, ha⟩ := claimAction_acted h
  have hp := ha.performed
  obtain ⟨hspines, rows, hrows, hhist⟩ := hp.spines
  refine ⟨hp.indexed (hidx.of_keys ha.idle.keys), ?_⟩
  have hdocket : σ'.docket = {
      spines := σ.docket.spines.modify r.claimId fun s => { s with status := dest.code }
      instances := σ.docket.instances.modify j fun _ => stamped claim.spine.kind dest
        (slaDue c.env (c.env.at (r.request c.env inst).now)) inst'
      history := σ.docket.history ++ rows } := by
    have hspines₁ : σ₁.docket.spines = σ.docket.spines := ha.idle.spines
    have hhist₁ : σ₁.history = σ.history := ha.idle.history
    have hinstances : σ'.instances = σ.instances.modify j fun _ => stamped claim.spine.kind dest
        (slaDue c.env (c.env.at (r.request c.env inst).now)) inst' := by
      obtain ⟨claims, history, -, rfl⟩ := hp.result
      rw [← ha.spine]
      simp only [ha.instances, List.modify_modify_eq]
      rfl
    rw [← hspines₁, ← hspines]
    simp only [Store.docket, hinstances, hhist, hhist₁]
  rw [hdocket]
  have hstatus : priced.status = claim.spine.status := congrArg Spine.status ha.spine
  rw [hstatus] at hrows
  exact .acted r claim.spine j inst amount _ v e inst' dest rows hc (docket_spine ha.row) ha.link
    ha.live ⟨hp.version, hp.exec, hp.target⟩ hrows

theorem submittable_eq_ok {actor unit : ℕ} (h : submittable env claim actor = .ok unit) :
    claim.workflowInstanceId = none ∧ claim.status ≠ .cancelled := by
  simp only [submittable, bind_eq_ok, refuse_eq_ok, not_not, found_eq_ok] at h
  obtain ⟨-, -, -, hlink, -, hlive, -⟩ := h
  exact ⟨hlink, hlive⟩

theorem refines_submitClaim {r : Submit} (hc : c.op = .submit r)
    (h : submitClaim c.env r σ = .ok σ') : Refines c σ σ' := by
  obtain ⟨claim, priced, packet, inst, v, e, inst', dest, entered, hs⟩ := submitClaim_eq_ok h
  obtain ⟨unit, hsub⟩ := hs.allowed
  obtain ⟨hnone, hlive⟩ := submittable_eq_ok hsub
  obtain ⟨initial, start, hinit, hinst⟩ := hs.started
  have hidle : Idle σ packet := idle_preparePacket hs.prepared
  have hpriced : priced.spine = claim.spine := by
    obtain ⟨σ₁, htotals, hrow, -⟩ := preparePacket_eq_ok hs.prepared
    obtain ⟨before, hbefore, hspine⟩ := (idle_computeClaimTotals htotals).exists_before hrow
    obtain rfl := Option.some.inj (hs.row.symm.trans hbefore)
    exact hspine.symm
  have hkind : priced.kind = claim.spine.kind := congrArg Spine.kind hpriced
  have hstatus : priced.status = claim.spine.status := congrArg Spine.status hpriced
  obtain ⟨hspines, rows, hrows, hhist⟩ := hs.performed.spines
  refine ⟨hs.performed.indexed hs.indexed, ?_⟩
  have hspines₂ : entered.docket.spines = σ.docket.spines.modify r.claimId fun s =>
      { s with link := some σ.docket.instances.length } := by
    have hkept : packet.docket.spines = σ.docket.spines := congrArg Docket.spines hidle.docket
    have hlen : packet.instances.length = σ.docket.instances.length := by
      rw [hidle.instances]
      rfl
    rw [← hkept, ← hlen, hs.store]
    refine map_modify (fun c => ?_) _ _
    rfl
  have hinstances : σ'.instances = σ.instances ++ [stamped claim.spine.kind dest
      (slaDue c.env (c.env.at (r.request c.env inst).now)) inst'] := by
    obtain ⟨claims, history, -, hσ'⟩ := hs.performed.result
    rw [hσ', hs.store, ← hkind, ← hidle.instances]
    exact modify_length_append _ _ _
  have hdocket : σ'.docket = {
      spines := σ.docket.spines.modify r.claimId fun s =>
        { s with link := some σ.docket.instances.length, status := dest.code }
      instances := σ.docket.instances ++ [stamped claim.spine.kind dest
        (slaDue c.env (c.env.at (r.request c.env inst).now)) inst']
      history := σ.docket.history ++ rows } := by
    have hhist₂ : entered.history = σ.history := by
      rw [hs.store]
      exact hidle.history
    have hspines' : σ'.docket.spines = σ.docket.spines.modify r.claimId fun s =>
        { s with link := some σ.docket.instances.length, status := dest.code } := by
      rw [hspines, hspines₂, List.modify_modify_eq]
      rfl
    rw [← hspines']
    simp only [Store.docket, hinstances, hhist, hhist₂]
  rw [hdocket]
  rw [hkind] at hinit hinst
  change Logged r.claimId priced.status dest.code rows at hrows
  rw [hstatus] at hrows
  subst hinst
  exact .submitted r claim.spine initial start (c.env.at r.now) _ _ v e inst' dest rows hc
    (docket_spine hs.row) hnone hlive hinit rfl
    ⟨hs.performed.version, hs.performed.exec, hs.performed.target⟩ hrows

/-! ## Filing and dropping a claim -/

theorem createDraftClaim_eq_ok {actor : ℕ} {kind : Kind} {r : ℕ × Store}
    (h : createDraftClaim env σ actor kind now = .ok r) :
    ∃ staff, r = (σ.claims.length, { σ with
      claims := σ.claims ++ [draftClaim kind staff actor now]
      history := σ.history ++ [{
        claimId := σ.claims.length
        fromStatus := none
        toStatus := .draft
        actorId := some actor }] }) := by
  simp only [createDraftClaim, bind_eq_ok, found_eq_ok, pure_eq_ok] at h
  obtain ⟨staff, -, rfl⟩ := h
  exact ⟨staff, rfl⟩

/-- A new claim takes no key, so the indexes stay. -/
theorem Indexed.append {claims : List Claim} (h : Indexed claims) (hkeys : claim.refNo = none)
    (hlink : claim.workflowInstanceId = none) (hadv : claim.cashAdvanceId = none)
    (hspawn : claim.spawnedFromClaimId = none) : Indexed (claims ++ [claim]) := by
  have hl : claim.liveLiquidation = none := by simp [Claim.liveLiquidation, hadv]
  have hs : claim.liveSpawn = none := by simp [Claim.liveSpawn, hspawn]
  constructor
  · simpa [List.filterMap_append, hkeys] using h.refNo
  · simpa [List.filterMap_append, hlink] using h.link
  · simpa [List.filterMap_append, hs] using h.spawn
  · simpa [List.filterMap_append, hl] using h.liquidation

theorem effect_filed {row : StatusHistory} (hclaims : σ'.claims = σ.claims ++ [claim])
    (hinstances : σ'.instances = σ.instances) (hhistory : σ'.history = σ.history ++ [row])
    (hstatus : claim.status = .draft) (hlink : claim.workflowInstanceId = none)
    (horigin : Origin c σ.docket claim.spine) (hrow : row.claimId = σ.claims.length)
    (hfrom : row.fromStatus = none) (hdest : row.toStatus = .draft) :
    Effect c σ.docket σ'.docket := by
  have heffect := Effect.filed claim.spine row hstatus hlink horigin
    (by rw [hrow, Store.docket, List.length_map]) hfrom hdest
  have hdocket : σ'.docket = { σ.docket with
      spines := σ.docket.spines ++ [claim.spine], history := σ.docket.history ++ [row] } := by
    simp only [Store.docket, hclaims, hinstances, hhistory, List.map_append, List.map_singleton]
  rw [hdocket]
  exact heffect

theorem refines_createDraft {actor : ℕ} {kind : Kind} {r : ℕ × Store} (hidx : Indexed σ.claims)
    (h : createDraftClaim env σ actor kind now = .ok r) : Refines c σ r.2 := by
  obtain ⟨staff, rfl⟩ := createDraftClaim_eq_ok h
  exact ⟨hidx.append rfl rfl rfl rfl,
    effect_filed rfl rfl rfl rfl rfl (.inl rfl) rfl rfl rfl⟩

theorem refines_startLiquidation {r : StartLiquidation}
    (h : startLiquidation env r σ = .ok σ') : Refines c σ σ' := by
  simp only [startLiquidation, bind_eq_ok, found_eq_ok, onConflict_eq_ok, flushClaims_eq_ok,
    pure_eq_ok] at h
  obtain ⟨advance, -, _, -, actor, -, _, -, _, -, ⟨id, σ₁⟩, hdraft, _, ⟨rfl, hidx⟩, rfl⟩ := h
  obtain ⟨staff, hr⟩ := createDraftClaim_eq_ok hdraft
  obtain ⟨rfl, rfl⟩ := Prod.mk.inj hr
  exact ⟨hidx, effect_filed (modify_length_append _ _ _) rfl rfl rfl rfl (.inl rfl) rfl rfl rfl⟩

theorem refines_spawn {r : Spawn} (hc : c.op = .spawn r)
    (h : spawnReimbursement env r σ = .ok σ') : Refines c σ σ' := by
  simp only [spawnReimbursement, spawnable, bind_eq_ok, found_eq_ok, lockedClaim_eq_ok,
    refuse_eq_ok, onConflict_eq_ok, flushClaims_eq_ok, pure_eq_ok, not_not] at h
  obtain ⟨_, ⟨source, hsource, _, hkind, actor, -, _, -, advanceId, hadv, advance, -, _, -, _, -,
    rfl⟩, ⟨id, σ₁⟩, hdraft, σ₂, ⟨rfl, hidx⟩, htotals⟩ := h
  obtain ⟨staff, hr⟩ := createDraftClaim_eq_ok hdraft
  obtain ⟨rfl, rfl⟩ := Prod.mk.inj hr
  have hidle := idle_computeClaimTotals htotals
  refine ⟨hidx.of_keys hidle.keys, ?_⟩
  rw [hidle.docket]
  exact effect_filed (modify_length_append _ _ _) rfl rfl rfl rfl
    (.inr ⟨r, source.spine, hc, docket_spine hsource, hkind, rfl, rfl, hadv.symm⟩) rfl rfl rfl

theorem refines_cancelDraft {r : CancelDraft} (h : cancelDraftClaim env r σ = .ok σ') :
    Refines c σ σ' := by
  simp only [cancelDraftClaim, bind_eq_ok, refuse_eq_ok, lockedClaim_eq_ok, flushClaims_eq_ok,
    not_not] at h
  obtain ⟨claim, hclaim, -, -, -, hlink, -, -, -, hlive, rfl, hidx⟩ := h
  refine ⟨hidx, ?_⟩
  have heffect := Effect.dropped (c := c) r.claimId claim.spine
    [{ claimId := r.claimId, fromStatus := some claim.status, toStatus := .cancelled,
       actorId := some r.actorUserId, note := some r.comment }]
    (docket_spine hclaim) hlink (.inr ⟨fun h => hlive h.symm, _, rfl, rfl, rfl, rfl⟩)
  have hspines : (σ.claims.modify r.claimId fun c => { c with
      status := .cancelled
      holderKind := none
      holderId := none
      holderSince := none
      nextAction := none }).map Claim.spine =
      σ.docket.spines.modify r.claimId fun s => { s with status := .cancelled } := by
    refine map_modify (fun c => ?_) _ _
    rfl
  rw [← hspines] at heffect
  exact heffect

/-! ## Every call -/

theorem idle_recomputeTotals {actor : ℕ}
    (h : recomputeTotals env i actor σ = .ok σ') : Idle σ σ' := by
  simp only [recomputeTotals, bind_eq_ok] at h
  obtain ⟨_, -, htotals⟩ := h
  exact idle_computeClaimTotals htotals

theorem idle_updateDraftFields {r : DraftEdit} (h : updateDraftFields env r σ = .ok σ') :
    Idle σ σ' := by
  simp only [updateDraftFields, bind_eq_ok, pure_eq_ok] at h
  obtain ⟨claim, -, _, -, _, -, _, -, rfl⟩ := h
  exact idle_setClaim _ fun _ => rfl

theorem idle_replaceLegs {r : ReplaceLegs} (h : replaceLegs env r σ = .ok σ') : Idle σ σ' := by
  simp only [replaceLegs, bind_eq_ok, pure_eq_ok] at h
  obtain ⟨claim, -, legs, -, rfl⟩ := h
  refine ⟨map_modify_of_eq (fun c => ?_) _ _, rfl, rfl⟩
  rfl

theorem idle_attachEvidence {catalogId actor : ℕ}
    (h : attachEvidence env i catalogId actor σ = .ok σ') : Idle σ σ' := by
  simp only [attachEvidence, bind_eq_ok, pure_eq_ok] at h
  obtain ⟨_, -, _, -, _, -, rfl⟩ := h
  exact ⟨rfl, rfl, rfl⟩

theorem idle_detachEvidence {catalogId actor : ℕ}
    (h : detachEvidence env i catalogId actor σ = .ok σ') : Idle σ σ' := by
  simp only [detachEvidence, bind_eq_ok, pure_eq_ok] at h
  obtain ⟨_, -, _, -, rfl⟩ := h
  exact ⟨rfl, rfl, rfl⟩

theorem idle_markGenerated {code : String} (h : markGenerated env i code σ = .ok σ') :
    Idle σ σ' := by
  simp only [markGenerated, bind_eq_ok, pure_eq_ok] at h
  obtain ⟨_, -, _, -, _, -, rfl⟩ := h
  exact ⟨rfl, rfl, rfl⟩

theorem idle_createCashAdvance {r : CreateAdvance} (h : createCashAdvance env r σ = .ok σ') :
    Idle σ σ' := by
  simp only [createCashAdvance, flushAdvances, bind_eq_ok, pure_eq_ok, onConflict_eq_ok] at h
  obtain ⟨_, -, _, -, _, -, _, -, rfl⟩ := h
  exact ⟨rfl, rfl, rfl⟩

theorem idle_updateCashAdvance {r : UpdateAdvance} (h : updateCashAdvance env r σ = .ok σ') :
    Idle σ σ' := by
  simp only [updateCashAdvance, flushAdvances, bind_eq_ok, pure_eq_ok] at h
  obtain ⟨row, -, row', -, _, ⟨_, -, rfl⟩, h⟩ := h
  split_ifs at h
  · obtain rfl := pure_eq_ok.1 h
    exact ⟨rfl, rfl, rfl⟩
  · obtain rfl := pure_eq_ok.1 h
    refine ⟨?_, rfl, rfl⟩
    simp only [remirrorDeadline, Store.setAdvance, List.map_map]
    refine List.map_congr_left fun c _ => ?_
    simp only [Function.comp_apply]
    split_ifs <;> rfl

theorem idle_relay {r : Relay} {terminal : Bool}
    (h : recordExternalEvent env r terminal σ = .ok σ') : Idle σ σ' := by
  simp only [recordExternalEvent, bind_eq_ok, pure_eq_ok] at h
  obtain ⟨_, -, _, -, claim, -, _, -, rfl⟩ := h
  exact ⟨rfl, rfl, rfl⟩

theorem dated_of_dues {inst inst' : Instance} (hcore : inst'.steps.map Step.core =
      inst.steps.map Step.core)
    (hdues : inst'.steps.map (·.slaDueAt) = inst.steps.map (·.slaDueAt)) (h : Dated inst) :
    Dated inst' := by
  intro s hs hactive g hg hcode
  obtain ⟨n, hn, rfl⟩ := List.getElem_of_mem hs
  have hlen : inst'.steps.length = inst.steps.length := by simpa using congrArg List.length hcore
  have hn' : n < inst.steps.length := hlen ▸ hn
  have hcore' : inst'.steps[n].core = inst.steps[n].core := by
    have := congrArg (·[n]?) hcore
    simpa [hn, hn'] using this
  have hdue : inst'.steps[n].slaDueAt = inst.steps[n].slaDueAt := by
    have := congrArg (·[n]?) hdues
    simpa [hn, hn'] using this
  obtain ⟨hstate, hstatus⟩ : inst'.steps[n].stateId = inst.steps[n].stateId ∧
      inst'.steps[n].status = inst.steps[n].status := by
    simp only [Step.core, Step.mk.injEq] at hcore'
    exact ⟨hcore'.1, hcore'.2.2.2.2.2.2.2.1⟩
  rw [hdue]
  exact h _ (List.getElem_mem hn') (hstatus ▸ hactive) g (hstate ▸ hg) hcode

/-- The refinement: every returning call does one of the six things to the docket. -/
theorem Call.step_refines (hidx : Indexed σ.claims) (h : c.step σ = .ok σ') : Refines c σ σ' := by
  obtain ⟨env, op⟩ := c
  cases op with
  | createDraft actor kind now =>
      obtain ⟨r, hr, rfl⟩ := map_eq_ok.1 h
      exact refines_createDraft hidx hr
  | editDraft r => exact (idle_updateDraftFields h).refines hidx
  | replaceLegs r => exact (idle_replaceLegs h).refines hidx
  | recomputeTotals claimId actor => exact (idle_recomputeTotals h).refines hidx
  | attachEvidence claimId catalogId actor => exact (idle_attachEvidence h).refines hidx
  | detachEvidence claimId catalogId actor => exact (idle_detachEvidence h).refines hidx
  | markGenerated claimId code => exact (idle_markGenerated h).refines hidx
  | cancelDraft r => exact refines_cancelDraft h
  | submit r => exact refines_submitClaim rfl h
  | act r => exact refines_claimAction rfl hidx h
  | createAdvance r => exact (idle_createCashAdvance h).refines hidx
  | updateAdvance r => exact (idle_updateCashAdvance h).refines hidx
  | markOverdue advanceId =>
      obtain rfl := Except.ok.inj h
      exact Idle.refines ⟨rfl, rfl, rfl⟩ hidx
  | startLiquidation r => exact refines_startLiquidation h
  | settle r =>
      obtain ⟨advanceId, totals, -, hact⟩ := recordSettlement_eq_ok.1 h
      exact refines_claimAction (σ := r.recorded env advanceId totals σ) rfl hidx hact
  | payout r =>
      obtain ⟨reference, day, σ₁, hclaims, hinstances, hhistory, -, hact⟩ := recordPayout_eq_ok h
      have hidle : Idle σ σ₁ := by
        refine ⟨?_, hinstances, hhistory⟩
        rw [hclaims]
        refine map_modify_of_eq (fun c => ?_) _ _
        rfl
      have hrefines := refines_claimAction (c := ⟨env, .payout r⟩) rfl (hidx.of_keys hidle.keys) hact
      exact ⟨hrefines.1, hidle.docket ▸ hrefines.2⟩
  | relay r => exact (idle_relay h).refines hidx
  | spawn r => exact refines_spawn rfl h
  | sweep now instanceId picked =>
      obtain rfl := Except.ok.inj h
      refine ⟨hidx, .quiet instanceId _ (fun inst => quiet_sweepDueSteps now picked) ?_⟩
      intro inst hdated
      refine dated_of_dues (quiet_sweepDueSteps now picked).core ?_ hdated
      refine List.ext_getElem? fun n => ?_
      simp only [sweepDueSteps, List.getElem?_map, List.getElem?_mapIdx, Option.map_map]
      refine congrArg (Option.map · _) (funext fun s => ?_)
      simp only [Function.comp_apply]
      split_ifs <;> rfl
  | remind instanceId stepId level revisionNo =>
      obtain rfl := Except.ok.inj h
      exact ⟨hidx, .quiet instanceId _
        (fun inst => ⟨rfl, rfl, rfl, rfl, rfl, rfl, rfl, _, rfl, by simp⟩) fun inst hdated => hdated⟩

end

end OfficeConnect.Reimbursement
