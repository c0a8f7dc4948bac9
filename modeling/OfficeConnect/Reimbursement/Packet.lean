import OfficeConnect.Lib.Unique
import OfficeConnect.Reimbursement.Ledger

/-!
# The packet as a map

A claim has one item for a catalog row, so the items are a map from claim and catalog row to an
item.  A plan revises the map row by row, and the key stays unique along every run in which the ids
of the catalog are.
-/

namespace OfficeConnect.Reimbursement

open Lib Workflow

/-! ## Keys -/

def ChecklistItem.key (i : ChecklistItem) : ℕ × ℕ := (i.claimId, i.catalogId)

theorem item?_eq_rowAt (σ : Store) (i k : ℕ) :
    σ.item? i k = rowAt ChecklistItem.key σ.items (i, k) := by
  simp only [Store.item?, rowAt, ChecklistItem.key, Prod.mk.injEq]

/-- The ids of the catalog are a primary key. -/
def Env.Catalogued (env : Env) : Prop := Unique CatalogRow.id env.catalog

instance (env : Env) : Decidable env.Catalogued :=
  inferInstanceAs (Decidable (env.catalog.map CatalogRow.id).Nodup)

/-! ## One row of a plan -/

/-- The item a plan creates. -/
def ItemPlan.fresh (p : ItemPlan) (claimId : ℕ) : ChecklistItem :=
  { claimId := claimId
    catalogId := p.catalog.id
    status := p.derivedStatus
    circularVersion := p.catalog.circularVersion }

/-- What a plan makes of an item. -/
def ItemPlan.revise (p : ItemPlan) (item : ChecklistItem) : ChecklistItem :=
  match p.action with
  | .create => item
  | .makeDormant => { item with deleted := true }
  | .restore => { item with deleted := false, status := p.derivedStatus }
  | .keep => { item with status := p.derivedStatus }

/-- The plan was made for the item the table has. -/
structure Fits (i : ℕ) (items : List ChecklistItem) (p : ItemPlan) : Prop where
  place : p.itemId = (rowAt ChecklistItem.key items (i, p.catalog.id)).map Prod.fst
  create : p.action = .create ↔ p.itemId = none

/-- A plan's row before and after. -/
def Revised (i : ℕ) (p : ItemPlan) (before after : Option (ℕ × ChecklistItem)) : Prop :=
  (before = none ∧ p.action = .create ∧ ∃ id, after = some (id, p.fresh i)) ∨
    ∃ id item, before = some (id, item) ∧ p.action ≠ .create ∧ after = some (id, p.revise item)

section

variable {i : ℕ} {items : List ChecklistItem} {p : ItemPlan} {k : ℕ × ℕ}

theorem ItemPlan.revise_key (p : ItemPlan) (item : ChecklistItem) :
    (p.revise item).key = item.key := by
  unfold ItemPlan.revise
  cases p.action <;> rfl

theorem applyPlan_eq (hp : Fits i items p) :
    (rowAt ChecklistItem.key items (i, p.catalog.id) = none ∧ p.action = .create ∧
      applyPlan i items p = items ++ [p.fresh i]) ∨
    ∃ id item, rowAt ChecklistItem.key items (i, p.catalog.id) = some (id, item) ∧
      p.action ≠ .create ∧ applyPlan i items p = items.modify id p.revise := by
  have hplace := hp.place
  cases hat : rowAt ChecklistItem.key items (i, p.catalog.id) with
  | none =>
      rw [hat] at hplace
      have hcreate := hp.create.2 hplace
      exact .inl ⟨rfl, hcreate, by rw [applyPlan, hcreate]; rfl⟩
  | some r =>
      rw [hat] at hplace
      have hne : p.action ≠ .create := by
        intro h
        rw [hp.create.1 h] at hplace
        cases hplace
      refine .inr ⟨r.1, r.2, rfl, hne, ?_⟩
      change p.itemId = some r.1 at hplace
      have hrevise : p.revise = fun item => p.revise item := rfl
      rw [hrevise]
      unfold applyPlan ItemPlan.revise
      rw [hplace]
      cases haction : p.action with
      | create => exact absurd haction hne
      | makeDormant => rfl
      | restore => rfl
      | keep => rfl

theorem applyPlan_unique (hu : Unique ChecklistItem.key items) (hp : Fits i items p) :
    Unique ChecklistItem.key (applyPlan i items p) := by
  rcases applyPlan_eq hp with ⟨hnone, -, heq⟩ | ⟨id, item, -, -, heq⟩
  · rw [heq]
    exact hu.concat (a := p.fresh i) hnone
  · rw [heq]
    exact hu.modify p.revise_key id

theorem applyPlan_self (hu : Unique ChecklistItem.key items) (hp : Fits i items p) :
    Revised i p (rowAt ChecklistItem.key items (i, p.catalog.id))
      (rowAt ChecklistItem.key (applyPlan i items p) (i, p.catalog.id)) := by
  rcases applyPlan_eq hp with ⟨hnone, hcreate, heq⟩ | ⟨id, item, hsome, hne, heq⟩
  · refine .inl ⟨hnone, hcreate, items.length, ?_⟩
    rw [heq, hu.rowAt_concat (a := p.fresh i) hnone]
    exact if_pos rfl
  · refine .inr ⟨id, item, hsome, hne, ?_⟩
    obtain ⟨hrow, hkey⟩ := mem_of_rowAt hsome
    rw [heq, hu.rowAt_modify p.revise_key hrow]
    exact if_pos hkey

theorem applyPlan_other (hu : Unique ChecklistItem.key items) (hp : Fits i items p)
    (hk : (i, p.catalog.id) ≠ k) :
    rowAt ChecklistItem.key (applyPlan i items p) k = rowAt ChecklistItem.key items k := by
  rcases applyPlan_eq hp with ⟨hnone, -, heq⟩ | ⟨id, item, hsome, -, heq⟩
  · rw [heq, hu.rowAt_concat (a := p.fresh i) hnone]
    exact if_neg hk
  · obtain ⟨hrow, hkey⟩ := mem_of_rowAt hsome
    rw [heq, hu.rowAt_modify p.revise_key hrow, if_neg]
    rw [hkey]
    exact hk

/-- A row of the plan still fits after another row. -/
theorem Fits.applyPlan {q : ItemPlan} (hq : Fits i items q) (hu : Unique ChecklistItem.key items)
    (hp : Fits i items p) (hne : p.catalog.id ≠ q.catalog.id) :
    Fits i (Reimbursement.applyPlan i items p) q := by
  have hother : (i, p.catalog.id) ≠ (i, q.catalog.id) := fun h => hne (Prod.mk.inj h).2
  refine ⟨?_, hq.create⟩
  rw [applyPlan_other hu hp hother]
  exact hq.place

/-- A whole plan, one row for each catalog id. -/
theorem foldl_applyPlan (plans : List ItemPlan) (items : List ChecklistItem)
    (hu : Unique ChecklistItem.key items) (hids : Unique (·.catalog.id) plans)
    (hfits : ∀ p ∈ plans, Fits i items p) :
    Unique ChecklistItem.key (plans.foldl (applyPlan i) items) ∧
      (∀ p ∈ plans, Revised i p (rowAt ChecklistItem.key items (i, p.catalog.id))
        (rowAt ChecklistItem.key (plans.foldl (applyPlan i) items) (i, p.catalog.id))) ∧
      ∀ k, (∀ p ∈ plans, (i, p.catalog.id) ≠ k) →
        rowAt ChecklistItem.key (plans.foldl (applyPlan i) items) k =
          rowAt ChecklistItem.key items k := by
  induction plans generalizing items with
  | nil => exact ⟨hu, by simp, fun _ _ => rfl⟩
  | cons p ps ih =>
      have hp := hfits p (by simp)
      obtain ⟨hhead, hrest⟩ := List.nodup_cons.1 hids
      have hid : ∀ q ∈ ps, p.catalog.id ≠ q.catalog.id := by
        intro q hq heq
        exact hhead (List.mem_map.2 ⟨q, hq, heq.symm⟩)
      have hne : ∀ q ∈ ps, (i, p.catalog.id) ≠ (i, q.catalog.id) := by
        intro q hq heq
        exact hid q hq (Prod.mk.inj heq).2
      have hfits' : ∀ q ∈ ps, Fits i (applyPlan i items p) q := by
        intro q hq
        exact (hfits q (by simp [hq])).applyPlan hu hp (hid q hq)
      obtain ⟨hu', hself, hother⟩ := ih _ (applyPlan_unique hu hp) hrest hfits'
      refine ⟨hu', fun q hq => ?_, fun k hk => ?_⟩
      · rcases List.mem_cons.1 hq with rfl | hq
        · rw [List.foldl_cons, hother _ fun r hr => (hne r hr).symm]
          exact applyPlan_self hu hp
        · rw [← applyPlan_other hu hp (hne q hq)]
          exact hself q hq
      · rw [List.foldl_cons, hother k fun q hq => hk q (by simp [hq])]
        exact applyPlan_other hu hp (hk p (by simp))

end

/-! ## The plan of a claim -/

section

variable {env : Env} {σ : Store} {i : ℕ} {claim : Claim} {now : Time} {p : ItemPlan}

/-- The row a plan gives a catalog row. -/
theorem planItem_cases {facts : Facts} {state? : ℕ → Option ItemState} {spec : CatalogRow}
    (h : planItem facts state? spec = some p) :
    p.catalog = spec ∧ p.required = (spec.requiredRule facts).required ∧
      (p.evidenceState, p.derivedStatus) = derive spec (state? spec.id)
        (spec.autoChecks facts (itemFacts (state? spec.id))) ∧
      ((state? spec.id = none ∧ p.itemId = none ∧ p.action = .create ∧
          ((spec.requiredRule facts).required ∨ (spec.requiredRule facts).unparseable)) ∨
        ∃ s, state? spec.id = some s ∧ p.itemId = some s.itemId ∧
          p.action = if (spec.requiredRule facts).required then
            if s.dormant then .restore else .keep
          else if s.holdsSomething then .keep else .makeDormant) := by
  unfold planItem at h
  simp only at h
  split at h
  · cases h
  rename_i hnothing
  split at h
  · cases h
  obtain rfl := Option.some.inj h
  refine ⟨rfl, rfl, rfl, ?_⟩
  cases hs : state? spec.id with
  | none =>
      rw [hs] at hnothing
      refine .inl ⟨rfl, by simp, by simp, ?_⟩
      by_contra hneither
      push Not at hneither
      exact hnothing ⟨hneither.1, hneither.2, .inl rfl⟩
  | some s => exact .inr ⟨s, rfl, by simp, by simp⟩

theorem mem_buildPlan : p ∈ buildPlan env σ i claim now ↔
    ∃ spec ∈ activeCatalog env claim.kind, planItem (buildClaimFacts env σ i claim now)
      (fun k => (σ.item? i k).map (itemState env)) spec = some p := by
  simp [buildPlan, planChecklist, List.mem_filterMap, List.mem_insertionSort]

theorem buildPlan_unique (henv : env.Catalogued) :
    Unique (·.catalog.id) (buildPlan env σ i claim now) := by
  have hactive : Unique CatalogRow.id (activeCatalog env claim.kind) :=
    (List.filter_sublist.map _).nodup henv
  have hsorted : Unique CatalogRow.id
      ((activeCatalog env claim.kind).insertionSort CatalogRow.le) :=
    ((List.perm_insertionSort CatalogRow.le _).map _).nodup_iff.2 hactive
  refine hsorted.filterMap fun spec p hp => ?_
  rw [(planItem_cases hp).1]

theorem buildPlan_fits (hp : p ∈ buildPlan env σ i claim now) : Fits i σ.items p := by
  obtain ⟨spec, -, hplan⟩ := mem_buildPlan.1 hp
  obtain ⟨rfl, -, -, hcases⟩ := planItem_cases hplan
  rw [item?_eq_rowAt] at hcases
  rcases hcases with ⟨hnone, hid, haction, -⟩ | ⟨s, hsome, hid, haction⟩
  · rw [Option.map_eq_none_iff] at hnone
    exact ⟨by rw [hid, hnone]; rfl, by simp [hid, haction]⟩
  · obtain ⟨r, hr, rfl⟩ := Option.map_eq_some_iff.1 hsome
    refine ⟨by rw [hid, hr]; rfl, ?_⟩
    rw [hid, haction]
    split_ifs <;> simp

/-- The packet after a refresh: planned rows are revised, every other row is kept. -/
theorem refreshChecklist_items (i : ℕ) (claim : Claim) (now : Time) (henv : env.Catalogued)
    (hu : Unique ChecklistItem.key σ.items) :
    Unique ChecklistItem.key (refreshChecklist env σ i claim now).items ∧
      (∀ p ∈ buildPlan env σ i claim now, Revised i p (σ.item? i p.catalog.id)
        ((refreshChecklist env σ i claim now).item? i p.catalog.id)) ∧
      ∀ j k, (j = i → ∀ p ∈ buildPlan env σ i claim now, p.catalog.id ≠ k) →
        (refreshChecklist env σ i claim now).item? j k = σ.item? j k := by
  obtain ⟨hu', hself, hother⟩ := foldl_applyPlan (buildPlan env σ i claim now) σ.items hu
    (buildPlan_unique henv) fun p hp => buildPlan_fits hp
  refine ⟨hu', fun p hp => ?_, fun j k hk => ?_⟩
  · rw [item?_eq_rowAt, item?_eq_rowAt]
    exact hself p hp
  · rw [item?_eq_rowAt, item?_eq_rowAt]
    refine hother (j, k) fun p hp heq => ?_
    obtain ⟨rfl, hkey⟩ := Prod.mk.inj heq
    exact hk rfl p hp hkey

/-- A row materialized on demand. -/
theorem materializeItem_items (i : ℕ) (row : CatalogRow) (status : ItemStatus → ItemStatus)
    (hu : Unique ChecklistItem.key σ.items) :
    Unique ChecklistItem.key (materializeItem σ.items (σ.item? i row.id) i row status) ∧
      ∀ j k, (j, k) ≠ (i, row.id) →
        rowAt ChecklistItem.key (materializeItem σ.items (σ.item? i row.id) i row status) (j, k) =
          σ.item? j k := by
  rw [item?_eq_rowAt]
  cases hat : rowAt ChecklistItem.key σ.items (i, row.id) with
  | none =>
      set item : ChecklistItem := {
        claimId := i
        catalogId := row.id
        status := status .missing
        circularVersion := row.circularVersion } with hitem
      have hnew : rowAt ChecklistItem.key σ.items item.key = none := hat
      refine ⟨hu.concat hnew, fun j k hk => ?_⟩
      rw [item?_eq_rowAt]
      exact (hu.rowAt_concat hnew).trans (if_neg fun h => hk h.symm)
  | some r =>
      obtain ⟨hrow, hkey⟩ := mem_of_rowAt hat
      have hf : ∀ it : ChecklistItem,
          ({ it with deleted := false, status := status it.status } : ChecklistItem).key = it.key :=
        fun _ => rfl
      refine ⟨hu.modify hf r.1, fun j k hk => ?_⟩
      rw [item?_eq_rowAt]
      refine (hu.rowAt_modify hf hrow).trans (if_neg ?_)
      rw [hkey]
      exact hk.symm

end

/-! ## Every call -/

/-- What a returning call does to the items. -/
inductive Filing (c : Call) (σ : Store) : List ChecklistItem → Prop
  | kept : Filing c σ σ.items
  | refreshed (i : ℕ) (claim : Claim) (τ : Store) (now : Time)
      (hrows : Unique ChecklistItem.key σ.items → Unique ChecklistItem.key τ.items) :
      Filing c σ (refreshChecklist c.env τ i claim now).items

section

variable {c : Call} {env : Env} {σ σ₁ σ' : Store} {i j : ℕ} {claim : Claim} {now : Time}

theorem computeClaimTotals_items {other : Option ℚ}
    (h : computeClaimTotals env σ i other = .ok σ') : σ'.items = σ.items := by
  obtain ⟨claim, result, -, -, rfl⟩ := computeClaimTotals_eq_ok h
  rfl

theorem Performed.items {r : Request} {inst inst' : Instance} {v : Published Status} {e : Event}
    {dest : State Status} {returns : List ReturnEvent}
    (h : Performed env σ i j r claim inst v e inst' dest returns σ') : σ'.items = σ.items := by
  obtain ⟨claims, history, -, rfl⟩ := h.result
  rfl

/-- An action that is no resubmission leaves the items. -/
theorem claimAction_items {r : ActionRequest} (h : claimAction env r σ = .ok σ')
    (hverb : r.action ≠ .resubmit) : σ'.items = σ.items := by
  obtain ⟨claim, j, inst, σ₁, priced, amount, v, e, inst', dest, returns, ha⟩ := claimAction_acted h
  rcases prepareAction_eq_ok.1 ha.prepared with ⟨hresubmit, -⟩ | ⟨-, rfl, -⟩
  · exact absurd hresubmit hverb
  · exact ha.performed.items

/-- A resubmission passes the gate on the store it has priced. -/
theorem resubmit_items {r : ActionRequest} (h : claimAction env r σ = .ok σ')
    (hverb : r.action = .resubmit) : ∃ τ τ', computeClaimTotals env σ r.claimId = .ok τ ∧
      assertPacketComplete env τ r.claimId (env.at r.now) = .ok τ' ∧ σ'.items = τ'.items := by
  obtain ⟨claim, j, inst, σ₁, priced, amount, v, e, inst', dest, returns, ha⟩ := claimAction_acted h
  rcases prepareAction_eq_ok.1 ha.prepared with ⟨-, hrefresh⟩ | ⟨hne, -⟩
  · simp only [refreshForResubmit, bind_eq_ok, pure_eq_ok] at hrefresh
    obtain ⟨τ, htotals, τ', hgate, _, -, hσ₁⟩ := hrefresh
    refine ⟨τ, τ', htotals, hgate, ha.performed.items.trans ?_⟩
    rw [← hσ₁]
    rfl
  · exact absurd hverb hne

/-- A submission passes the gate on the store it has priced. -/
theorem submitClaim_items {r : Submit} (h : submitClaim env r σ = .ok σ') :
    ∃ τ τ', computeClaimTotals env σ r.claimId = .ok τ ∧
      assertPacketComplete env τ r.claimId (env.at r.now) = .ok τ' ∧ σ'.items = τ'.items := by
  obtain ⟨claim, priced, packet, inst, v, e, inst', dest, entered, hs⟩ := submitClaim_eq_ok h
  have hprep := hs.prepared
  simp only [preparePacket, bind_eq_ok, refuse_eq_ok, pure_eq_ok] at hprep
  obtain ⟨τ, htotals, _, -, -, -, τ', hgate, hpacket⟩ := hprep
  obtain ⟨rfl, rfl⟩ := Prod.mk.inj hpacket
  refine ⟨τ, τ', htotals, hgate, hs.performed.items.trans ?_⟩
  rw [hs.store]
  rfl

theorem filing_gate {τ τ' : Store} (htotals : computeClaimTotals c.env σ i = .ok τ)
    (hgate : assertPacketComplete c.env τ i now = .ok τ') (hitems : σ'.items = τ'.items) :
    Filing c σ σ'.items := by
  obtain ⟨claim, -, rfl, -⟩ := assertPacketComplete_eq_ok.1 hgate
  rw [hitems]
  refine .refreshed i claim τ now fun hu => ?_
  rw [computeClaimTotals_items htotals]
  exact hu

theorem filing_of_eq (h : σ'.items = σ.items) : Filing c σ σ'.items := by
  rw [h]
  exact .kept

theorem createDraft_items {actor : ℕ} {kind : Kind} {r : ℕ × Store}
    (h : createDraftClaim env σ actor kind now = .ok r) : r.2.items = σ.items := by
  obtain ⟨staff, rfl⟩ := createDraftClaim_eq_ok h
  rfl

theorem startLiquidation_items {r : StartLiquidation} (h : startLiquidation env r σ = .ok σ') :
    σ'.items = σ.items := by
  simp only [startLiquidation, bind_eq_ok, onConflict_eq_ok, flushClaims_eq_ok, pure_eq_ok] at h
  obtain ⟨_, -, _, -, _, -, _, -, _, -, ⟨id, σ₁⟩, hdraft, _, ⟨rfl, -⟩, rfl⟩ := h
  exact createDraft_items hdraft

theorem spawn_items {r : Spawn} (h : spawnReimbursement env r σ = .ok σ') :
    σ'.items = σ.items := by
  simp only [spawnReimbursement, bind_eq_ok, onConflict_eq_ok, flushClaims_eq_ok] at h
  obtain ⟨_, -, ⟨id, σ₁⟩, hdraft, σ₂, ⟨hσ₂, -⟩, htotals⟩ := h
  rw [computeClaimTotals_items htotals, hσ₂]
  exact createDraft_items hdraft

theorem updateCashAdvance_items {r : UpdateAdvance} (h : updateCashAdvance env r σ = .ok σ') :
    σ'.items = σ.items := by
  simp only [updateCashAdvance, bind_eq_ok, flushAdvances_eq_ok] at h
  obtain ⟨_, -, _, -, _, ⟨rfl, -⟩, h⟩ := h
  split_ifs at h
  · obtain rfl := pure_eq_ok.1 h
    rfl
  · obtain rfl := pure_eq_ok.1 h
    rfl

theorem Call.step_filing (h : c.step σ = .ok σ') : Filing c σ σ'.items := by
  obtain ⟨env, op⟩ := c
  cases op with
  | createDraft actor kind now =>
      obtain ⟨r, hr, rfl⟩ := map_eq_ok.1 h
      exact filing_of_eq (createDraft_items hr)
  | editDraft r =>
      simp only [Call.step, updateDraftFields, bind_eq_ok, pure_eq_ok] at h
      obtain ⟨claim, -, _, -, _, -, _, -, rfl⟩ := h
      exact .kept
  | replaceLegs r =>
      simp only [Call.step, replaceLegs, bind_eq_ok, pure_eq_ok] at h
      obtain ⟨claim, -, legs, -, rfl⟩ := h
      exact .kept
  | recomputeTotals claimId actor =>
      simp only [Call.step, recomputeTotals, bind_eq_ok] at h
      obtain ⟨claim, -, htotals⟩ := h
      exact filing_of_eq (computeClaimTotals_items htotals)
  | attachEvidence claimId catalogId actor =>
      simp only [Call.step, attachEvidence, bind_eq_ok, found_eq_ok, pure_eq_ok] at h
      obtain ⟨claim, -, row, hrow, _, -, rfl⟩ := h
      have hid : row.id = catalogId := by simpa using List.find?_some hrow
      subst hid
      exact .refreshed claimId claim _ _ fun hu => (materializeItem_items claimId row id hu).1
  | detachEvidence claimId catalogId actor =>
      simp only [Call.step, detachEvidence, bind_eq_ok, pure_eq_ok] at h
      obtain ⟨claim, -, _, -, rfl⟩ := h
      exact .refreshed claimId claim σ _ id
  | markGenerated claimId code =>
      simp only [Call.step, markGenerated, bind_eq_ok, pure_eq_ok] at h
      obtain ⟨claim, -, row, -, _, -, rfl⟩ := h
      refine .refreshed claimId claim _ _ fun hu => ?_
      exact (materializeItem_items claimId row (fun _ => .generated) hu).1
  | cancelDraft r =>
      simp only [Call.step, cancelDraftClaim, bind_eq_ok, flushClaims_eq_ok] at h
      obtain ⟨claim, -, _, -, _, -, _, -, _, -, rfl, -⟩ := h
      exact .kept
  | submit r =>
      obtain ⟨τ, τ', htotals, hgate, hitems⟩ := submitClaim_items h
      exact filing_gate htotals hgate hitems
  | act r =>
      by_cases hverb : r.action = .resubmit
      · obtain ⟨τ, τ', htotals, hgate, hitems⟩ := resubmit_items h hverb
        exact filing_gate htotals hgate hitems
      · exact filing_of_eq (claimAction_items h hverb)
  | createAdvance r =>
      simp only [Call.step, createCashAdvance, bind_eq_ok, onConflict_eq_ok,
        flushAdvances_eq_ok] at h
      obtain ⟨_, -, _, -, _, -, rfl, -⟩ := h
      exact .kept
  | updateAdvance r => exact filing_of_eq (updateCashAdvance_items h)
  | markOverdue advanceId =>
      obtain rfl := Except.ok.inj h
      exact .kept
  | startLiquidation r => exact filing_of_eq (startLiquidation_items h)
  | settle r =>
      obtain ⟨k, t, -, hact⟩ := recordSettlement_eq_ok.1 h
      exact filing_of_eq ((claimAction_items hact (by simp [Settle.approval])).trans rfl)
  | payout r =>
      simp only [Call.step, recordPayout, recordExternalEvent, bind_eq_ok, pure_eq_ok] at h
      obtain ⟨_, -, _, ⟨_, -, _, -, claim, -, _, -, rfl⟩, hact⟩ := h
      exact filing_of_eq ((claimAction_items hact (by simp)).trans rfl)
  | relay r =>
      simp only [Call.step, recordExternalEvent, bind_eq_ok, pure_eq_ok] at h
      obtain ⟨_, -, _, -, claim, -, _, -, rfl⟩ := h
      exact .kept
  | spawn r => exact filing_of_eq (spawn_items h)
  | sweep now instanceId picked =>
      obtain rfl := Except.ok.inj h
      exact .kept
  | remind instanceId stepId level revisionNo =>
      obtain rfl := Except.ok.inj h
      exact .kept

theorem unique_items_step (hu : Unique ChecklistItem.key σ.items) (henv : c.env.Catalogued)
    (h : c.step σ = .ok σ') : Unique ChecklistItem.key σ'.items := by
  have hfiling := Call.step_filing h
  generalize σ'.items = items at hfiling ⊢
  cases hfiling with
  | kept => exact hu
  | refreshed i claim τ now hrows => exact (refreshChecklist_items i claim now henv (hrows hu)).1

/-- In every run whose catalogs have a primary key, a claim has one item for a catalog row. -/
theorem unique_items_runStore (calls : List Call) (hcalls : ∀ c ∈ calls, c.env.Catalogued) :
    Unique ChecklistItem.key (runStore calls).items :=
  run_invariant (P := fun _ c => c.env.Catalogued)
    (I := fun σ : Store => Unique ChecklistItem.key σ.items)
    (fun _ _ _ henv hu h => unique_items_step hu henv h) calls _ List.nodup_nil
    (conforms_of_forall hcalls _)

end

end OfficeConnect.Reimbursement
