import OfficeConnect.Reimbursement.Refresh

/-!
# The two readings of a catalog row

A call takes a row's two JSON columns as functions of the claim's facts; the engine reads the
columns themselves.  Where the engine can read every row, the two make one plan, leave the same items
and miss the same documents.
-/

namespace OfficeConnect.Packet

open Checklist Lib
open Reimbursement (CatalogRow CheckOutcome ChecklistItem Claim Env Evidence Fits Store activeCatalog
  assertPacketComplete blockingRows buildClaimFacts buildPlan lockedClaim)

/-! ## Two vocabularies -/

def evidence : Evidence → String
  | .upload => "upload"
  | .generatedDoc => "generated_doc"
  | .externalWetSign => "external_wet_sign"
  | .dataOnly => "data_only"

def outcome : Outcome → CheckOutcome
  | .passed => .passed
  | .flagged => .flagged
  | .skipped => .skipped

def action : PlanAction → Reimbursement.PlanAction
  | .create => .create
  | .keep => .keep
  | .restore => .restore
  | .makeDormant => .makeDormant

def evidenceState : EvidenceState → Reimbursement.EvidenceState
  | .missing => .missing
  | .attached => .attached
  | .generated => .generated
  | .waived => .waived

theorem evidence_eq_dataOnly {e : Evidence} : evidence e = "data_only" ↔ e = .dataOnly := by
  cases e <;> decide

theorem blocks_iff {e : Evidence} : evidence e ∈ blockingEvidence ↔ e.blocks = true := by
  cases e <;> decide

theorem outcome_injective : Function.Injective outcome := by
  intro a b h
  cases a <;> cases b <;> first | rfl | cases h

theorem mem_outcomes (checks : List CheckResult) (a : Outcome) :
    outcome a ∈ checks.map (outcome ·.outcome) ↔ checks.any (·.outcome = a) = true := by
  rw [List.mem_map, List.any_eq_true]
  refine exists_congr fun r => and_congr_right fun _ => ?_
  rw [decide_eq_true_eq]
  exact outcome_injective.eq_iff

theorem action_eq_create {a : PlanAction} : action a = .create ↔ a = .create := by
  cases a <;> decide

theorem evidenceState_eq_missing {e : EvidenceState} : evidenceState e = .missing ↔ e = .missing := by
  cases e <;> decide

/-! ## Items and rows -/

/-- The two states say the same of an item. -/
structure SameItem (s : ItemState) (t : Reimbursement.ItemState) : Prop where
  itemId : s.itemId = t.itemId
  usable : s.evidenceCount.1 = t.evidence.usable
  pending : s.evidencePending.1 = t.evidence.pending
  infected : s.evidenceInfected.1 = t.evidence.infected
  generated : s.generated = t.generated
  waived : s.waived = t.waived
  dormant : s.dormant = t.dormant

/-- The row's functions are what the engine reads in its columns, wherever it can. -/
structure Reads (c : Context) (facts : Reimbursement.Facts) (spec : CatalogSpec) (row : CatalogRow) :
    Prop where
  id : spec.catalogId = row.id
  code : spec.code = row.code
  label : spec.label = row.label
  sort : spec.sort = row.sort
  evidence : spec.evidence = evidence row.evidence
  circularVersion : spec.circularVersion = row.circularVersion
  rule : ∀ o, evaluateRequiredRule spec.requiredRule c.facts = .ok o →
    row.requiredRule facts = { required := o.required, unparseable := o.unparseable }
  checks : ∀ s t checks, Option.Rel SameItem s t →
    runAutoChecks c.str c.lower spec.autoChecks (itemFacts c.facts s) = .ok checks →
      row.autoChecks facts (Reimbursement.itemFacts t) = checks.map (outcome ·.outcome)

/-- The ticket's row, with a rule that always applies and no checks. -/
def ticketRow : CatalogRow :=
  { id := 1, code := "TKT", label := "Ticket", evidence := .upload
    requiredRule := fun _ => { required := true } }

theorem ticket_reads (facts : Reimbursement.Facts) : Reads ticketClaim facts ticket ticketRow where
  id := rfl
  code := rfl
  label := rfl
  sort := rfl
  evidence := rfl
  circularVersion := rfl
  rule o ho := by
    cases ho
    rfl
  checks s t checks _ hchecks := by
    cases hchecks
    rfl

section

variable {c : Context} {facts : Reimbursement.Facts} {spec : CatalogSpec} {row : CatalogRow}
  {s : Option ItemState} {t : Option Reimbursement.ItemState}

theorem any_waived (h : Option.Rel SameItem s t) : t.any (·.waived) = s.any (·.waived) := by
  cases h with
  | none => rfl
  | some h => exact h.waived.symm

theorem any_generated (h : Option.Rel SameItem s t) : t.any (·.generated) = s.any (·.generated) := by
  cases h with
  | none => rfl
  | some h => exact h.generated.symm

theorem any_usable (h : Option.Rel SameItem s t) :
    t.any (0 < ·.evidence.usable) = s.any (0 < ·.evidenceCount.1) := by
  cases h with
  | none => rfl
  | some h =>
      have husable := h.usable
      simp only [Option.any_some, decide_eq_decide]
      omega

theorem holdsSomething_eq {s : ItemState} {t : Reimbursement.ItemState} (h : SameItem s t) :
    t.holdsSomething = s.holdsSomething := by
  have husable := h.usable
  have hcount : t.evidence.usable ≠ 0 ↔ s.evidenceCount.1 ≠ 0 := by omega
  unfold ItemState.holdsSomething Reimbursement.ItemState.holdsSomething
  rw [h.waived, h.generated]
  simp only [hcount]

theorem derive_reads (hread : Reads c facts spec row) (hitem : Option.Rel SameItem s t)
    (checks : List CheckResult) :
    Reimbursement.derive row t (checks.map (outcome ·.outcome)) =
      (evidenceState (derive spec s checks).1, status (derive spec s checks).2) := by
  have hflagged : CheckOutcome.flagged ∈ checks.map (outcome ·.outcome) ↔
      checks.any (·.isFlagged) = true := mem_outcomes checks .flagged
  have hpassed : CheckOutcome.passed ∈ checks.map (outcome ·.outcome) ↔
      checks.any (·.outcome = .passed) = true := mem_outcomes checks .passed
  have hdata : spec.evidence = "data_only" ↔ row.evidence = .dataOnly := by
    rw [hread.evidence]
    exact evidence_eq_dataOnly
  unfold Reimbursement.derive derive
  simp only [hflagged, hpassed, hdata, any_waived hitem, any_generated hitem, any_usable hitem]
  split_ifs <;> rfl

theorem skipped_iff (hitem : Option.Rel SameItem s t) (o : RuleOutcome) :
    skipped o s = true ↔
      (¬ o.required = true ∧ ¬ o.unparseable = true ∧ (t = none ∨ t.any (·.dormant) = true)) ∨
        o.unparseable = true ∧ t.any (·.dormant) = true := by
  unfold skipped
  cases hitem with
  | none => cases o.required <;> cases o.unparseable <;> simp
  | some h => cases o.required <;> cases o.unparseable <;> simp [h.dormant]

theorem planAction_reads {s : ItemState} {t : Reimbursement.ItemState} (h : SameItem s t)
    (applies : Bool) : action (planAction applies (some s)) =
      if applies then if t.dormant then .restore else .keep
      else if t.holdsSomething then .keep else .makeDormant := by
  unfold planAction
  dsimp only
  rw [h.dormant, holdsSomething_eq h]
  cases applies <;> cases t.dormant <;> cases s.holdsSomething <;> rfl

/-- The two plans say the same of a row. -/
structure SamePlan (c : Context) (facts : Reimbursement.Facts) (p : ItemPlan)
    (q : Reimbursement.ItemPlan) : Prop where
  catalog : Reads c facts p.catalog q.catalog
  itemId : p.itemId = q.itemId
  action : action p.action = q.action
  required : p.required = q.required
  evidenceState : evidenceState p.evidenceState = q.evidenceState
  derivedStatus : status p.derivedStatus = q.derivedStatus
  checks : p.checks.map (outcome ·.outcome) = q.checks

theorem planItem_reads {state? : ℕ → Option Reimbursement.ItemState} {p : Option ItemPlan}
    (hread : Reads c facts spec row) (hstate : state? row.id = t) (hitem : Option.Rel SameItem s t)
    (h : planItem c.str c.lower c.facts s spec = .ok p) :
    Option.Rel (SamePlan c facts) p (Reimbursement.planItem facts state? row) := by
  obtain ⟨o, ho, hrest⟩ := planItem_eq_ok.1 h
  have hskip := skipped_iff hitem o
  unfold Reimbursement.planItem
  rw [hread.rule o ho, hstate]
  dsimp only
  split_ifs at hrest with hskipped
  · subst hrest
    rcases hskip.1 hskipped with hnothing | hput
    · rw [if_pos hnothing]
      exact .none
    · rw [if_neg fun hnothing => hnothing.2.1 hput.1, if_pos hput]
      exact .none
  · obtain ⟨checks, hchecks, rfl⟩ := hrest
    rw [if_neg fun h => hskipped (hskip.2 (.inl h)), if_neg fun h => hskipped (hskip.2 (.inr h)),
      hread.checks s t checks hitem hchecks, derive_reads hread hitem checks]
    refine .some ⟨hread, ?_, ?_, rfl, rfl, rfl, rfl⟩
    · cases hitem with
      | none => rfl
      | some hsame => exact congrArg some hsame.itemId
    · cases hitem with
      | none => rfl
      | some hsame => exact planAction_reads hsame o.required

/-! ## The plan of a catalog -/

theorem le_reads {spec' : CatalogSpec} {row' : CatalogRow} (h : Reads c facts spec row)
    (h' : Reads c facts spec' row') : spec.le spec' ↔ row.le row' := by
  unfold CatalogSpec.le CatalogRow.le
  rw [h.sort, h.code, h'.sort, h'.code]

theorem planChecklist_reads {specs : List CatalogSpec} {rows : List CatalogRow}
    {existing : List ItemState} {state? : ℕ → Option Reimbursement.ItemState} {plan : List ItemPlan}
    (hrows : List.Forall₂ (Reads c facts) specs rows)
    (hitems : ∀ k, Option.Rel SameItem (itemOf existing k) (state? k))
    (h : planChecklist c.str c.lower specs existing c.facts = .ok plan) :
    List.Forall₂ (SamePlan c facts) plan (Reimbursement.planChecklist rows state? facts) := by
  obtain ⟨plans, hplans, rfl⟩ := planChecklist_eq_ok.1 h
  have hsorted := forall₂_insertionSort (r := CatalogSpec.le) (s := CatalogRow.le)
    (fun _ _ _ _ h h' => le_reads h h') hrows
  unfold Reimbursement.planChecklist
  revert hplans
  generalize specs.insertionSort CatalogSpec.le = specs' at hsorted
  generalize rows.insertionSort CatalogRow.le = rows' at hsorted
  clear h
  intro hplans
  induction hsorted generalizing plans with
  | nil =>
      cases hplans
      exact .nil
  | @cons spec row specs' rows' hread _ ih =>
      cases hplans with
      | @cons _ p _ plans hp hplans =>
          have hitem := hitems spec.catalogId
          rw [hread.id] at hitem
          rw [hread.id] at hp
          have hrel := planItem_reads hread rfl hitem hp
          cases hq : Reimbursement.planItem facts state? row with
          | none =>
              rw [hq] at hrel
              cases hrel
              rw [List.reduceOption_cons_of_none, List.filterMap_cons_none hq]
              exact ih _ hplans
          | some q =>
              rw [hq] at hrel
              cases hrel with
              | some hpq =>
                  rw [List.reduceOption_cons_of_some, List.filterMap_cons_some hq]
                  exact .cons hpq (ih _ hplans)

/-! ## Carrying it out -/

theorem applyPlan_reads {items : List ChecklistItem} {p : ItemPlan} {q : Reimbursement.ItemPlan}
    (hpq : SamePlan c facts p q) (hfits : Fits c.claimId items q) :
    applyPlan c items p = Reimbursement.applyPlan c.claimId items q := by
  have hcreate : p.action = .create ↔ q.action = .create := by
    rw [← hpq.action]
    exact action_eq_create.symm
  have hat : item? c items p.catalog.catalogId =
      rowAt ChecklistItem.key items (c.claimId, q.catalog.id) := by
    rw [← hpq.catalog.id]
    rfl
  unfold applyPlan
  rcases Reimbursement.applyPlan_eq hfits with ⟨-, haction, heq⟩ | ⟨id, item, hsome, haction, heq⟩
  · rw [if_pos (hcreate.2 haction), heq]
    have hfresh : fresh c p = q.fresh c.claimId := by
      simp only [fresh, Reimbursement.ItemPlan.fresh, hpq.catalog.id, hpq.catalog.circularVersion,
        hpq.derivedStatus]
    rw [hfresh]
  · rw [if_neg (haction ∘ hcreate.1), hat, hsome, heq]
    have hrevise : revise p = q.revise := by
      funext item
      have hact := hpq.action
      unfold revise Reimbursement.ItemPlan.revise
      rw [← hact, ← hpq.derivedStatus]
      cases p.action <;> rfl
    rw [hrevise]

theorem foldl_applyPlan_reads {plan : List ItemPlan} {plan' : List Reimbursement.ItemPlan}
    (h : List.Forall₂ (SamePlan c facts) plan plan') (items : List ChecklistItem)
    (hu : Unique ChecklistItem.key items) (hids : Unique (·.catalog.id) plan')
    (hfits : ∀ q ∈ plan', Fits c.claimId items q) :
    plan.foldl (applyPlan c) items = plan'.foldl (Reimbursement.applyPlan c.claimId) items := by
  induction h generalizing items with
  | nil => rfl
  | @cons p q plan plan' hpq _ ih =>
      have hq := hfits q (List.mem_cons_self ..)
      obtain ⟨hhead, hrest⟩ := List.nodup_cons.1 hids
      rw [List.foldl_cons, List.foldl_cons, applyPlan_reads hpq hq]
      apply ih
      · exact Reimbursement.applyPlan_unique hu hq
      · exact hrest
      · intro q' hq'
        apply (hfits q' (List.mem_cons_of_mem _ hq')).applyPlan hu hq
        intro hsame
        exact hhead (List.mem_map.2 ⟨q', hq', hsame.symm⟩)

/-! ## The missing documents -/

theorem blocking_reads {plan : List ItemPlan} {plan' : List Reimbursement.ItemPlan}
    (h : List.Forall₂ (SamePlan c facts) plan plan') :
    (packetStatus plan).blocking.map (·.code) = (blockingRows plan').map (·.code) := by
  unfold packetStatus blockingRows
  dsimp only
  induction h with
  | nil => rfl
  | @cons p q plan plan' hpq _ ih =>
      have hkind : p.catalog.evidence ∈ blockingEvidence ↔ q.catalog.evidence.blocks = true := by
        rw [hpq.catalog.evidence]
        exact blocks_iff
      have hmissing : p.evidenceState = .missing ↔ q.evidenceState = .missing := by
        rw [← hpq.evidenceState]
        exact evidenceState_eq_missing.symm
      have hcode : p.blockingItem.code = q.catalog.code := hpq.catalog.code
      have hboth : (decide (p.evidenceState = .missing) &&
          decide (p.required = true ∧ p.catalog.evidence ∈ blockingEvidence)) = true ↔
          decide (q.required = true ∧ q.catalog.evidence.blocks = true ∧ q.evidenceState = .missing) =
            true := by
        rw [Bool.and_eq_true, decide_eq_true_eq, decide_eq_true_eq, decide_eq_true_eq, hkind, hmissing,
          hpq.required]
        tauto
      rw [List.filter_filter] at ih ⊢
      by_cases hblocks : decide (q.required = true ∧ q.catalog.evidence.blocks = true ∧
          q.evidenceState = .missing) = true
      · rw [List.filter_cons, List.filter_cons, if_pos (hboth.2 hblocks), if_pos hblocks]
        simp only [List.map_cons, hcode, ih]
      · rw [List.filter_cons, List.filter_cons, if_neg (hblocks ∘ hboth.1), if_neg hblocks]
        exact ih

end

/-! ## A claim's packet -/

/-- The context holds what a call reads of the claim. -/
structure Mirrors (env : Env) (σ : Store) (i : ℕ) (claim : Claim) (now : Time) (c : Context) :
    Prop where
  claimId : c.claimId = i
  rows : List.Forall₂ (Reads c (buildClaimFacts env σ i claim now)) (catalog c)
    (activeCatalog env claim.kind)
  usable : ∀ id, (c.tally id).usable.1 = (env.evidenceCounts id).usable
  pending : ∀ id, (c.tally id).pending.1 = (env.evidenceCounts id).pending
  infected : ∀ id, (c.tally id).infected.1 = (env.evidenceCounts id).infected

section

variable {env : Env} {σ : Store} {i : ℕ} {claim : Claim} {now : Time} {c : Context}

theorem Mirrors.refreshed (h : Mirrors env σ i claim now c) :
    Mirrors env (Reimbursement.refreshChecklist env σ i claim now) i claim now c :=
  ⟨h.claimId, h.rows, h.usable, h.pending, h.infected⟩

theorem Mirrors.item (h : Mirrors env σ i claim now c) (k : ℕ) :
    Option.Rel SameItem (itemOf (states c σ.items) k)
      ((σ.item? i k).map (Reimbursement.itemState env)) := by
  rw [itemOf_states, Reimbursement.item?_eq_rowAt, ← h.claimId]
  unfold item?
  cases rowAt ChecklistItem.key σ.items (c.claimId, k) with
  | none => exact .none
  | some r => exact .some ⟨rfl, h.usable r.1, h.pending r.1, h.infected r.1, rfl, rfl, rfl⟩

theorem Mirrors.plan (h : Mirrors env σ i claim now c) {plan : List ItemPlan}
    (hplan : build c σ.items = .ok plan) :
    List.Forall₂ (SamePlan c (buildClaimFacts env σ i claim now)) plan
      (buildPlan env σ i claim now) :=
  planChecklist_reads h.rows h.item hplan

theorem Mirrors.refresh (h : Mirrors env σ i claim now c) (henv : env.Catalogued)
    (hu : Unique ChecklistItem.key σ.items) {plan : List ItemPlan}
    (hplan : build c σ.items = .ok plan) :
    plan.foldl (applyPlan c) σ.items = (Reimbursement.refreshChecklist env σ i claim now).items := by
  obtain rfl := h.claimId
  apply foldl_applyPlan_reads (h.plan hplan) σ.items hu
  · exact Reimbursement.buildPlan_unique henv
  · exact fun q hq => Reimbursement.buildPlan_fits hq

/-- Where the engine can read every row, a call's refresh leaves the items the engine's does, and
finds the documents missing that the view shows. -/
theorem refreshChecklist_reads (h : Mirrors env σ i claim now c) (henv : env.Catalogued)
    (hu : Unique ChecklistItem.key σ.items) {items' : List ChecklistItem} {view : ChecklistView}
    (hrefresh : refreshChecklist c σ.items = .ok (items', view)) :
    (Reimbursement.refreshChecklist env σ i claim now).items = items' ∧
      view.status.blocking.map (·.code) =
        (blockingRows (buildPlan env (Reimbursement.refreshChecklist env σ i claim now) i claim now)).map
          (·.code) := by
  obtain ⟨plan, hplan, rfl, hview⟩ := refreshChecklist_eq_ok.1 hrefresh
  have hitems := h.refresh henv hu hplan
  rw [hitems] at hview
  simp only [checklistView, bind_eq_ok, pure_eq_ok] at hview
  obtain ⟨plan', hplan', rfl⟩ := hview
  exact ⟨hitems.symm, blocking_reads (h.refreshed.plan hplan')⟩

/-- The submit gate lets a claim pass exactly when the view shows its packet complete. -/
theorem assertPacketComplete_reads (h : Mirrors env σ i claim now c) (henv : env.Catalogued)
    (hu : Unique ChecklistItem.key σ.items) (hclaim : lockedClaim σ i = .ok claim)
    {items' : List ChecklistItem} {view : ChecklistView}
    (hrefresh : refreshChecklist c σ.items = .ok (items', view)) :
    Returns (assertPacketComplete env σ i now) ↔ view.status.complete := by
  have hblocking := (refreshChecklist_reads h henv hu hrefresh).2
  have hlength := congrArg List.length hblocking
  rw [List.length_map, List.length_map] at hlength
  unfold assertPacketComplete PacketStatus.complete
  rw [hclaim, ← List.length_eq_zero_iff, hlength]
  simp [refuse]

end

end OfficeConnect.Packet
