import OfficeConnect.Reimbursement.Packet

/-!
# A packet in flight

The submit side prices the packet's rules against the active catalog; the approve side reads the
rows on file.  In between the catalog is edited and documents are generated, and each generated
document materializes the packet again.  An approval is refused for a live item that holds nothing
and whose catalog row needs a human's evidence; the module says which edits and passes leave none.
-/

namespace OfficeConnect.Reimbursement

open Lib Workflow

/-! ## The claim's desk -/

/-- One pass of the generator; `codes` are the documents it renders anew. -/
def generateClaimDocuments (env : Env) (claimId : ℕ) (codes : List String) (σ : Store) :
    Except Raised Store := do
  let _ ← lockedClaim σ claimId
  codes.foldlM (fun σ code => markGenerated env claimId code σ) σ

/-- The store and what a call reads beside it. -/
structure Desk where
  env : Env
  store : Store

/-- What happens while a claim is in the chain: the environment moves, documents are generated, an
approver acts. -/
inductive Turn where
  | drift (env : Env)
  | generate (codes : List String)
  | approve (r : ActionRequest)

def Desk.step (i : ℕ) (t : Turn) (d : Desk) : Except Raised Desk :=
  match t with
  | .drift env => .ok { d with env := env }
  | .generate codes => do
      let σ ← generateClaimDocuments d.env i codes d.store
      return { d with store := σ }
  | .approve r => do
      let σ ← claimAction d.env { r with claimId := i, action := .approve } d.store
      return { d with store := σ }

/-- The packet gate of an approval lets the claim pass. -/
def Desk.Admits (i : ℕ) (d : Desk) : Prop :=
  assertPersistedPacketComplete d.env d.store i = .ok ()

/-- The claim a call sends through the submit side of the gate. -/
def Call.gate? (c : Call) : Option (ℕ × Option Time) :=
  match c.op with
  | .submit r => some (r.claimId, r.now)
  | .act r => if r.action = .resubmit then some (r.claimId, r.now) else none
  | _ => none

/-! ## Items that hold nothing -/

/-- The claim has a live item for the catalog row that holds nothing. -/
def EmptyItem (env : Env) (σ : Store) (i k : ℕ) : Prop :=
  ∃ item ∈ σ.item? i k, item.2.deleted = false ∧ (itemState env item).holdsSomething = false

instance (env : Env) (σ : Store) (i k : ℕ) : Decidable (EmptyItem env σ i k) :=
  inferInstanceAs (Decidable (∃ item ∈ σ.item? i k,
    item.2.deleted = false ∧ (itemState env item).holdsSomething = false))

/-- The row applies to claims of the kind. -/
def CatalogRow.active (row : CatalogRow) (kind : Kind) : Bool :=
  row.isActive ∧ (row.claimKind = none ∨ row.claimKind = some kind)

/-- What a row's rule says of the claim. -/
def ruleOf (env : Env) (σ : Store) (i : ℕ) (claim : Claim) (now : Time) (row : CatalogRow) :
    RuleOutcome := row.requiredRule (buildClaimFacts env σ i claim now)

/-- The gate finds no empty item of a row out of the catalog, and no row that it would have to file
for a rule it cannot read. -/
def OpensClean (env : Env) (σ : Store) (i : ℕ) (now : Time) : Prop :=
  ∀ claim ∈ σ.claims[i]?, ∀ row ∈ env.catalog, row.evidence.blocks = true →
    (row.active claim.kind = false → ¬ EmptyItem env σ i row.id) ∧
    (row.active claim.kind = true → σ.item? i row.id = none →
      (ruleOf env σ i claim now row).required = false →
      (ruleOf env σ i claim now row).unparseable = false)

instance (env : Env) (σ : Store) (i : ℕ) (now : Time) : Decidable (OpensClean env σ i now) :=
  inferInstanceAs (Decidable (∀ claim ∈ σ.claims[i]?, ∀ row ∈ env.catalog,
    row.evidence.blocks = true →
      (row.active claim.kind = false → ¬ EmptyItem env σ i row.id) ∧
      (row.active claim.kind = true → σ.item? i row.id = none →
        (ruleOf env σ i claim now row).required = false →
        (ruleOf env σ i claim now row).unparseable = false)))

/-- Every row that a human must answer and that applies has an item that holds something, and no
rule is unreadable but with an item on file. -/
def Answered (env : Env) (σ : Store) (i : ℕ) : Prop :=
  ∀ claim ∈ σ.claims[i]?, ∀ row ∈ env.catalog, row.evidence.blocks = true →
    row.active claim.kind = true →
    (σ.item? i row.id = none → (ruleOf env σ i claim env.utcNow row).required = false ∧
      (ruleOf env σ i claim env.utcNow row).unparseable = false) ∧
    ∀ item ∈ σ.item? i row.id, (ruleOf env σ i claim env.utcNow row).required = true →
      (itemState env item).holdsSomething = true

instance (env : Env) (σ : Store) (i : ℕ) : Decidable (Answered env σ i) :=
  inferInstanceAs (Decidable (∀ claim ∈ σ.claims[i]?, ∀ row ∈ env.catalog,
    row.evidence.blocks = true → row.active claim.kind = true →
      (σ.item? i row.id = none → (ruleOf env σ i claim env.utcNow row).required = false ∧
        (ruleOf env σ i claim env.utcNow row).unparseable = false) ∧
      ∀ item ∈ σ.item? i row.id, (ruleOf env σ i claim env.utcNow row).required = true →
        (itemState env item).holdsSomething = true))

/-- The catalog keeps its primary key, and the files on the claim's items stay as they are. -/
def Undisturbed (d : Desk) : Turn → Prop
  | .drift env => env.Catalogued ∧ ∀ id < d.store.items.length,
      (env.evidenceCounts id).usable = (d.env.evidenceCounts id).usable
  | _ => True

instance (d : Desk) (t : Turn) : Decidable (Undisturbed d t) :=
  match t with
  | .drift env => inferInstanceAs (Decidable (env.Catalogued ∧ ∀ id < d.store.items.length,
      (env.evidenceCounts id).usable = (d.env.evidenceCounts id).usable))
  | .generate _ => isTrue trivial
  | .approve _ => isTrue trivial

/-- No edit asks a human for a row whose item is empty, and a pass that renders a document finds the
packet answered. -/
def Spares (i : ℕ) (d : Desk) : Turn → Prop
  | .drift env => ∀ row ∈ env.catalog, row.evidence.blocks = true →
      EmptyItem d.env d.store i row.id →
      ∃ old ∈ d.env.catalog, old.id = row.id ∧ old.evidence.blocks = true
  | .generate codes => codes ≠ [] → Answered d.env d.store i
  | .approve _ => True

instance (i : ℕ) (d : Desk) (t : Turn) : Decidable (Spares i d t) :=
  match t with
  | .drift env => inferInstanceAs (Decidable (∀ row ∈ env.catalog, row.evidence.blocks = true →
      EmptyItem d.env d.store i row.id →
      ∃ old ∈ d.env.catalog, old.id = row.id ∧ old.evidence.blocks = true))
  | .generate codes => inferInstanceAs (Decidable (codes ≠ [] → Answered d.env d.store i))
  | .approve _ => isTrue trivial

section

variable {env : Env} {σ : Store} {i k : ℕ} {claim : Claim} {now : Time} {p : ItemPlan}
  {row : CatalogRow}

theorem mem_activeCatalog {kind : Kind} :
    row ∈ activeCatalog env kind ↔ row ∈ env.catalog ∧ row.active kind = true := by
  simp [activeCatalog, CatalogRow.active]

theorem emptyItem_congr {τ : Store} (h : σ.item? i k = τ.item? i k) :
    EmptyItem env σ i k ↔ EmptyItem env τ i k := by
  rw [EmptyItem, EmptyItem, h]

theorem holdsSomething_eq_false {item : ℕ × ChecklistItem} :
    (itemState env item).holdsSomething = false ↔ (env.evidenceCounts item.1).usable = 0 ∧
      item.2.waiverReason = none ∧ item.2.status ≠ .generated := by
  simp [ItemState.holdsSomething, itemState]

theorem derive_generated (spec : CatalogRow) {s : ItemState} (checks : List CheckOutcome)
    (hwaived : s.waived = false) :
    (derive spec (some s) checks).2 = .generated ↔ s.generated = true := by
  cases hgen : s.generated with
  | true => simp [derive, hwaived, hgen]
  | false =>
      simp only [derive, Option.any_some, hwaived, hgen, Bool.false_eq_true, if_false, iff_false]
      split_ifs <;> simp

/-- A plan keeps what an item holds. -/
theorem holds_revise {facts : Facts} {state? : ℕ → Option ItemState} {id : ℕ}
    {item : ChecklistItem} (hp : planItem facts state? row = some p)
    (hstate : state? row.id = some (itemState env (id, item))) :
    (itemState env (id, p.revise item)).holdsSomething = false ↔
      (itemState env (id, item)).holdsSomething = false := by
  obtain ⟨-, -, hderive, -⟩ := planItem_cases hp
  rw [hstate] at hderive
  have hstatus := congrArg Prod.snd hderive
  change p.derivedStatus = _ at hstatus
  rw [holdsSomething_eq_false, holdsSomething_eq_false]
  refine and_congr_right fun _ => ?_
  have hwaiver : (p.revise item).waiverReason = item.waiverReason := by
    unfold ItemPlan.revise
    cases p.action <;> rfl
  rw [hwaiver]
  refine and_congr_right fun hnone => ?_
  have hgenerated : p.derivedStatus = .generated ↔ item.status = .generated := by
    rw [hstatus, derive_generated _ _ (by simp [itemState, hnone])]
    simp [itemState]
  unfold ItemPlan.revise
  cases p.action with
  | create => rfl
  | keep => exact not_congr hgenerated
  | restore => exact not_congr hgenerated
  | makeDormant => rfl

/-- A row with no plan has no live item. -/
theorem planItem_eq_none {facts : Facts} {state? : ℕ → Option ItemState} {s : ItemState}
    (hp : planItem facts state? row = none) (hstate : state? row.id = some s) :
    s.dormant = true := by
  unfold planItem at hp
  simp only [hstate] at hp
  split at hp
  · rename_i h
    simpa using h.2.2
  split at hp
  · rename_i h
    simpa using h.2
  · cases hp

/-- The plan of a claim, for one catalog row. -/
def planOf (env : Env) (σ : Store) (i : ℕ) (claim : Claim) (now : Time) (row : CatalogRow) :
    Option ItemPlan :=
  planItem (buildClaimFacts env σ i claim now) (fun k => (σ.item? i k).map (itemState env)) row

theorem planOf_ne_none (claim : Claim) (now : Time) (hempty : EmptyItem env σ i row.id) :
    planOf env σ i claim now row ≠ none := by
  obtain ⟨item, hat, hlive, -⟩ := hempty
  intro hnone
  have hstate := congrArg (Option.map (itemState env)) hat
  have hdormant := planItem_eq_none hnone hstate
  rw [itemState, hlive] at hdormant
  cases hdormant

/-- One catalog row over a refresh: its item is revised as planned, or it has no plan and its item
stays. -/
theorem refresh_cases (claim : Claim) (now : Time) (henv : env.Catalogued)
    (hu : Unique ChecklistItem.key σ.items) (hrow : row ∈ env.catalog) :
    (∃ p, row.active claim.kind = true ∧ planOf env σ i claim now row = some p ∧
      Revised i p (σ.item? i row.id)
        ((refreshChecklist env σ i claim now).item? i row.id)) ∨
    ((row.active claim.kind = true → planOf env σ i claim now row = none) ∧
      (refreshChecklist env σ i claim now).item? i row.id = σ.item? i row.id) := by
  obtain ⟨-, hself, hother⟩ := refreshChecklist_items i claim now henv hu
  by_cases hplanned : ∃ p, row.active claim.kind = true ∧ planOf env σ i claim now row = some p
  · obtain ⟨p, hactive, hplan⟩ := hplanned
    have hp := mem_buildPlan.2 ⟨row, mem_activeCatalog.2 ⟨hrow, hactive⟩, hplan⟩
    have hrevised := hself p hp
    rw [(planItem_cases hplan).1] at hrevised
    exact .inl ⟨p, hactive, hplan, hrevised⟩
  · refine .inr ⟨fun hactive => ?_, hother i row.id fun _ p hp hid => ?_⟩
    · cases hplan : planOf env σ i claim now row with
      | none => rfl
      | some p => exact absurd ⟨p, hactive, hplan⟩ hplanned
    · obtain ⟨spec, hspec, hplan⟩ := mem_buildPlan.1 hp
      obtain ⟨hmem, hactive⟩ := mem_activeCatalog.1 hspec
      rw [(planItem_cases hplan).1] at hid
      obtain rfl := List.inj_on_of_nodup_map henv hmem hrow hid
      exact hplanned ⟨p, hactive, hplan⟩

/-- An item stays on file and holds what it held. -/
theorem refresh_some {item : ℕ × ChecklistItem} (claim : Claim) (now : Time)
    (henv : env.Catalogued) (hu : Unique ChecklistItem.key σ.items) (hrow : row ∈ env.catalog)
    (hat : σ.item? i row.id = some item) :
    ∃ after, (refreshChecklist env σ i claim now).item? i row.id = some after ∧
      ((itemState env after).holdsSomething = false ↔
        (itemState env item).holdsSomething = false) := by
  rcases refresh_cases claim now henv hu hrow with ⟨p, -, hplan, hrevised⟩ | ⟨-, hsame⟩
  · rcases hrevised with ⟨hnone, -⟩ | ⟨id, before, hsome, -, hafter⟩
    · rw [hat] at hnone
      cases hnone
    · obtain rfl := Option.some.inj (hat.symm.trans hsome)
      exact ⟨_, hafter, holds_revise hplan (congrArg (Option.map (itemState env)) hat)⟩
  · exact ⟨item, hsame.trans hat, Iff.rfl⟩

/-- An empty item after a refresh: it was there and its row is out of the catalog, or its row
applies and nothing answered it, or its rule is unreadable and it is new. -/
theorem emptyItem_refresh (henv : env.Catalogued) (hu : Unique ChecklistItem.key σ.items)
    (hrow : row ∈ env.catalog)
    (hempty : EmptyItem env (refreshChecklist env σ i claim now) i row.id) :
    (row.active claim.kind = false ∧ EmptyItem env σ i row.id) ∨
      (row.active claim.kind = true ∧
        (∀ item ∈ σ.item? i row.id, (itemState env item).holdsSomething = false) ∧
        ((ruleOf env σ i claim now row).required = true ∨
          σ.item? i row.id = none ∧ (ruleOf env σ i claim now row).unparseable = true)) := by
  rcases refresh_cases claim now henv hu hrow with ⟨p, hactive, hplan, hrevised⟩ | ⟨hplan, hsame⟩
  · obtain ⟨-, -, -, hcases⟩ := planItem_cases hplan
    refine .inr ⟨hactive, ?_⟩
    rcases hrevised with ⟨hnone, -⟩ | ⟨id, before, hsome, -, hafter⟩
    · rw [hnone]
      rcases hcases with ⟨-, -, -, hrule⟩ | ⟨s, hs, -⟩
      · exact ⟨by simp, hrule.imp_right fun h => ⟨rfl, h⟩⟩
      · rw [hnone] at hs
        cases hs
    · have hstate := congrArg (Option.map (itemState env)) hsome
      obtain ⟨after, hat, hlive, hnothing⟩ := hempty
      obtain rfl := Option.some.inj (hafter.symm.trans hat)
      have hheld := (holds_revise hplan hstate).1 hnothing
      refine ⟨?_, .inl ?_⟩
      · rw [hsome]
        simpa using hheld
      · -- an item of a row that does not apply is put away
        by_contra hrequired
        rcases hcases with ⟨hnone, -⟩ | ⟨s, hs, -, haction⟩
        · cases hstate.symm.trans hnone
        · obtain rfl := Option.some.inj (hstate.symm.trans hs)
          unfold ruleOf at hrequired
          rw [if_neg hrequired, hheld, if_neg (by simp)] at haction
          simp [ItemPlan.revise, haction] at hlive
  · rw [emptyItem_congr hsame] at hempty
    cases hactive : row.active claim.kind with
    | false => exact .inl ⟨rfl, hempty⟩
    | true => exact absurd (hplan hactive) (planOf_ne_none claim now hempty)

/-- The submit side refuses an empty item of a row that applies. -/
theorem blocking_of_empty (hrow : row ∈ env.catalog) (hblocks : row.evidence.blocks = true)
    (hactive : row.active claim.kind = true)
    (hrequired : (ruleOf env σ i claim now row).required = true)
    (hempty : EmptyItem env σ i row.id) :
    (blockingRows (buildPlan env σ i claim now)).length ≠ 0 := by
  obtain ⟨p, hplan⟩ := Option.ne_none_iff_exists'.1 (planOf_ne_none claim now hempty)
  obtain ⟨item, hat, -, hnothing⟩ := hempty
  obtain ⟨hcount, hwaiver, hstatus⟩ := holdsSomething_eq_false.1 hnothing
  obtain ⟨hcatalog, hreq, hderive, -⟩ := planItem_cases hplan
  have hmissing : p.evidenceState = .missing := by
    have hstate := congrArg Prod.fst hderive
    change p.evidenceState = _ at hstate
    have hdata : row.evidence ≠ .dataOnly := by
      intro h
      rw [h] at hblocks
      exact absurd hblocks (by decide)
    rw [hstate, show σ.item? i row.id = some item from hat]
    simp [derive, itemState, hwaiver, hstatus, hcount, hdata]
  have hmem : row ∈ blockingRows (buildPlan env σ i claim now) := by
    refine List.mem_map.2 ⟨p, List.mem_filter.2 ⟨?_, ?_⟩, hcatalog⟩
    · exact mem_buildPlan.2 ⟨row, mem_activeCatalog.2 ⟨hrow, hactive⟩, hplan⟩
    · have hrule : p.required = true := hreq.trans hrequired
      simp [hrule, hcatalog, hblocks, hmissing]
  exact fun hlen => List.ne_nil_of_mem hmem (List.length_eq_zero_iff.1 hlen)

/-! ## The two gates -/

/-- The approve side passes a claim that has no empty item of a row that a human must answer. -/
structure Clear (i : ℕ) (d : Desk) : Prop where
  catalogued : d.env.Catalogued
  unique : Unique ChecklistItem.key d.store.items
  answered : ∀ row ∈ d.env.catalog, row.evidence.blocks = true →
    ¬ EmptyItem d.env d.store i row.id

/-- Only the items are read. -/
theorem Clear.of_items {τ : Store} (h : Clear i ⟨env, τ⟩) (hitems : σ.items = τ.items) :
    Clear i ⟨env, σ⟩ := by
  refine ⟨h.catalogued, by rw [hitems]; exact h.unique, fun row hrow hblocks => ?_⟩
  have hsame : σ.item? i row.id = τ.item? i row.id := by
    rw [item?_eq_rowAt, item?_eq_rowAt, hitems]
  rw [emptyItem_congr hsame]
  exact h.answered row hrow hblocks

theorem Clear.admits {d : Desk} (h : Clear i d) : d.Admits i := by
  refine refuse_of_not _ fun hlen => hlen ?_
  rw [List.length_eq_zero_iff, persistedBlocking, List.filterMap_eq_nil_iff]
  rintro ⟨item, id⟩ hmem
  obtain ⟨hzip, hmine⟩ := List.mem_filter.1 hmem
  simp only [decide_eq_true_eq] at hmine
  obtain ⟨hclaim, hlive⟩ := hmine
  cases hfind : d.env.catalog.find? (·.id = item.catalogId) with
  | none => rfl
  | some row =>
      have hid : row.id = item.catalogId := by simpa using List.find?_some hfind
      refine if_neg fun hblock => ?_
      obtain ⟨hblocks, hwaiver, hstatus, hcount⟩ := hblock
      refine h.answered row (List.mem_of_find?_eq_some hfind) hblocks ⟨(id, item), ?_, ?_, ?_⟩
      · rw [item?_eq_rowAt]
        refine h.unique.rowAt_eq_some.2 ⟨List.mem_zipIdx_iff_getElem?.1 hzip, ?_⟩
        rw [ChecklistItem.key, hclaim, hid]
      · simpa using hlive
      · exact holdsSomething_eq_false.2 ⟨hcount, hwaiver, hstatus⟩

/-- A claim that the submit side accepts on a clean packet passes the approve side. -/
theorem clear_of_accepted {τ : Store} (henv : env.Catalogued)
    (hu : Unique ChecklistItem.key σ.items) (hclean : OpensClean env σ i now)
    (hgate : assertPacketComplete env σ i now = .ok τ) : Clear i ⟨env, τ⟩ := by
  obtain ⟨claim, hclaim, rfl, hpass⟩ := assertPacketComplete_eq_ok.1 hgate
  refine ⟨henv, (refreshChecklist_items i claim now henv hu).1, fun row hrow hblocks hempty => ?_⟩
  obtain ⟨houtside, hunread⟩ := hclean claim hclaim row hrow hblocks
  rcases emptyItem_refresh henv hu hrow hempty with
    ⟨hinactive, hwas⟩ | ⟨hactive, -, hrule⟩
  · exact houtside hinactive hwas
  · cases hreq : (ruleOf env σ i claim now row).required with
    | true =>
        exact blocking_of_empty (σ := refreshChecklist env σ i claim now) hrow hblocks hactive hreq
          hempty hpass
    | false =>
        rcases hrule with h | ⟨hnone, hbad⟩
        · rw [hreq] at h
          cases h
        · rw [hunread hactive hnone hreq] at hbad
          cases hbad

/-! ## Generating documents -/

theorem Answered.not_empty_refresh {τ : Store} (henv : env.Catalogued)
    (hu : Unique ChecklistItem.key τ.items) (h : Answered env τ i)
    (hclaim : τ.claims[i]? = some claim)
    (hempty : ∀ row ∈ env.catalog, row.evidence.blocks = true → ¬ EmptyItem env τ i row.id)
    (hrow : row ∈ env.catalog) (hblocks : row.evidence.blocks = true) :
    ¬ EmptyItem env (refreshChecklist env τ i claim env.utcNow) i row.id := by
  intro hafter
  rcases emptyItem_refresh henv hu hrow hafter with ⟨-, hwas⟩ | ⟨hactive, hnothing, hrule⟩
  · exact hempty row hrow hblocks hwas
  · obtain ⟨hnone, hsome⟩ := h claim hclaim row hrow hblocks hactive
    cases hat : τ.item? i row.id with
    | none =>
        obtain ⟨hreq, hread⟩ := hnone hat
        rcases hrule with h | ⟨-, h⟩
        · rw [hreq] at h
          cases h
        · rw [hread] at h
          cases h
    | some item =>
        have hheld := hnothing item hat
        rcases hrule with h | ⟨h, -⟩
        · rw [hsome item hat h] at hheld
          cases hheld
        · rw [hat] at h
          cases h

/-- A refresh of an answered packet files nothing new that a human must answer. -/
theorem Answered.refresh {τ : Store} (henv : env.Catalogued)
    (hu : Unique ChecklistItem.key τ.items) (h : Answered env τ i)
    (hclaim : τ.claims[i]? = some claim) :
    Answered env (refreshChecklist env τ i claim env.utcNow) i := by
  intro claim' hclaim' row hrow hblocks hactive
  obtain rfl : claim = claim' := Option.some.inj (hclaim.symm.trans hclaim')
  obtain ⟨hnone, hsome⟩ := h claim hclaim row hrow hblocks hactive
  cases hat : τ.item? i row.id with
  | none =>
      refine ⟨fun _ => hnone hat, fun item hitem hreq => ?_⟩
      have hreq' : (ruleOf env τ i claim env.utcNow row).required = true := hreq
      rw [(hnone hat).1] at hreq'
      cases hreq'
  | some item =>
      obtain ⟨after, hafter, hheld⟩ := refresh_some claim env.utcNow henv hu hrow hat
      refine ⟨fun h => ?_, fun item' hitem' hreq => ?_⟩
      · rw [hafter] at h
        cases h
      · obtain rfl := Option.some.inj (hafter.symm.trans hitem')
        rw [← Bool.not_eq_false, hheld, Bool.not_eq_false]
        exact hsome item hat hreq

/-- What a pass of the generator rests on and keeps. -/
structure Generating (env : Env) (i : ℕ) (σ : Store) : Prop where
  clear : Clear i ⟨env, σ⟩
  answered : Answered env σ i

theorem Generating.markGenerated {code : String} {σ' : Store} (h : Generating env i σ)
    (hstep : markGenerated env i code σ = .ok σ') : Generating env i σ' := by
  simp only [Reimbursement.markGenerated, bind_eq_ok, found_eq_ok, refuse_eq_ok, pure_eq_ok,
    lockedClaim_eq_ok, not_not] at hstep
  obtain ⟨claim, hclaim, doc, hdoc, -, hkind, rfl⟩ := hstep
  have henv := h.clear.catalogued
  have hmem : doc ∈ env.catalog := (mem_activeCatalog.1 (List.mem_of_find?_eq_some hdoc)).1
  obtain ⟨hu, hother⟩ := materializeItem_items i doc (fun _ => .generated) h.clear.unique
  set τ : Store := { σ with
    items := materializeItem σ.items (σ.item? i doc.id) i doc (fun _ => .generated) } with hτ
  -- the generated row is none that a human must answer
  have hsame : ∀ row ∈ env.catalog, row.evidence.blocks = true →
      τ.item? i row.id = σ.item? i row.id := by
    intro row hrow hblocks
    rw [item?_eq_rowAt]
    refine hother i row.id fun heq => ?_
    obtain rfl := List.inj_on_of_nodup_map henv hrow hmem (Prod.mk.inj heq).2
    rw [hkind] at hblocks
    exact absurd hblocks (by decide)
  have hempty : ∀ row ∈ env.catalog, row.evidence.blocks = true → ¬ EmptyItem env τ i row.id := by
    intro row hrow hblocks
    rw [emptyItem_congr (hsame row hrow hblocks)]
    exact h.clear.answered row hrow hblocks
  have hanswered : Answered env τ i := by
    intro claim' hclaim' row hrow hblocks hactive
    rw [hsame row hrow hblocks]
    exact h.answered claim' hclaim' row hrow hblocks hactive
  exact ⟨⟨henv, (refreshChecklist_items i claim env.utcNow henv hu).1,
    fun row hrow hblocks => hanswered.not_empty_refresh henv hu hclaim hempty hrow hblocks⟩,
    hanswered.refresh henv hu hclaim⟩

theorem Generating.foldlM (codes : List String) {σ' : Store} (h : Generating env i σ)
    (hstep : codes.foldlM (fun σ code => Reimbursement.markGenerated env i code σ) σ = .ok σ') :
    Generating env i σ' := by
  induction codes generalizing σ with
  | nil =>
      obtain rfl := pure_eq_ok.1 hstep
      exact h
  | cons code codes ih =>
      rw [List.foldlM_cons, bind_eq_ok] at hstep
      obtain ⟨σ₁, hmark, hrest⟩ := hstep
      exact ih (h.markGenerated hmark) hrest

/-! ## Runs -/

theorem item?_lt {item : ℕ × ChecklistItem} (h : σ.item? i k = some item) :
    item.1 < σ.items.length := by
  rw [item?_eq_rowAt] at h
  exact (List.getElem?_eq_some_iff.1 (mem_of_rowAt h).1).1

theorem Clear.step {d d' : Desk} {t : Turn} (h : Clear i d) (hkeeps : Undisturbed d t)
    (hspares : Spares i d t) (hstep : Desk.step i t d = .ok d') : Clear i d' := by
  cases t with
  | drift env =>
      obtain rfl := Except.ok.inj hstep
      obtain ⟨henv, hcounts⟩ := hkeeps
      refine ⟨henv, h.unique, fun row hrow hblocks hempty => ?_⟩
      obtain ⟨item, hat, hlive, hnothing⟩ := hempty
      have hwas : EmptyItem d.env d.store i row.id := by
        refine ⟨item, hat, hlive, ?_⟩
        rw [holdsSomething_eq_false] at hnothing ⊢
        rw [← hcounts item.1 (item?_lt hat)]
        exact hnothing
      obtain ⟨old, hold, hid, hblocks'⟩ := hspares row hrow hblocks hwas
      rw [← hid] at hwas
      exact h.answered old hold hblocks' hwas
  | generate codes =>
      simp only [Desk.step, generateClaimDocuments, bind_eq_ok, pure_eq_ok] at hstep
      obtain ⟨σ', ⟨-, -, hpass⟩, rfl⟩ := hstep
      by_cases hcodes : codes = []
      · -- nothing is rendered and nothing is written
        subst hcodes
        obtain rfl := pure_eq_ok.1 hpass
        exact h
      · have hgen : Generating d.env i d.store := ⟨h, hspares hcodes⟩
        exact (hgen.foldlM codes hpass).clear
  | approve r =>
      simp only [Desk.step, bind_eq_ok, pure_eq_ok] at hstep
      obtain ⟨σ', hact, rfl⟩ := hstep
      have hitems : σ'.items = d.store.items := claimAction_items hact (by simp)
      exact h.of_items hitems

/-- The packet the gate opens on is clean. -/
def Call.OpensClean (c : Call) (σ : Store) (i : ℕ) (now : Option Time) : Prop :=
  ∀ τ ∈ (computeClaimTotals c.env σ i).toOption,
    Reimbursement.OpensClean c.env τ i (c.env.at now)

instance (c : Call) (σ : Store) (i : ℕ) (now : Option Time) : Decidable (c.OpensClean σ i now) :=
  inferInstanceAs (Decidable (∀ τ ∈ (computeClaimTotals c.env σ i).toOption,
    Reimbursement.OpensClean c.env τ i (c.env.at now)))

theorem Call.gate_passed {c : Call} {σ' : Store} {now : Option Time}
    (hgate : c.gate? = some (i, now)) (hstep : c.step σ = .ok σ') :
    ∃ τ τ', computeClaimTotals c.env σ i = .ok τ ∧
      assertPacketComplete c.env τ i (c.env.at now) = .ok τ' ∧ σ'.items = τ'.items := by
  obtain ⟨env, op⟩ := c
  cases op with
  | submit r =>
      obtain ⟨rfl, rfl⟩ := Prod.mk.inj (Option.some.inj hgate)
      exact submitClaim_items hstep
  | act r =>
      simp only [Call.gate?] at hgate
      split_ifs at hgate with hverb
      obtain ⟨rfl, rfl⟩ := Prod.mk.inj (Option.some.inj hgate)
      exact resubmit_items hstep hverb
  | _ => cases hgate

end

/-- A claim that passed the submit side on a clean packet passes every later approval, as long as
its files stay, no edit asks a human for a row whose item is empty, and every pass of the generator
that renders a document and returns finds the packet answered. -/
theorem inFlight_admits (calls : List Call) (hcalls : ∀ c ∈ calls, c.env.Catalogued) (c : Call)
    (henv : c.env.Catalogued) (i : ℕ) (now : Option Time) (hgate : c.gate? = some (i, now))
    (σ : Store) (hstep : c.step (runStore calls) = .ok σ)
    (hclean : c.OpensClean (runStore calls) i now) (turns : List Turn)
    (hturns : Conforms (Desk.step i)
      (OnReturn (Desk.step i) fun d t => Undisturbed d t ∧ Spares i d t) ⟨c.env, σ⟩ turns) :
    (run (Desk.step i) ⟨c.env, σ⟩ turns).Admits i := by
  obtain ⟨τ, τ', htotals, hpass, hitems⟩ := Call.gate_passed hgate hstep
  have hu : Unique ChecklistItem.key τ.items := by
    rw [computeClaimTotals_items htotals]
    exact unique_items_runStore calls hcalls
  have hpassed := clear_of_accepted henv hu (hclean τ (by rw [htotals]; rfl)) hpass
  have hstart : Clear i ⟨c.env, σ⟩ := hpassed.of_items hitems
  refine Clear.admits (run_invariant (fun d t d' hreturned h hok => ?_) turns _ hstart hturns)
  have ht : Undisturbed d t ∧ Spares i d t := hreturned.of_ok hok
  exact h.step ht.1 ht.2 hok

/-- The itinerary of travel, which the generator produces. -/
def itinerary : CatalogRow :=
  { id := 1, code := "IOT-45", label := "Itinerary of travel", evidence := .generatedDoc,
    requiredRule := fun _ => { required := true } }

/-- The travel order, which the claimant uploads. -/
def travelOrder : CatalogRow :=
  { id := 2, code := "TO-01", label := "Travel order", evidence := .upload,
    requiredRule := fun _ => { required := true } }

/-- The office with a catalog; item 0 has a file. -/
def bureau (catalog : List CatalogRow) : Env := { office with
  catalog := catalog
  evidenceCounts := fun id => if id = 0 then { usable := 1 } else {} }

/-- User 1 drafts and fills claim 0 and uploads what `uploads` lists. -/
def draftTrip (catalog : List CatalogRow) (uploads : List ℕ) : List Call :=
  let ops : List Op := .createDraft 1 .reimbursement none :: fillTrip 0 ++
    uploads.map fun k => .attachEvidence 0 k 1
  ops.map fun op => { env := bureau catalog, op := op }

def submitDraft (catalog : List CatalogRow) : Call :=
  { env := bureau catalog, op := .submit { claimId := 0, actorUserId := 1 } }

/-- The catalog is edited, and the itinerary is generated. -/
def editAndGenerate (catalog : List CatalogRow) : List Turn := [
  .drift (bureau catalog), .generate ["IOT-45"]]

/-- The certificate of travel, which applies to no claim. -/
def certificate : CatalogRow :=
  { id := 3, code := "CTC-47", label := "Certificate of travel completed", evidence := .upload,
    requiredRule := fun _ => { required := false } }

/-- A row that asks nothing is added to the catalog. -/
theorem draftTrip_admitted : ∃ σ,
    (submitDraft [itinerary, travelOrder]).step
      (runStore (draftTrip [itinerary, travelOrder] [2])) = .ok σ ∧
    (run (Desk.step 0) ⟨bureau [itinerary, travelOrder], σ⟩
      (editAndGenerate [itinerary, travelOrder, certificate])).Admits 0 := by
  obtain ⟨σ, hstep, hturns⟩ := exists_eq_ok (x := (submitDraft [itinerary, travelOrder]).step
    (runStore (draftTrip [itinerary, travelOrder] [2])))
    (fun σ => Conforms (Desk.step 0) (fun d t => Undisturbed d t ∧ Spares 0 d t)
      ⟨bureau [itinerary, travelOrder], σ⟩
      (editAndGenerate [itinerary, travelOrder, certificate])) (by decide +kernel)
  exact ⟨σ, hstep, inFlight_admits (draftTrip [itinerary, travelOrder] [2]) (by decide +kernel)
    (submitDraft [itinerary, travelOrder]) (by decide +kernel) 0 none rfl σ hstep
    (by decide +kernel) _ (of_decide_eq_true hturns).onReturn⟩

/-- A claim is submitted when the catalog asks for no upload; the travel order is added, and the
next pass of the generator files it as missing. -/
theorem travelOrder_not_admitted : ¬ ∀ (calls : List Call) (c : Call) (i : ℕ) (now : Option Time)
    (σ : Store) (turns : List Turn), (∀ c ∈ calls, c.env.Catalogued) → c.env.Catalogued →
    c.gate? = some (i, now) → c.step (runStore calls) = .ok σ →
    Conforms (Desk.step i) Undisturbed ⟨c.env, σ⟩ turns →
    (run (Desk.step i) ⟨c.env, σ⟩ turns).Admits i := by
  intro h
  obtain ⟨σ, hstep, hσ⟩ := exists_eq_ok
    (x := (submitDraft [itinerary]).step (runStore (draftTrip [itinerary] [])))
    (fun σ => Conforms (Desk.step 0) Undisturbed ⟨bureau [itinerary], σ⟩
        (editAndGenerate [itinerary, travelOrder]) ∧
      (persistedBlocking
        (run (Desk.step 0) ⟨bureau [itinerary], σ⟩ (editAndGenerate [itinerary, travelOrder])).env
        (run (Desk.step 0) ⟨bureau [itinerary], σ⟩ (editAndGenerate [itinerary, travelOrder])).store
        0).length ≠ 0)
    (by decide +kernel)
  simp only [decide_eq_true_eq] at hσ
  obtain ⟨hturns, hblocking⟩ := hσ
  have hadmits := h (draftTrip [itinerary] []) (submitDraft [itinerary]) 0 none σ _
    (by decide +kernel) (by decide +kernel) rfl hstep hturns
  exact refuse_eq_ok.1 hadmits hblocking

end OfficeConnect.Reimbursement
