import OfficeConnect.Core.Replan
import OfficeConnect.Lib.Writes
import OfficeConnect.Reimbursement.Packet

/-!
# Refreshing a packet

The engine's plan, carried out on the claim's items, and the packet as it is shown afterwards.  A
second refresh carries out the plan of what the first one left.
-/

namespace OfficeConnect.Packet

open Checklist Lib
open Reimbursement (ChecklistItem Kind)

/-! ## What a refresh reads -/

/-- The files of an item: those that count, those still being scanned, those infected. -/
structure Tally where
  usable : Printable := ⟨0, printable_zero⟩
  pending : Printable := ⟨0, printable_zero⟩
  infected : Printable := ⟨0, printable_zero⟩

/-- A row of the catalog's table. -/
structure CatalogRecord where
  spec : CatalogSpec
  claimKind : Option Kind := none
  isActive : Bool := true

/-- A claim with what stands beside its items: the catalog, the facts, the tallies and the files by
item, and Python's `str` and `str.lower`. -/
structure Context where
  claimId : ℕ
  kind : Kind
  records : List CatalogRecord
  facts : Checklist.Facts
  tally : ℕ → Tally := fun _ => {}
  files : ℕ → List String := fun _ => []
  str : Json → String := fun _ => ""
  lower : String → String := id

/-- The active rows of the claim's kind. -/
def catalog (c : Context) : List CatalogSpec :=
  (c.records.filter fun r => r.isActive ∧ (r.claimKind = none ∨ r.claimKind = some c.kind)).map
    (·.spec)

/-! ## The plan -/

/-- The claim's item for a catalog row, dormant ones included. -/
def item? (c : Context) (items : List ChecklistItem) (catalogId : ℕ) : Option (ℕ × ChecklistItem) :=
  rowAt ChecklistItem.key items (c.claimId, catalogId)

def itemState (c : Context) (item : ℕ × ChecklistItem) : ItemState :=
  { itemId := item.1
    catalogId := item.2.catalogId
    evidenceCount := (c.tally item.1).usable
    evidencePending := (c.tally item.1).pending
    evidenceInfected := (c.tally item.1).infected
    generated := item.2.status = .generated
    waived := item.2.waiverReason ≠ none
    dormant := item.2.deleted }

def states (c : Context) (items : List ChecklistItem) : List ItemState :=
  ((items.zipIdx.map Prod.swap).filter fun r => r.2.claimId = c.claimId).map (itemState c)

def build (c : Context) (items : List ChecklistItem) : Except Fault (List ItemPlan) :=
  planChecklist c.str c.lower (catalog c) (states c items) c.facts

/-! ## Carrying it out -/

def status : ItemStatus → Reimbursement.ItemStatus
  | .missing => .missing
  | .attached => .attached
  | .generated => .generated
  | .autoPassed => .autoPassed
  | .autoFlagged => .autoFlagged
  | .waived => .waived

/-- The item a plan creates. -/
def fresh (c : Context) (p : ItemPlan) : ChecklistItem :=
  { claimId := c.claimId
    catalogId := p.catalog.catalogId
    status := status p.derivedStatus
    circularVersion := p.catalog.circularVersion }

/-- What a plan makes of an item. -/
def revise (p : ItemPlan) (item : ChecklistItem) : ChecklistItem :=
  match p.action with
  | .create => item
  | .makeDormant => { item with deleted := true }
  | .restore => { item with deleted := false, status := status p.derivedStatus }
  | .keep => { item with status := status p.derivedStatus }

def applyPlan (c : Context) (items : List ChecklistItem) (p : ItemPlan) : List ChecklistItem :=
  if p.action = .create then items ++ [fresh c p]
  else
    match item? c items p.catalog.catalogId with
    | none => items
    | some (id, _) => items.modify id (revise p)

/-! ## The view -/

structure ChecklistRow where
  plan : ItemPlan
  itemId : Option ℕ
  files : List String
  waiverReason : Option String

structure ChecklistView where
  rows : List ChecklistRow
  status : PacketStatus

def viewRow (c : Context) (items : List ChecklistItem) (p : ItemPlan) : ChecklistRow :=
  let item := item? c items p.catalog.catalogId
  { plan := p
    itemId := item.map (·.1)
    files := (item.map fun i => c.files i.1).getD []
    waiverReason := item.bind (·.2.waiverReason) }

def checklistView (c : Context) (items : List ChecklistItem) : Except Fault ChecklistView := do
  let plan ← build c items
  return { rows := plan.map (viewRow c items), status := packetStatus plan }

def refreshChecklist (c : Context) (items : List ChecklistItem) :
    Except Fault (List ChecklistItem × ChecklistView) := do
  let plan ← build c items
  let items := plan.foldl (applyPlan c) items
  let view ← checklistView c items
  return (items, view)

section

variable {c : Context} {items : List ChecklistItem} {plan : List ItemPlan} {p : ItemPlan}

/-- The engine is handed the item of each row. -/
theorem itemOf_states (k : ℕ) :
    itemOf (states c items) k = (item? c items k).map (itemState c) := by
  unfold itemOf states item? rowAt
  rw [List.filter_map, List.getLast?_map, List.filter_filter]
  congr 2
  refine List.filter_congr fun r _ => ?_
  simp [itemState, ChecklistItem.key, Bool.and_comm]

/-- The plan was made for the item the table has. -/
def Ready (row : Option (ℕ × ChecklistItem)) (p : ItemPlan) : Prop :=
  p.action = .create ↔ row = none

theorem revise_key (p : ItemPlan) (item : ChecklistItem) : (revise p item).key = item.key := by
  unfold revise
  cases p.action <;> rfl

theorem revise_waiver (p : ItemPlan) (item : ChecklistItem) :
    (revise p item).waiverReason = item.waiverReason := by
  unfold revise
  cases p.action <;> rfl

theorem revise_status {item : ChecklistItem} (hcreate : p.action ≠ .create)
    (hput : p.action ≠ .makeDormant) : (revise p item).status = status p.derivedStatus := by
  unfold revise
  cases haction : p.action with
  | create => exact absurd haction hcreate
  | makeDormant => exact absurd haction hput
  | _ => rfl

theorem fresh_key (c : Context) (p : ItemPlan) : (fresh c p).key = (c.claimId, p.catalog.catalogId) := rfl

/-- The item a plan leaves. -/
def Left (c : Context) (size : ℕ) (p : ItemPlan) (before after : Option (ℕ × ChecklistItem)) : Prop :=
  (before = none ∧ p.action = .create ∧ ∃ id ≥ size, after = some (id, fresh c p)) ∨
    ∃ id item, before = some (id, item) ∧ p.action ≠ .create ∧ after = some (id, revise p item)

theorem applyPlan_writes (hu : Unique ChecklistItem.key items)
    (hready : Ready (item? c items p.catalog.catalogId) p) :
    Writes ChecklistItem.key (c.claimId, p.catalog.catalogId) items (applyPlan c items p) := by
  unfold applyPlan
  split_ifs with haction
  · exact writes_concat (a := fresh c p) hu (hready.1 haction)
  · cases hrow : item? c items p.catalog.catalogId with
    | none => exact absurd (hready.2 hrow) haction
    | some r =>
        obtain ⟨hat, hkey⟩ := mem_of_rowAt hrow
        rw [← hkey]
        exact writes_modify hu (revise_key p) hat

theorem applyPlan_left (hu : Unique ChecklistItem.key items)
    (hready : Ready (item? c items p.catalog.catalogId) p) :
    Left c items.length p (item? c items p.catalog.catalogId)
      (item? c (applyPlan c items p) p.catalog.catalogId) := by
  unfold applyPlan
  split_ifs with haction
  · have hnone := hready.1 haction
    refine .inl ⟨hnone, haction, items.length, le_rfl, ?_⟩
    unfold item?
    rw [hu.rowAt_concat (a := fresh c p) hnone, if_pos (fresh_key c p)]
  · cases hrow : item? c items p.catalog.catalogId with
    | none => exact absurd (hready.2 hrow) haction
    | some r =>
        obtain ⟨hat, hkey⟩ := mem_of_rowAt hrow
        refine .inr ⟨r.1, r.2, rfl, haction, ?_⟩
        unfold item?
        rw [hu.rowAt_modify (revise_key p) hat, if_pos hkey]

/-- A plan carried out: every planned row has its item, and the others keep theirs. -/
theorem foldl_applyPlan (hu : Unique ChecklistItem.key items)
    (hkeys : (plan.map (·.catalog.catalogId)).Nodup)
    (hready : ∀ p ∈ plan, Ready (item? c items p.catalog.catalogId) p) :
    Unique ChecklistItem.key (plan.foldl (applyPlan c) items) ∧
      (∀ k ∉ plan.map (·.catalog.catalogId),
        item? c (plan.foldl (applyPlan c) items) k = item? c items k) ∧
      ∀ p ∈ plan, Left c items.length p (item? c items p.catalog.catalogId)
        (item? c (plan.foldl (applyPlan c) items) p.catalog.catalogId) := by
  have hnodup : (plan.map fun p => (c.claimId, p.catalog.catalogId)).Nodup := by
    have := hkeys.map fun k j (h : (c.claimId, k) = (c.claimId, j)) => (Prod.mk.inj h).2
    rwa [List.map_map] at this
  obtain ⟨hu', hother, hself⟩ := foldl_writes (fun rows p hu hready => applyPlan_writes hu hready)
    plan items hu hnodup hready
  refine ⟨hu', fun k hk => hother (c.claimId, k) fun hmem => hk ?_, fun p hp => ?_⟩
  · obtain ⟨p, hp, hkey⟩ := List.mem_map.1 hmem
    exact List.mem_map.2 ⟨p, hp, (Prod.mk.inj hkey).2⟩
  · obtain ⟨mid, hmid, hlength, hrow, hend⟩ := hself p hp
    have hready' : Ready (item? c mid p.catalog.catalogId) p := by
      unfold item?
      rw [hrow]
      exact hready p hp
    have hleft := applyPlan_left hmid hready'
    unfold item? at hleft ⊢
    rw [hrow, ← hend] at hleft
    rcases hleft with ⟨hnone, haction, id, hid, hafter⟩ | hleft
    · exact .inl ⟨hnone, haction, id, hlength.trans hid, hafter⟩
    · exact .inr hleft

/-! ## Along a plan -/

theorem mem_build (h : build c items = .ok plan) : p ∈ plan ↔ ∃ row ∈ catalog c,
    planItem c.str c.lower c.facts ((item? c items row.catalogId).map (itemState c)) row =
      .ok (some p) := by
  rw [mem_plan h]
  simp only [itemOf_states]

theorem returns_build : Returns (build c items) ↔ ∀ row ∈ catalog c,
    row.Calm c.facts ((item? c items row.catalogId).map (itemState c)) := by
  unfold build
  rw [returns_planChecklist]
  simp only [itemOf_states]

theorem catalog_of_planItem {str : Json → String} {lower : String → String} {facts : Facts}
    {state : Option ItemState} {row : CatalogSpec}
    (h : planItem str lower facts state row = .ok (some p)) : p.catalog = row := by
  obtain ⟨o, -, hrest⟩ := planItem_eq_ok.1 h
  split_ifs at hrest
  obtain ⟨checks, -, hp⟩ := hrest
  cases hp
  rfl

theorem ready_of_planItem {str : Json → String} {lower : String → String} {facts : Facts}
    {row : CatalogSpec} {item : Option (ℕ × ChecklistItem)}
    (h : planItem str lower facts (item.map (itemState c)) row = .ok (some p)) : Ready item p := by
  obtain ⟨o, -, hrest⟩ := planItem_eq_ok.1 h
  split_ifs at hrest
  obtain ⟨checks, -, hp⟩ := hrest
  cases hp
  exact planAction_create.trans Option.map_eq_none_iff

theorem keys_build (hcatalog : ((catalog c).map (·.catalogId)).Nodup) (h : build c items = .ok plan) :
    (plan.map (·.catalog.catalogId)).Nodup := by
  obtain ⟨plans, hplans, rfl⟩ := planChecklist_eq_ok.1 h
  have hsub : ∀ {rows : List CatalogSpec} {plans : List (Option ItemPlan)},
      List.Forall₂ (fun row o => planItem c.str c.lower c.facts
        (itemOf (states c items) row.catalogId) row = .ok o) rows plans →
      (plans.reduceOption.map (·.catalog.catalogId)).Sublist (rows.map (·.catalogId)) := by
    intro rows plans hrows
    induction hrows with
    | nil => exact .slnil
    | @cons row o rows plans hrow _ ih =>
        cases o with
        | none =>
            rw [List.reduceOption_cons_of_none]
            exact ih.cons _
        | some p =>
            rw [List.reduceOption_cons_of_some, List.map_cons, List.map_cons, catalog_of_planItem hrow]
            exact ih.cons_cons _
  exact (hsub hplans).nodup (((List.perm_insertionSort _ _).map _).nodup_iff.2 hcatalog)

theorem status_eq_generated {s : ItemStatus} : status s = .generated ↔ s = .generated := by
  cases s <;> simp [status]

/-- A planned item settles as its plan says; a new one has no files. -/
theorem settled_of_left {before after : Option (ℕ × ChecklistItem)} {row : CatalogSpec}
    (htally : ∀ id ≥ items.length, c.tally id = {})
    (h : planItem c.str c.lower c.facts (before.map (itemState c)) row = .ok (some p))
    (hleft : Left c items.length p before after) :
    ∃ id item, after = some (id, item) ∧
      Settled p (before.map (itemState c)) (itemState c (id, item)) ∧
      (p.action ≠ .makeDormant → item.status = status p.derivedStatus) := by
  rcases hleft with ⟨rfl, haction, id, hid, rfl⟩ | ⟨id, item, rfl, hne, rfl⟩
  · refine ⟨id, fresh c p, rfl, ⟨⟨?_, ?_, ?_, rfl⟩, fun _ => ?_, ?_⟩, fun _ => rfl⟩
    · simp [itemState, htally id hid, countOf]
    · simp [itemState, htally id hid, countOf]
    · simp [itemState, htally id hid, countOf]
    · simp [itemState, fresh, status_eq_generated]
    · simp [itemState, fresh, haction]
  · have htally : SameTally ((some (id, item)).map (itemState c))
        (some (itemState c (id, revise p item))) := by
      refine ⟨rfl, rfl, rfl, ?_⟩
      simp [itemState, revise_waiver]
    have hstatus : p.action ≠ .makeDormant → (revise p item).status = status p.derivedStatus :=
      revise_status hne
    refine ⟨id, revise p item, rfl, ⟨htally, fun hput => ?_, ?_⟩, hstatus⟩
    · rw [← status_eq_generated, ← hstatus hput]
      exact decide_eq_true_iff
    · cases haction : p.action with
      | create => exact absurd haction hne
      | makeDormant => simp [itemState, revise, haction]
      | restore => simp [itemState, revise, haction]
      | keep =>
          have hlive : item.deleted = false := live_of_keep h haction
          simp [itemState, revise, haction, hlive]

/-- An item that its plan keeps as it is. -/
def Still (c : Context) (items : List ChecklistItem) (p : ItemPlan) : Prop :=
  p.action = .keep ∧ ∃ id item, item? c items p.catalog.catalogId = some (id, item) ∧
    item.status = status p.derivedStatus

theorem applyPlan_still (h : Still c items p) : applyPlan c items p = items := by
  obtain ⟨haction, id, item, hat, hstatus⟩ := h
  obtain ⟨hrow, -⟩ := mem_of_rowAt hat
  unfold applyPlan
  rw [if_neg (by simp [haction]), hat]
  dsimp only
  have hself : revise p item = item := by
    unfold revise
    rw [haction, ← hstatus]
  rw [modify_congr_self hrow, hself, modify_const_self hrow]

theorem foldl_still (h : ∀ p ∈ plan, Still c items p) : plan.foldl (applyPlan c) items = items := by
  induction plan with
  | nil => rfl
  | cons p plan ih =>
      rw [List.foldl_cons, applyPlan_still (h p (List.mem_cons_self ..))]
      exact ih fun q hq => h q (List.mem_cons_of_mem _ hq)

/-! ## The second refresh -/

/-- The engine cannot read the row's rule. -/
def Unreadable (facts : Checklist.Facts) (row : CatalogSpec) : Prop :=
  ∃ o, evaluateRequiredRule row.requiredRule facts = .ok o ∧ o.unparseable = true

/-- The ids of the catalog are a primary key, a claim has one item for a catalog row, and an item that
is not in the table has no files. -/
structure Stored (c : Context) (items : List ChecklistItem) : Prop where
  catalog : ((catalog c).map (·.catalogId)).Nodup
  unique : Unique ChecklistItem.key items
  tally : ∀ id ≥ items.length, c.tally id = {}

section

variable {row : CatalogSpec}

theorem unreadable_iff {str : Json → String} {lower : String → String} {facts : Checklist.Facts}
    {state : Option ItemState} (h : planItem str lower facts state row = .ok (some p)) :
    p.unparseableRule = true ↔ Unreadable facts row := by
  obtain ⟨o, ho, hrest⟩ := planItem_eq_ok.1 h
  split_ifs at hrest
  obtain ⟨checks, -, hp⟩ := hrest
  cases hp
  constructor
  · exact fun hunread => ⟨o, ho, hunread⟩
  · rintro ⟨o', ho', hunread⟩
    obtain rfl : o = o' := Except.ok.inj (ho.symm.trans ho')
    exact hunread

theorem readies (h : build c items = .ok plan) :
    ∀ p ∈ plan, Ready (item? c items p.catalog.catalogId) p := by
  intro p hp
  obtain ⟨row, -, hplan⟩ := (mem_build h).1 hp
  rw [catalog_of_planItem hplan]
  exact ready_of_planItem hplan

/-- A row without a plan keeps its item. -/
theorem item?_of_skipped (hstored : Stored c items) (h : build c items = .ok plan)
    (hrow : row ∈ catalog c)
    (hskip : planItem c.str c.lower c.facts ((item? c items row.catalogId).map (itemState c)) row =
      .ok none) :
    item? c (plan.foldl (applyPlan c) items) row.catalogId = item? c items row.catalogId := by
  obtain ⟨-, hother, -⟩ := foldl_applyPlan hstored.unique (keys_build hstored.catalog h) (readies h)
  refine hother _ fun hmem => ?_
  obtain ⟨p, hp, hkey⟩ := List.mem_map.1 hmem
  obtain ⟨row', hrow', hplan⟩ := (mem_build h).1 hp
  rw [catalog_of_planItem hplan] at hkey
  obtain rfl := List.inj_on_of_nodup_map hstored.catalog hrow' hrow hkey
  rw [hskip] at hplan
  cases hplan

/-- A row with a plan has an item that settles as the plan says. -/
theorem settled_of_planned (hstored : Stored c items) (h : build c items = .ok plan)
    (hrow : row ∈ catalog c)
    (hplan : planItem c.str c.lower c.facts ((item? c items row.catalogId).map (itemState c)) row =
      .ok (some p)) :
    ∃ id item, item? c (plan.foldl (applyPlan c) items) row.catalogId = some (id, item) ∧
      Settled p ((item? c items row.catalogId).map (itemState c)) (itemState c (id, item)) ∧
      (p.action ≠ .makeDormant → item.status = status p.derivedStatus) := by
  obtain ⟨-, -, hleft⟩ := foldl_applyPlan hstored.unique (keys_build hstored.catalog h) (readies h)
  have hp := hleft p ((mem_build h).2 ⟨row, hrow, hplan⟩)
  rw [catalog_of_planItem hplan] at hp
  exact settled_of_left hstored.tally hplan hp

/-- The row is planned again: not at all, or its item is kept as it is. -/
theorem planned_again (hstored : Stored c items) (h : build c items = .ok plan)
    (hread : ∀ row ∈ catalog c, Unreadable c.facts row → item? c items row.catalogId ≠ none)
    (hrow : row ∈ catalog c) :
    ∃ o, planItem c.str c.lower c.facts
      ((item? c (plan.foldl (applyPlan c) items) row.catalogId).map (itemState c)) row = .ok o ∧
        ∀ p ∈ o, Still c (plan.foldl (applyPlan c) items) p := by
  obtain ⟨o, ho⟩ := (returns_planItem _ _).2 (returns_build.1 ⟨plan, h⟩ row hrow)
  cases o with
  | none =>
      rw [item?_of_skipped hstored h hrow ho]
      exact ⟨none, ho, by simp⟩
  | some p =>
      obtain ⟨id, item, hitem, hsettled, hstatus⟩ := settled_of_planned hstored h hrow ho
      have hhas : p.unparseableRule = true → (item? c items row.catalogId).map (itemState c) ≠ none := by
        intro hunread hnone
        exact hread row hrow ((unreadable_iff ho).1 hunread) (Option.map_eq_none_iff.1 hnone)
      rw [hitem]
      rcases planItem_again ho hsettled hhas with ⟨-, hnone⟩ | ⟨hput, p', hp', hkeep, hderived⟩
      · exact ⟨none, hnone, by simp⟩
      · refine ⟨some p', hp', ?_⟩
        simp only [Option.mem_some_iff, forall_eq']
        refine ⟨hkeep, id, item, ?_, ?_⟩
        · rw [catalog_of_planItem hp', hitem]
        · rw [hderived, hstatus hput]

end

theorem refreshChecklist_eq_ok {items' : List ChecklistItem} {view : ChecklistView} :
    refreshChecklist c items = .ok (items', view) ↔ ∃ plan, build c items = .ok plan ∧
      items' = plan.foldl (applyPlan c) items ∧ checklistView c items' = .ok view := by
  unfold refreshChecklist
  simp only [bind_eq_ok, pure_eq_ok, Prod.mk.injEq]
  constructor
  · rintro ⟨plan, hplan, view', hview, rfl, rfl⟩
    exact ⟨plan, hplan, rfl, hview⟩
  · rintro ⟨plan, hplan, rfl, hview⟩
    exact ⟨plan, hplan, view, hview, rfl, rfl⟩

/-- An item created for an unreadable rule does not outlast the next refresh. -/
theorem refresh_moves_unreadable {items' : List ChecklistItem} {plan' : List ItemPlan}
    {row : CatalogSpec} (hstored : Stored c items) (h : build c items = .ok plan)
    (hitems' : items' = plan.foldl (applyPlan c) items) (h' : build c items' = .ok plan')
    (hrow : row ∈ catalog c) (hread : Unreadable c.facts row)
    (hnone : item? c items row.catalogId = none) : plan'.foldl (applyPlan c) items' ≠ items' := by
  obtain ⟨o, ho⟩ := (returns_planItem _ _).2 (returns_build.1 ⟨plan, h⟩ row hrow)
  have hplanned : o ≠ none := by
    rintro rfl
    obtain ⟨outcome, houtcome, hunread⟩ := hread
    rw [hnone] at ho
    obtain ⟨outcome', houtcome', hrest⟩ := planItem_eq_ok.1 ho
    obtain rfl : outcome = outcome' := Except.ok.inj (houtcome.symm.trans houtcome')
    rw [if_neg (by simp [skipped, hunread])] at hrest
    obtain ⟨checks, -, hp⟩ := hrest
    cases hp
  obtain ⟨p, rfl⟩ := Option.ne_none_iff_exists'.1 hplanned
  obtain ⟨id, item, hitem, hsettled, -⟩ := settled_of_planned hstored h hrow ho
  rw [← hitems'] at hitem
  rw [hnone] at hsettled ho
  obtain ⟨hcreate, p', hp', hput⟩ := planItem_withdrawn ho hsettled ((unreadable_iff ho).2 hread)
  have hlive : item.deleted = false := by
    rw [← Bool.not_eq_true]
    intro hdeleted
    rw [hsettled.dormant.1 hdeleted] at hcreate
    cases hcreate
  have hu' : Unique ChecklistItem.key items' := by
    rw [hitems']
    exact (foldl_applyPlan hstored.unique (keys_build hstored.catalog h) (readies h)).1
  obtain ⟨-, -, hleft⟩ := foldl_applyPlan hu' (keys_build hstored.catalog h') (readies h')
  have hmem : p' ∈ plan' := (mem_build h').2 ⟨row, hrow, by rw [hitem]; exact hp'⟩
  have hp := hleft p' hmem
  rw [catalog_of_planItem hp', hitem] at hp
  intro hsame
  rw [hsame, hitem] at hp
  rcases hp with ⟨hno, -⟩ | ⟨id', item', hbefore, -, hafter⟩
  · cases hno
  · cases hbefore
    have hdeleted : item = revise p' item := (Prod.mk.inj (Option.some.inj hafter)).2
    rw [hdeleted] at hlive
    simp [revise, hput] at hlive

/-- A second refresh leaves the items as they are and shows the same packet exactly when evaluation
can take every row of the catalog and no row with an unreadable rule is without an item: such a row
is given an item first, which is put away the next time. -/
theorem refreshChecklist_idempotent_iff (hstored : Stored c items) :
    (∃ items' view, refreshChecklist c items = .ok (items', view) ∧
      refreshChecklist c items' = .ok (items', view)) ↔
    (∀ row ∈ catalog c, row.Calm c.facts ((item? c items row.catalogId).map (itemState c))) ∧
      ∀ row ∈ catalog c, Unreadable c.facts row → item? c items row.catalogId ≠ none := by
  constructor
  · rintro ⟨items', view, hfirst, hsecond⟩
    obtain ⟨plan, hplan, hitems', -⟩ := refreshChecklist_eq_ok.1 hfirst
    obtain ⟨plan', hplan', hsame, -⟩ := refreshChecklist_eq_ok.1 hsecond
    refine ⟨returns_build.1 ⟨plan, hplan⟩, fun row hrow hread hnone => ?_⟩
    exact refresh_moves_unreadable hstored hplan hitems' hplan' hrow hread hnone hsame.symm
  · rintro ⟨hcalm, hread⟩
    obtain ⟨plan, hplan⟩ := returns_build.2 hcalm
    have hagain := fun row (hrow : row ∈ catalog c) => planned_again hstored hplan hread hrow
    obtain ⟨plan', hplan'⟩ : Returns (build c (plan.foldl (applyPlan c) items)) := by
      refine returns_build.2 fun row hrow => ?_
      obtain ⟨o, ho, -⟩ := hagain row hrow
      exact (returns_planItem _ _).1 ⟨o, ho⟩
    have hstill : ∀ p ∈ plan', Still c (plan.foldl (applyPlan c) items) p := by
      intro p hp
      obtain ⟨row, hrow, hplanned⟩ := (mem_build hplan').1 hp
      obtain ⟨o, ho, hstill⟩ := hagain row hrow
      rw [hplanned] at ho
      cases ho
      exact hstill p rfl
    obtain ⟨view, hview⟩ : Returns (checklistView c (plan.foldl (applyPlan c) items)) := by
      unfold checklistView
      rw [hplan']
      simp
    exact ⟨_, view, refreshChecklist_eq_ok.2 ⟨plan, hplan, rfl, hview⟩,
      refreshChecklist_eq_ok.2 ⟨plan', hplan', (foldl_still hstill).symm, hview⟩⟩

end

/-- A claim whose catalog asks for a ticket. -/
def ticketClaim : Context :=
  { claimId := 0, kind := .liquidation, records := [{ spec := ticket }], facts := [] }

theorem stored_nil {c : Context} (h : ((catalog c).map (·.catalogId)).Nodup)
    (htally : ∀ id, c.tally id = {}) : Stored c [] :=
  ⟨h, List.nodup_nil, fun id _ => htally id⟩

theorem ticketClaim_idempotent :
    ∃ items' view, refreshChecklist ticketClaim [] = .ok (items', view) ∧
      refreshChecklist ticketClaim items' = .ok (items', view) := by
  refine (refreshChecklist_idempotent_iff (stored_nil (by decide) fun _ => rfl)).2 ⟨?_, ?_⟩
  · intro row hrow
    obtain rfl := List.mem_singleton.1 hrow
    exact ⟨List.forall_mem_nil _, fun o _ _ => List.forall_mem_nil _⟩
  · rintro row hrow ⟨o, ho, hunread⟩
    obtain rfl := List.mem_singleton.1 hrow
    cases ho
    cases hunread

/-- A row whose rule has no known operator. -/
def typoClaim : Context :=
  { ticketClaim with
    records := [{ spec := { ticket with requiredRule := .obj [("iff", .bool true)] } }] }

/-- The item is created, then put away. -/
theorem typoClaim_moves :
    ¬ ∃ items' view, refreshChecklist typoClaim [] = .ok (items', view) ∧
      refreshChecklist typoClaim items' = .ok (items', view) := by
  rintro ⟨items', view, hfirst, hsecond⟩
  obtain ⟨plan, hplan, hitems', -⟩ := refreshChecklist_eq_ok.1 hfirst
  obtain ⟨plan', hplan', hsame, -⟩ := refreshChecklist_eq_ok.1 hsecond
  have hunread : Unreadable typoClaim.facts
      { ticket with requiredRule := .obj [("iff", .bool true)] } := ⟨unparseable, rfl, rfl⟩
  exact refresh_moves_unreadable (stored_nil (by decide) fun _ => rfl) hplan hitems' hplan'
    (List.mem_singleton_self _) hunread rfl hsame.symm

end OfficeConnect.Packet
