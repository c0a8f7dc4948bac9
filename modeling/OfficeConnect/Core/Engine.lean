import OfficeConnect.Core.Checks

/-!
# Planning a checklist

The engine reconciles a catalog with the items a subject already has: one plan for every row that
applies or holds something, with the action to take on its item.  The packet's status folds the plans
into the progress line, the blocking rows, the flags and the rows whose rule cannot be read.
-/

namespace OfficeConnect.Checklist

open Ingest Lib

/-! ## Rows and items -/

structure CatalogSpec where
  catalogId : ℕ
  code : String
  label : String
  group : String
  evidence : String
  requiredRule : Json := .null
  autoChecks : Json := .null
  sort : ℤ := 0
  circularVersion : Option String := none

/-- An item with its tally of evidence. -/
structure ItemState where
  itemId : ℕ
  catalogId : ℕ
  evidenceCount : Printable := ⟨0, printable_zero⟩
  evidencePending : Printable := ⟨0, printable_zero⟩
  evidenceInfected : Printable := ⟨0, printable_zero⟩
  generated : Bool := false
  waived : Bool := false
  dormant : Bool := false

/-- Would deleting this row destroy work someone did? -/
def ItemState.holdsSomething (s : ItemState) : Bool := s.evidenceCount.1 ≠ 0 ∨ s.waived ∨ s.generated

inductive PlanAction where
  | create | keep | restore | makeDormant
deriving DecidableEq, Repr

inductive EvidenceState where
  | missing | attached | generated | waived
deriving DecidableEq, Repr

inductive ItemStatus where
  | missing | attached | generated | autoPassed | autoFlagged | waived
deriving DecidableEq, Repr

structure ItemPlan where
  catalog : CatalogSpec
  itemId : Option ℕ
  action : PlanAction
  required : Bool
  ruleReason : RuleReason
  unparseableRule : Bool
  evidenceState : EvidenceState
  derivedStatus : ItemStatus
  checks : List CheckResult

/-! ## The plan of a row -/

/-- A waiver outranks a generated document, which outranks an upload, which outranks the verdict
that only describes the upload. -/
def derive (spec : CatalogSpec) (state : Option ItemState) (checks : List CheckResult) :
    EvidenceState × ItemStatus :=
  let flagged := checks.any (·.isFlagged)
  let passed := checks.any (·.outcome = .passed)
  if state.any (·.waived) then (.waived, .waived)
  else if state.any (·.generated) then (.generated, .generated)
  else if spec.evidence = "data_only" then (.attached, if flagged then .autoFlagged else .autoPassed)
  else if state.any (0 < ·.evidenceCount.1) then
    (.attached, if flagged then .autoFlagged else if passed then .autoPassed else .attached)
  else (.missing, .missing)

/-- Without an item there is no evidence. -/
def countOf (f : ItemState → Printable) (state : Option ItemState) : Printable :=
  (state.map f).getD ⟨0, printable_zero⟩

/-- An item's tally as the checks see it. -/
def itemFields (state : Option ItemState) : Fields :=
  [("evidence_count", .int (countOf (·.evidenceCount) state)),
    ("evidence_pending", .int (countOf (·.evidencePending) state)),
    ("evidence_infected", .int (countOf (·.evidenceInfected) state)),
    ("waived", .bool (state.any (·.waived))),
    ("generated", .bool (state.any (·.generated)))]

/-- The facts with the item's tally laid over them. -/
def itemFacts (facts : Facts) (state : Option ItemState) : Facts :=
  ("item", .obj (itemFields state)) :: facts.filter (·.1 ≠ "item")

/-- The item filed under a catalog id, the last one listed. -/
def itemOf (existing : List ItemState) (catalogId : ℕ) : Option ItemState :=
  (existing.filter (·.catalogId = catalogId)).getLast?

/-- A rule that does not apply and has no live item leaves no plan; an unreadable one always does,
unless its item is put away. -/
def skipped (outcome : RuleOutcome) (state : Option ItemState) : Bool :=
  if ¬ outcome.required ∧ ¬ outcome.unparseable then state.all (·.dormant)
  else outcome.unparseable ∧ state.any (·.dormant)

def planAction (applies : Bool) : Option ItemState → PlanAction
  | none => .create
  | some state =>
      if applies ∧ state.dormant then .restore
      else if applies then .keep
      else if state.holdsSomething then .keep
      else .makeDormant

/-- The plan of a row that is not skipped. -/
def planOf (spec : CatalogSpec) (state : Option ItemState) (outcome : RuleOutcome)
    (checks : List CheckResult) : ItemPlan :=
  { catalog := spec
    itemId := state.map (·.itemId)
    action := planAction outcome.required state
    required := outcome.required
    ruleReason := outcome.reason
    unparseableRule := outcome.unparseable
    evidenceState := (derive spec state checks).1
    derivedStatus := (derive spec state checks).2
    checks := checks }

section

variable (str : Json → String) (lower : String → String)

def planItem (facts : Facts) (state : Option ItemState) (spec : CatalogSpec) :
    Except Fault (Option ItemPlan) := do
  let outcome ← evaluateRequiredRule spec.requiredRule facts
  if skipped outcome state then return none
  else
    let checks ← runAutoChecks str lower spec.autoChecks (itemFacts facts state)
    return some (planOf spec state outcome checks)

/-- `key=lambda row: (row.sort, row.code)`. -/
def CatalogSpec.le (a b : CatalogSpec) : Prop := a.sort < b.sort ∨ a.sort = b.sort ∧ a.code ≤ b.code

instance : DecidableRel CatalogSpec.le := fun a b =>
  inferInstanceAs (Decidable (a.sort < b.sort ∨ a.sort = b.sort ∧ a.code ≤ b.code))

def planChecklist (catalog : List CatalogSpec) (existing : List ItemState) (facts : Facts) :
    Except Fault (List ItemPlan) := do
  let plans ← (catalog.insertionSort CatalogSpec.le).mapM fun spec =>
    planItem str lower facts (itemOf existing spec.catalogId) spec
  return plans.reduceOption

end

/-! ## The packet's status -/

/-- The kinds of evidence a human must supply. -/
def blockingEvidence : List String := ["upload", "external_wet_sign"]

structure BlockingItem where
  catalogId : ℕ
  itemId : Option ℕ
  code : String
  label : String
  group : String
  evidence : String
deriving DecidableEq, Repr

structure PacketStatus where
  requiredTotal : ℤ
  requiredDone : ℤ
  blocking : List BlockingItem
  flags : List (ℕ × CheckResult)
  unparseable : List ℕ
deriving DecidableEq, Repr

def PacketStatus.complete (s : PacketStatus) : Prop := s.blocking = []

instance (s : PacketStatus) : Decidable s.complete := inferInstanceAs (Decidable (_ = _))

def ItemPlan.blockingItem (p : ItemPlan) : BlockingItem :=
  { catalogId := p.catalog.catalogId
    itemId := p.itemId
    code := p.catalog.code
    label := p.catalog.label
    group := p.catalog.group
    evidence := p.catalog.evidence }

def packetStatus (plan : List ItemPlan) (kinds : List String := blockingEvidence) : PacketStatus :=
  let countable := plan.filter fun p => p.required ∧ p.catalog.evidence ∈ kinds
  let blocking := (countable.filter (·.evidenceState = .missing)).map ItemPlan.blockingItem
  { requiredTotal := countable.length
    requiredDone := countable.length - blocking.length
    blocking := blocking
    flags := plan.flatMap fun p => (p.checks.filter (·.isFlagged)).map (p.catalog.catalogId, ·)
    unparseable := (plan.filter (·.unparseableRule)).map (·.catalog.catalogId) }

end OfficeConnect.Checklist
