import OfficeConnect.Reimbursement.Chains
import OfficeConnect.Reimbursement.PerDiem

/-!
# The reimbursement store

The module's tables, each a list of rows in insertion order, so that the id of a row is its
position.  Rows that only a later phase or a screen reads are left out.  What a call reads beside
the store is its `Env`: the directory, the feature flag, the seeded reference data, the evidence
counted on each checklist item, and the clock.
-/

namespace OfficeConnect.Reimbursement

open Lib Workflow

/-! ## Claims and legs -/

inductive FundSource where
  | gfOrs | tfBur
deriving DecidableEq, Repr

inductive HolderKind where
  | user | externalFms
deriving DecidableEq, Repr

/-- The trip a claim describes; everything a traveller edits beside the legs. -/
structure Trip where
  activityId : Option ℕ := none
  dpoNo : Option String := none
  dpoDate : Option Day := none
  dpoDocumentId : Option ℕ := none
  purpose : Option String := none
  destination : Option String := none
  destinationRegionCode : Option String := none
  dateDepart : Option Day := none
  dateReturn : Option Day := none
  isWithin50km : Bool := false
  overnightStay : Bool := false
  fundSource : Option FundSource := none
  otherTotal : ℤ := 0
deriving DecidableEq, Repr

/-- The computed snapshot, in centavos. -/
structure Totals where
  perDiem : ℤ
  transport : ℤ
  other : ℤ
  grand : ℤ
  advance : ℤ
  toReimburse : ℤ
  toRefund : ℤ
  computedAt : Time
  days : List DayBreakdown
deriving DecidableEq, Repr

/-- `totals` is `none` when the column holds the empty object. -/
structure Claim where
  kind : Kind
  claimantId : ℕ
  isJoCos : Bool := false
  status : Status := .draft
  holderKind : Option HolderKind := none
  holderId : Option ℕ := none
  holderSince : Option Time := none
  nextAction : Option String := none
  refNo : Option String := none
  workflowInstanceId : Option ℕ := none
  cashAdvanceId : Option ℕ := none
  spawnedFromClaimId : Option ℕ := none
  liquidationDeadline : Option Day := none
  trip : Trip := {}
  totals : Option Totals := none
  payoutRef : Option String := none
  paidOn : Option Day := none
  paidBy : Option ℕ := none
deriving DecidableEq, Repr

/-- The leg columns a traveller supplies. -/
structure LegInputs where
  legDate : Option Day := none
  place : Option String := none
  destinationRegionCode : Option String := none
  timeDepart : Option String := none
  timeArrive : Option String := none
  transportMode : Option TransportMode := none
  fare : Option ℤ := none
  lodgingProvided : Bool := false
  mealsProvided : Bool := false
deriving DecidableEq, Repr

structure Leg where
  claimId : ℕ
  seq : ℤ
  inputs : LegInputs
  perDiemPct : Option ℤ := none
  perDiemAmount : Option ℤ := none
  legTotal : Option ℤ := none
  deleted : Bool := false
deriving DecidableEq, Repr

/-! ## Cash advances -/

inductive AdvanceStatus where
  | opened | liquidationStarted | settled | overdue
deriving DecidableEq, Repr

inductive SettlementMode where
  | refund | exactMatch | overAdvance
deriving DecidableEq, Repr

def SettlementMode.text : SettlementMode → String
  | refund => "refund"
  | exactMatch => "exact"
  | overAdvance => "over_advance"

inductive Basis where
  | calendar | working
deriving DecidableEq, Repr

structure CashAdvance where
  claimantId : ℕ
  dvNo : Option String := none
  dvDate : Option Day := none
  amount : ℤ
  dpoNo : Option String := none
  dateReturn : Option Day := none
  deadlineDate : Option Day := none
  deadlineBasis : Option Basis := none
  status : AdvanceStatus := .opened
  settledAt : Option Time := none
  settledBy : Option ℕ := none
  settlementMode : Option SettlementMode := none
  refundOrNo : Option String := none
  refundOrDate : Option Day := none
  refundAmount : Option ℤ := none
deriving DecidableEq, Repr

/-! ## Checklist items and logs -/

inductive ItemStatus where
  | missing | attached | generated | autoPassed | autoFlagged | waived
deriving DecidableEq, Repr

structure ChecklistItem where
  claimId : ℕ
  catalogId : ℕ
  status : ItemStatus
  circularVersion : Option String := none
  waiverReason : Option String := none
  deleted : Bool := false
deriving DecidableEq, Repr

structure StatusHistory where
  claimId : ℕ
  fromStatus : Option Status
  toStatus : Status
  actorId : Option ℕ
  note : Option String := none
deriving DecidableEq, Repr

inductive ReturnTarget where
  | claimant | previousStep
deriving DecidableEq, Repr

structure ReturnEvent where
  claimId : ℕ
  stepId : Option ℕ
  reasonIds : List ℕ
  freeComment : Option String
  returnedTo : ReturnTarget
deriving DecidableEq, Repr

inductive ExternalStatus where
  | withBudget | withAccounting | paymentProcessing | paid
deriving DecidableEq, Repr

structure ExternalEvent where
  claimId : ℕ
  status : ExternalStatus
  notedBy : Option String
  note : Option String
  eventDate : Option Day
  createdBy : ℕ
deriving DecidableEq, Repr

/-- The last number issued in a `(scope, year)` series. -/
structure ReferenceSequence where
  scope : String
  year : ℤ
  lastValue : ℕ
deriving DecidableEq, Repr

structure Store where
  claims : List Claim := []
  legs : List Leg := []
  advances : List CashAdvance := []
  instances : List Instance := []
  items : List ChecklistItem := []
  history : List StatusHistory := []
  returnEvents : List ReturnEvent := []
  externalEvents : List ExternalEvent := []
  sequences : List ReferenceSequence := []
deriving DecidableEq, Repr

/-! ## The facts a catalog rule reads -/

structure LegFacts where
  seq : ℤ
  legDate : Option Day
  place : Option String
  destinationRegionCode : Option String
  transportMode : Option TransportMode
  fare : Option ℤ
deriving DecidableEq, Repr

structure Facts where
  kind : Kind
  isJoCos : Bool
  fundSource : Option FundSource
  isWithin50km : Bool
  overnightStay : Bool
  activityId : Option ℕ
  purpose : Option String
  destination : Option String
  destinationRegionCode : Option String
  transportModes : List TransportMode
  fare : List ℤ
  legs : List LegFacts
  dateDepart : Option Day
  dateReturn : Option Day
  totals : Option Totals
  otherTotal : ℤ
  config : String → Option ConfigRow
  liquidationDeadline : Option Day
  today : Day

/-- The tally of one checklist item: files that count, those still being scanned, those infected. -/
structure EvidenceCount where
  usable : ℕ := 0
  pending : ℕ := 0
  infected : ℕ := 0
deriving DecidableEq, Repr

structure ItemFacts where
  evidence : EvidenceCount
  waived : Bool
  generated : Bool
deriving DecidableEq, Repr

structure RuleOutcome where
  required : Bool
  unparseable : Bool := false
deriving DecidableEq, Repr

inductive CheckOutcome where
  | passed | flagged | skipped
deriving DecidableEq, Repr

inductive Evidence where
  | upload | generatedDoc | externalWetSign | dataOnly
deriving DecidableEq, Repr

/-- The enum value with its underscores spaced. -/
def Evidence.label : Evidence → String
  | upload => "upload"
  | generatedDoc => "generated doc"
  | externalWetSign => "external wet sign"
  | dataOnly => "data only"

/-- The groups in the order the circular lists them. -/
inductive ChecklistGroup where
  | authority | itinerary | proofOfTravel | transport | lodgingMeals | report | financial
deriving DecidableEq, Repr

/-- A documentary requirement.  Its two JSON columns are the functions the rule grammar and the
check runner make of them. -/
structure CatalogRow where
  id : ℕ
  claimKind : Option Kind := none
  code : String
  label : String
  group : ChecklistGroup := .financial
  evidence : Evidence
  requiredRule : Facts → RuleOutcome
  autoChecks : Facts → ItemFacts → List CheckOutcome := fun _ _ => []
  sort : ℤ := 0
  circularVersion : Option String := none
  isActive : Bool := true

/-! ## What a call reads -/

structure ReturnReason where
  id : ℕ
  isActive : Bool := true
deriving DecidableEq, Repr

structure Env where
  directory : Directory := {}
  enabled : Bool := true
  regions : List RegionRow := []
  rates : List RateRow := []
  storedRates : ∀ row ∈ rates, Storable row.dailyRate := by decide
  configs : List ConfigRow := []
  holidays : List Holiday := []
  returnReasons : List ReturnReason := []
  activities : List ℕ := []
  catalog : List CatalogRow := []
  evidenceCounts : ℕ → EvidenceCount := fun _ => {}

def Env.utcNow (env : Env) : Time := env.directory.utcNow

/-- `now or utc_now()`. -/
def Env.at (env : Env) (now : Option Time) : Time := now.getD env.utcNow

/-! ## Writing claims -/

def claimNotFound : Raised := .api 404 "reimb_claim_not_found" "Claim not found."

/-- The claim row under its lock. -/
def lockedClaim (σ : Store) (claimId : ℕ) : Except Raised Claim :=
  found σ.claims[claimId]? claimNotFound

def Store.setClaim (σ : Store) (claimId : ℕ) (f : Claim → Claim) : Store :=
  { σ with claims := σ.claims.modify claimId f }

def Store.setInstance (σ : Store) (instanceId : ℕ) (f : Instance → Instance) : Store :=
  { σ with instances := σ.instances.modify instanceId f }

def Store.setAdvance (σ : Store) (advanceId : ℕ) (f : CashAdvance → CashAdvance) : Store :=
  { σ with advances := σ.advances.modify advanceId f }

def spawnIndex : String := "uq_reimb_claims_spawn_per_liquidation"

def liquidationIndex : String := "uq_reimb_claims_live_liquidation_per_advance"

/-- The advance a live liquidation occupies. -/
def Claim.liveLiquidation (c : Claim) : Option ℕ :=
  if c.kind = .liquidation ∧ c.status ≠ .cancelled then c.cashAdvanceId else none

/-- The liquidation a live spawn occupies. -/
def Claim.liveSpawn (c : Claim) : Option ℕ :=
  if c.status ≠ .cancelled then c.spawnedFromClaimId else none

/-- The unique indexes of `reimb_claims`, checked when the rows are flushed. -/
def flushClaims (σ : Store) : Except Raised Store := do
  refuse (¬ (σ.claims.filterMap (·.refNo)).Nodup) (.integrityError "uq_reimb_claims_ref_no")
  refuse (¬ (σ.claims.filterMap (·.workflowInstanceId)).Nodup)
    (.integrityError "uq_reimb_claims_workflow_instance_id")
  refuse (¬ (σ.claims.filterMap Claim.liveSpawn).Nodup) (.integrityError spawnIndex)
  refuse (¬ (σ.claims.filterMap Claim.liveLiquidation).Nodup) (.integrityError liquidationIndex)
  return σ

/-- Re-raise a violation of one index as a named refusal. -/
def onConflict {α : Type} (index : String) (e : Raised) (x : Except Raised α) : Except Raised α :=
  match x with
  | .error (.integrityError i) => .error (if i = index then e else .integrityError i)
  | _ => x

/-- The live legs of a claim with their ids, `ORDER BY seq, id`. -/
def Store.claimLegs (σ : Store) (claimId : ℕ) : List (ℕ × Leg) :=
  ((σ.legs.zipIdx.map Prod.swap).filter fun l => l.2.claimId = claimId ∧ ¬ l.2.deleted).insertionSort
    fun a b => a.2.seq < b.2.seq ∨ a.2.seq = b.2.seq ∧ a.1 ≤ b.1

end OfficeConnect.Reimbursement
