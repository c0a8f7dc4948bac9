import OfficeConnect.Core.Retention
import OfficeConnect.Core.Snapshots
import OfficeConnect.Reimbursement.Drafts

/-!
# What a form prints

The render context of a claim's documents, read off the claim's tables, its files and what the
letterhead knows.  The packet's context adds the forms with their content hashes, the checklist and
the manifest of the claimant's uploads.  A context is hashed without the two fields that a pass
itself puts there.
-/

namespace OfficeConnect.Reimbursement

open Lib Workflow

/-! ## Files -/

inductive Custody where
  | scanned | withAccounting | forwardedCoa
deriving DecidableEq, Repr

/-- The join of a claim with a file and the item the file is for. -/
structure ReimbAttachment where
  claimId : ℕ
  attachmentId : ℕ
  checklistItemId : Option ℕ
  custody : Custody := .scanned
  retentionClass : String
  createdAt : Time
  deleted : Bool := false
deriving DecidableEq, Repr

/-- The module's tables with the files and the document snapshots of the core. -/
structure Archive where
  store : Store := {}
  files : List Attachment := []
  joins : List ReimbAttachment := []
  snapshots : List DocumentSnapshot := []
deriving DecidableEq, Repr

/-- The live files joined to an item, with the ids of the join rows. -/
def Archive.filed (a : Archive) : List (ℕ × ReimbAttachment × Attachment) :=
  (a.joins.zipIdx.map Prod.swap).filterMap fun (id, join) =>
    (a.files[join.attachmentId]?).bind fun file =>
      if ¬ join.deleted ∧ ¬ file.deleted then some (id, join, file) else none

/-- The claimant's files on one item: uploads only. -/
def Archive.evidenceCounts (a : Archive) (itemId : ℕ) : EvidenceCount :=
  let files := (a.filed.filter fun f =>
    f.2.1.checklistItemId = some itemId ∧ f.2.2.origin = .uploaded).map (·.2.2)
  { usable := (files.filter (·.scanStatus ≠ .infected)).length
    pending := (files.filter (·.scanStatus = .pending)).length
    infected := (files.filter (·.scanStatus = .infected)).length }

/-- The environment as it counts the files of an archive. -/
def Env.counting (env : Env) (a : Archive) : Env := { env with evidenceCounts := a.evidenceCounts }

/-! ## The blocks of a context -/

structure DocBlock where
  key : String
  title : String
  formNo : Option String
  agency : String
  refNo : Option String
  isDraft : Bool
  generatedAt : Option Time
  contextVersion : ℕ
  fingerprint : Option String := none
deriving DecidableEq, Repr

structure ClaimBlock where
  id : ℕ
  refNo : Option String
  kind : Kind
  status : Status
  dpoNo : Option String
  dpoDate : Option Day
  purpose : Option String
  destination : Option String
  destinationRegionCode : Option String
  dateDepart : Option Day
  dateReturn : Option Day
  fundSource : Option FundSource
  isJoCos : Bool
  isWithin50km : Bool
  overnightStay : Bool
  liquidationDeadline : Option Day
deriving DecidableEq, Repr

structure ClaimantBlock where
  staffId : ℕ
  fullName : String := "—"
  employeeNo : Option String := none
  positionTitle : Option String := none
  employmentStatus : Option String := none
  division : Option String := none
  section_ : Option String := none
deriving DecidableEq, Repr

structure LegBlock where
  seq : ℤ
  inputs : LegInputs
  perDiemPct : Option ℤ
  perDiemAmount : Option ℤ
  legTotal : Option ℤ
deriving DecidableEq, Repr

structure AdvanceBlock where
  id : Option ℕ := none
  dvNo : Option String := none
  dvDate : Option Day := none
  amount : Option ℤ := none
  dateReturn : Option Day := none
  deadlineDate : Option Day := none
  status : Option AdvanceStatus := none
deriving DecidableEq, Repr

structure SettlementBlock where
  mode : Option SettlementMode := none
  orNo : Option String := none
  orDate : Option Day := none
  refundAmount : Option ℤ := none
  settledAt : Option Time := none
  spawnedClaimRef : Option String := none
deriving DecidableEq, Repr

structure Certification where
  name : Option String := none
  recordedAt : Option Time := none
  note : Option String := none
deriving DecidableEq, Repr

structure CertificationsBlock where
  a : Certification := {}
  b : Certification := {}
  c : Certification := {}
deriving DecidableEq, Repr

structure MoneyLabels where
  heading : String
  total : String
  refundable : String
  payable : String
deriving DecidableEq, Repr

structure TotalsBlock where
  perDiem : ℤ
  transport : ℤ
  other : ℤ
  grand : ℤ
  advance : ℤ
  toReimburse : ℤ
  toRefund : ℤ
  days : List DayBreakdown
deriving DecidableEq, Repr

structure SectionBlock where
  documentKey : String
  checklistCode : String
  title : String
  formNo : Option String
  contentSha256 : Option String
  body : Option String
deriving DecidableEq, Repr

structure ChecklistLine where
  code : String
  label : String
  group : ChecklistGroup
  groupLabel : String
  evidence : Evidence
  evidenceLabel : String
  required : Bool
  status : ItemStatus
  statusLabel : String
  flagged : Bool
  sort : ℤ
deriving DecidableEq, Repr

structure ManifestLine where
  code : String
  label : String
  groupLabel : String
  filename : String
  sizeLabel : String
  sha256 : String
  scanStatus : ScanStatus
  scanLabel : String
  custodyLabel : String
  usable : Bool
  uploadedAt : Time
deriving DecidableEq, Repr

structure PacketBlock where
  sections : List SectionBlock
  checklist : List ChecklistLine
  evidence : List ManifestLine
  requiredTotal : ℕ
  requiredDone : ℕ
  complete : Bool
deriving DecidableEq, Repr

/-- Every document has the blocks; the packet has its own beside them. -/
structure Context where
  doc : DocBlock
  claim : ClaimBlock
  claimant : ClaimantBlock
  legs : List LegBlock
  advance : AdvanceBlock
  settlement : SettlementBlock
  certifications : CertificationsBlock
  moneyLabels : MoneyLabels
  totals : TotalsBlock
  branding : String
  packet : Option PacketBlock := none
deriving DecidableEq, Repr

/-- The context as it is hashed, without what the pass puts there. -/
def comparableContext (context : Context) : Context :=
  { context with doc := { context.doc with generatedAt := none, fingerprint := none } }

/-! ## Reading a claim -/

/-- What a page prints that the module's tables do not hold: the agency, its branding, the claimants,
the names of actors, and the instant of each workflow event. -/
structure Letterhead where
  agency : String := ""
  branding : String := ""
  claimant : ℕ → ClaimantBlock := fun id => { staffId := id }
  actorName : ℕ → Option String := fun _ => none
  recordedAt : ℕ → ℕ → Option Time := fun _ _ => none

def totalsMissing : Raised :=
  .api 422 "reimb_totals_missing"
    ("The claim's amounts have not been worked out yet — complete the " ++
      "Money step, then the packet can be generated.")

def contextVersion : ℕ := 2

/-- Draft-ness follows from the claim. -/
def isDraftClaim (claim : Claim) : Bool :=
  claim.status = .draft ∨ claim.status = .returned ∨ claim.refNo = none

def moneyLabels : Kind → MoneyLabels
  | .reimbursement => {
      heading := "Amount claimed"
      total := "Total claim"
      refundable := "Amount refundable"
      payable := "Amount due the payee" }
  | .liquidation => {
      heading := "Settlement of the cash advance"
      total := "Total amount spent"
      refundable := "Excess cash advance — refundable"
      payable := "Amount reimbursable to the accountable officer" }

/-- The live legs, `ORDER BY seq`. -/
def legBlocks (σ : Store) (claimId : ℕ) : List LegBlock :=
  (σ.claimLegs claimId).map fun (_, leg) =>
    { seq := leg.seq
      inputs := leg.inputs
      perDiemPct := leg.perDiemPct
      perDiemAmount := leg.perDiemAmount
      legTotal := leg.legTotal }

/-- The advance a liquidation answers; a claim of the other kind prints empty blocks. -/
def answeredAdvance (σ : Store) (claim : Claim) : Option (ℕ × CashAdvance) :=
  if claim.kind = .liquidation then
    claim.cashAdvanceId.bind fun id => (σ.advances[id]?).map (id, ·)
  else none

def advanceBlock (σ : Store) (claim : Claim) : AdvanceBlock :=
  match answeredAdvance σ claim with
  | none => {}
  | some (id, row) =>
      { id := some id
        dvNo := row.dvNo
        dvDate := row.dvDate
        amount := some row.amount
        dateReturn := row.dateReturn
        deadlineDate := row.deadlineDate
        status := some row.status }

/-- The reference of the claim that was spawned for the difference, once it has one. -/
def spawnedClaimRef (σ : Store) (claimId : ℕ) : Option String :=
  (σ.claims.filter fun c =>
    c.spawnedFromClaimId = some claimId ∧ c.status ≠ .cancelled).findSome? (·.refNo)

def settlementBlock (σ : Store) (claimId : ℕ) (claim : Claim) : SettlementBlock :=
  match answeredAdvance σ claim with
  | none => {}
  | some (_, row) =>
      { mode := row.settlementMode
        orNo := row.refundOrNo
        orDate := row.refundOrDate
        refundAmount := row.refundAmount
        settledAt := row.settledAt
        spawnedClaimRef := spawnedClaimRef σ claimId }

/-- An event left a state under an approval. -/
def Event.certifies (e : Event) (status : Status) : Bool :=
  e.action = some .approve ∧ ((e.fromStateId.bind state?).map (·.code)) = some status

/-- The first submission certifies A; the last approval out of `certify_b` and of `certify_c`, the
other two. -/
def certificationsBlock (page : Letterhead) (σ : Store) (claim : Claim) : CertificationsBlock :=
  match claim.kind, claim.workflowInstanceId with
  | .liquidation, some instanceId =>
      let events := ((σ.instances[instanceId]?).map (·.events)).getD []
      let print (noted : Bool) (e : Event × ℕ) : Certification :=
        { name := e.1.actorUserId.bind page.actorName
          recordedAt := page.recordedAt instanceId e.2
          note := if noted then e.1.comment else none }
      let first := events.zipIdx.find? (·.1.action = some .submit)
      let last (status : Status) := events.zipIdx.reverse.find? (Event.certifies ·.1 status)
      { a := (first.map (print false)).getD {}
        b := ((last .certifyB).map (print false)).getD {}
        c := ((last .certifyC).map (print true)).getD {} }
  | _, _ => {}

/-- The context of one document; a claim without amounts is refused. -/
def buildDocumentContext (page : Letterhead) (σ : Store) (claimId : ℕ) (claim : Claim)
    (documentKey title : String) (formNo : Option String) (stamp : Time) :
    Except Raised Context := do
  let totals ← found claim.totals totalsMissing
  return {
    doc := {
      key := documentKey
      title := title
      formNo := formNo
      agency := page.agency
      refNo := claim.refNo
      isDraft := isDraftClaim claim
      generatedAt := some stamp
      contextVersion := contextVersion }
    claim := {
      id := claimId
      refNo := claim.refNo
      kind := claim.kind
      status := claim.status
      dpoNo := claim.trip.dpoNo
      dpoDate := claim.trip.dpoDate
      purpose := claim.trip.purpose
      destination := claim.trip.destination
      destinationRegionCode := claim.trip.destinationRegionCode
      dateDepart := claim.trip.dateDepart
      dateReturn := claim.trip.dateReturn
      fundSource := claim.trip.fundSource
      isJoCos := claim.isJoCos
      isWithin50km := claim.trip.isWithin50km
      overnightStay := claim.trip.overnightStay
      liquidationDeadline := claim.liquidationDeadline }
    claimant := page.claimant claim.claimantId
    legs := legBlocks σ claimId
    advance := advanceBlock σ claim
    settlement := settlementBlock σ claimId claim
    certifications := certificationsBlock page σ claim
    moneyLabels := moneyLabels claim.kind
    totals := {
      perDiem := totals.perDiem
      transport := totals.transport
      other := claim.trip.otherTotal
      grand := totals.grand
      advance := totals.advance
      toReimburse := totals.toReimburse
      toRefund := totals.toRefund
      days := totals.days }
    branding := page.branding }

/-! ## The packet -/

def ChecklistGroup.index : ChecklistGroup → ℕ
  | authority => 0
  | itinerary => 1
  | proofOfTravel => 2
  | transport => 3
  | lodgingMeals => 4
  | report => 5
  | financial => 6

def ChecklistGroup.label : ChecklistGroup → String
  | authority => "Authority to travel"
  | itinerary => "Itinerary"
  | proofOfTravel => "Proof of travel"
  | transport => "Transport"
  | lodgingMeals => "Lodging and meals"
  | report => "Report"
  | financial => "Financial"

def ItemStatus.label : ItemStatus → String
  | missing => "Not attached"
  | attached => "Attached"
  | generated => "Generated by the system"
  | autoPassed => "Checked"
  | autoFlagged => "Flagged for review"
  | waived => "Waived"

def Evidence.printLabel : Evidence → String
  | upload => "Attached by the claimant"
  | generatedDoc => "Generated by the system"
  | externalWetSign => "Signed by hand, then attached"
  | dataOnly => "Held as claim data — nothing to attach"

def scanLabel : ScanStatus → String
  | .pending => "Virus scan pending"
  | .clean => "Scanned"
  | .infected => "QUARANTINED — not usable"
  | .error => "Scan unavailable"

/-- The table knows the first custody only; the others print as the column has them. -/
def Custody.label : Custody → String
  | scanned => "Scanned copy on file"
  | withAccounting => "with_accounting"
  | forwardedCoa => "forwarded_coa"

/-- The quotient rounded to the nearest, halves to the even. -/
def roundedQuot (n d : ℕ) : ℕ :=
  if 2 * (n % d) < d ∨ 2 * (n % d) = d ∧ n / d % 2 = 0 then n / d else n / d + 1

def sizeLabel (byteSize : ℕ) : String :=
  if byteSize = 0 then "—"
  else if byteSize < 1024 then s!"{byteSize} B"
  else if byteSize < 1024 * 1024 then s!"{roundedQuot byteSize 1024} KB"
  else
    let tenths := roundedQuot (10 * byteSize) (1024 * 1024)
    s!"{tenths / 10}.{tenths % 10} MB"

/-- One generated form as it appears inside the packet. -/
structure PacketSection where
  documentKey : String
  checklistCode : String
  title : String
  formNo : Option String
  contentSha256 : Option String := none
deriving DecidableEq, Repr

/-- The partials the packet embeds; a code-side table. -/
def bodyPartials : List (String × String) := [
  ("reimb.iot45", "_iot45_body.html.j2"),
  ("reimb.ar01", "_ar01_body.html.j2"),
  ("reimb.dv32", "_dv32_body.html.j2"),
  ("reimb.lr44", "_lr44_body.html.j2")]

def PacketSection.block (s : PacketSection) : SectionBlock :=
  { documentKey := s.documentKey
    checklistCode := s.checklistCode
    title := s.title
    formNo := s.formNo
    contentSha256 := s.contentSha256
    body := bodyPartials.lookup s.documentKey }

def ItemPlan.line (p : ItemPlan) : ChecklistLine :=
  { code := p.catalog.code
    label := p.catalog.label
    group := p.catalog.group
    groupLabel := p.catalog.group.label
    evidence := p.catalog.evidence
    evidenceLabel := p.catalog.evidence.printLabel
    required := p.required
    status := p.derivedStatus
    statusLabel := p.derivedStatus.label
    flagged := .flagged ∈ p.checks
    sort := p.catalog.sort }

/-- By group, then sort, then code. -/
def ChecklistLine.le (a b : ChecklistLine) : Prop :=
  a.group.index < b.group.index ∨ a.group.index = b.group.index ∧
    (a.sort < b.sort ∨ a.sort = b.sort ∧ a.code ≤ b.code)

instance : DecidableRel ChecklistLine.le := fun _ _ => inferInstanceAs (Decidable (_ ∨ _))

def checklistLines (plan : List ItemPlan) : List ChecklistLine :=
  (plan.map ItemPlan.line).insertionSort ChecklistLine.le

/-- Where a file's line stands in the manifest: group, sort, code, and the join's id. -/
abbrev ManifestKey := ℕ × ℤ × String × ℕ

def ManifestKey.le (a b : ManifestKey) : Prop :=
  a.1 < b.1 ∨ a.1 = b.1 ∧ (a.2.1 < b.2.1 ∨ a.2.1 = b.2.1 ∧
    (a.2.2.1 < b.2.2.1 ∨ a.2.2.1 = b.2.2.1 ∧ a.2.2.2 ≤ b.2.2.2))

instance : DecidableRel ManifestKey.le := fun _ _ => inferInstanceAs (Decidable (_ ∨ _))

def manifestLine (catalog : Option CatalogRow) (join : ReimbAttachment) (file : Attachment) :
    ManifestLine :=
  { code := (catalog.map (·.code)).getD "—"
    label := (catalog.map (·.label)).getD "Unfiled attachment"
    groupLabel := (catalog.map (·.group.label)).getD "Other"
    filename := file.originalFilename
    sizeLabel := sizeLabel file.byteSize
    sha256 := file.sha256
    scanStatus := file.scanStatus
    scanLabel := scanLabel file.scanStatus
    custodyLabel := join.custody.label
    usable := file.scanStatus ≠ .infected
    uploadedAt := join.createdAt }

/-- Every file the claimant supplied, in checklist order. -/
def evidenceManifest (a : Archive) (claimId : ℕ) (plan : List ItemPlan) : List ManifestLine :=
  let files := a.filed.filter fun f => f.2.1.claimId = claimId ∧ f.2.1.checklistItemId ≠ none ∧
    f.2.2.origin = .uploaded
  let keyed : List (ManifestKey × ManifestLine) := files.map fun (id, join, file) =>
    let catalog := (plan.find? fun p =>
      p.itemId ≠ none ∧ p.itemId = join.checklistItemId).map (·.catalog)
    ((((catalog.map (·.group.index)).getD 7, (catalog.map (·.sort)).getD 0,
      (catalog.map (·.code)).getD "—", id)), manifestLine catalog join file)
  (keyed.insertionSort fun x y => ManifestKey.le x.1 y.1).map (·.2)

/-- The document key of the combined packet. -/
def packetKey : String := "reimb.packet"

def packetTitle : Kind → String
  | .reimbursement => "Travel claim packet"
  | .liquidation => "Liquidation packet"

/-- The packet's own block. -/
def packetBlock (env : Env) (a : Archive) (claimId : ℕ) (claim : Claim)
    (sections : List PacketSection) (stamp : Time) : PacketBlock :=
  let plan := buildPlan (env.counting a) a.store claimId claim stamp
  let countable := plan.filter fun p => p.required ∧ p.catalog.evidence.blocks
  let blocking := blockingRows plan
  { sections := sections.map PacketSection.block
    checklist := checklistLines plan
    evidence := evidenceManifest a claimId plan
    requiredTotal := countable.length
    requiredDone := countable.length - blocking.length
    complete := blocking.length = 0 }

/-- The context of the combined packet. -/
def buildPacketContext (env : Env) (page : Letterhead) (a : Archive) (claimId : ℕ) (claim : Claim)
    (sections : List PacketSection) (title : String) (stamp : Time) : Except Raised Context := do
  let context ← buildDocumentContext page a.store claimId claim packetKey title none stamp
  return { context with packet := some (packetBlock env a claimId claim sections stamp) }

end OfficeConnect.Reimbursement
