import OfficeConnect.Reimbursement.Documents
import OfficeConnect.Reimbursement.InFlight

/-!
# Generating a claim's documents

One pass over the bound forms of a claim and then its packet.  For each: build the context, compare
its fingerprint with the one the live copy was printed from, and if they differ render, file the
bytes, freeze a snapshot and flip the checklist item.  A document that does not render is reported
and the pass goes on.
-/

namespace OfficeConnect.Reimbursement

open Lib Workflow

/-! ## Bindings -/

/-- Which registered document satisfies which checklist code; the id of a row is its position. -/
structure TemplateMap where
  claimKind : Option Kind := none
  checklistCode : String
  documentKey : String
  title : String
  formNo : Option String := none
  sort : ℤ := 0
  isActive : Bool := true
deriving DecidableEq, Repr

/-- The active bindings of a claim kind, `ORDER BY sort, id`. -/
def bindings (templates : List TemplateMap) (kind : Kind) : List TemplateMap :=
  (templates.filter fun b => b.isActive ∧ (b.claimKind = none ∨ b.claimKind = some kind)).insertionSort
    fun a b => a.sort ≤ b.sort

/-! ## The press -/

/-- What the engine makes of a context: an unregistered key raises, the failure of a template or of
the engine is reported, and bytes come with their hash. -/
inductive Rendering where
  | unknownDocument
  | renderFailed (detail : String)
  | pdf (data : Upload)
deriving DecidableEq, Repr

structure Press where
  /-- The hash of the canonical JSON of a context. -/
  fingerprint : Context → String
  render : String → Context → Rendering

def unknownDocument (key : String) : Raised :=
  .runtimeError ("no document registered for key '" ++ key ++ "'")

/-- The text of an exception. -/
def detailOf : Raised → String
  | .api _ _ message => message
  | .valueError message => message
  | .runtimeError message => message
  | .emailError message => message
  | .sessionCapReached message => message
  | .integrityError index => index
  | .typeError | .keyError | .attributeError | .noResultFound | .multipleResultsFound
  | .dataError | .invalidOperation | .overflowError => ""

/-! ## What happened to one document -/

inductive PrintOutcome where
  | generated | unchanged | failed
deriving DecidableEq, Repr

structure GeneratedDocument where
  documentKey : String
  checklistCode : String
  outcome : PrintOutcome
  attachmentId : Option ℕ := none
  detail : Option String := none
  contentSha256 : Option String := none
deriving DecidableEq, Repr

/-! ## Filing -/

/-- `core_attachments.holder_kind`, and `core_document_snapshots.subject_kind`. -/
def holderKind : String := "reimb_claim"

def retentionClass : String := "financial_dv_10y"

/-- `[RefNo]_[YYYYMMDD]_[HHMMSS]`; a draft goes by its id. -/
def filename (claimId : ℕ) (claim : Claim) (suffix : String) (stamp : Time) : String :=
  let stem := (orText claim.refNo none).getD s!"DRAFT-{claimId}"
  let (y, m, d) := civil (manilaDate stamp)
  let clock := (stamp + manilaOffset) % 86400
  stem ++ "_" ++ padded 4 y ++ padded 2 m ++ padded 2 d ++ "_" ++ padded 2 (clock / 3600) ++
    padded 2 (clock / 60 % 60) ++ padded 2 (clock % 60) ++ "_" ++ suffix ++ ".pdf"

/-- The bytes of a document the system printed, joined to the claim; born clean. -/
def storeGeneratedDocument (claimId : ℕ) (itemId : Option ℕ) (data : Upload) (name : String)
    (actor : Option ℕ) (now : Time) (a : Archive) : Except Raised (ℕ × Archive) := do
  let (id, files) ← uploadAttachment data {
    filename := name
    holderKind := some holderKind
    holderId := some claimId
    retentionClass := retentionClass
    origin := .generated
    actorId := actor } a.files
  return (id, { a with
    files := files
    joins := a.joins ++ [{
      claimId := claimId
      attachmentId := id
      checklistItemId := itemId
      retentionClass := retentionClass
      createdAt := now }] })

/-- The claim's live item of a generated document, revived or created on demand, with its id. -/
def materializeGeneratedItem (env : Env) (claimId : ℕ) (claim : Claim) (code : String) (σ : Store) :
    Except Raised (ℕ × Store) := do
  let row? ← scalarOneOrNone ((activeCatalog env claim.kind).filter (·.code = code))
  let row ← found row? (unknownCatalogCode code)
  refuse (row.evidence ≠ .generatedDoc) (documentNotGeneratable code row.evidence)
  let existing := σ.item? claimId row.id
  return ((existing.map (·.1)).getD σ.items.length,
    { σ with items := materializeItem σ.items existing claimId row id })

/-- The only first write of `generated`; the packet is materialized again. -/
def markItemGenerated (env : Env) (claimId : ℕ) (claim : Claim) (itemId : ℕ) (σ : Store) : Store :=
  refreshChecklist env
    { σ with items := σ.items.modify itemId fun i => { i with status := .generated } }
    claimId claim env.utcNow

/-! ## One document -/

/-- What a pass knows of its claim. -/
structure Pass where
  env : Env
  page : Letterhead
  press : Press
  claimId : ℕ
  claim : Claim
  actorUserId : Option ℕ
  stamp : Time

/-- A document of the pass: its key, the code it is reported under, the suffix of its file name and,
for a form, the checklist code it satisfies. -/
structure Sheet where
  documentKey : String
  checklistCode : String
  suffix : String
  item : Option String

def Sheet.failed (s : Sheet) (detail : String) : GeneratedDocument :=
  { documentKey := s.documentKey
    checklistCode := s.checklistCode
    outcome := .failed
    detail := some detail }

def Sheet.unchanged (s : Sheet) (copy : DocumentSnapshot) : GeneratedDocument :=
  { documentKey := s.documentKey
    checklistCode := s.checklistCode
    outcome := .unchanged
    attachmentId := some copy.attachmentId
    contentSha256 := some copy.contentSha256 }

def Sheet.generated (s : Sheet) (attachmentId : ℕ) (data : Upload) : GeneratedDocument :=
  { documentKey := s.documentKey
    checklistCode := s.checklistCode
    outcome := .generated
    attachmentId := some attachmentId
    contentSha256 := some data.sha256 }

/-- The document of a claim under a key. -/
def copyKey (claimId : ℕ) (documentKey : String) : CopyKey := (holderKind, claimId, documentKey)

/-- The copy was printed from such data, in this draft-ness. -/
def Pass.current (p : Pass) (fingerprint : String) (copy : DocumentSnapshot) : Bool :=
  copy.sourceFingerprint = fingerprint ∧ copy.isDraft = isDraftClaim p.claim

def Pass.freeze (p : Pass) (s : Sheet) (attachmentId : ℕ) (data : Upload) (fingerprint : String) :
    Freeze :=
  { subjectKind := holderKind
    subjectId := p.claimId
    documentKey := s.documentKey
    attachmentId := attachmentId
    contentSha256 := data.sha256
    sourceFingerprint := fingerprint
    revisionNo := none
    isDraft := isDraftClaim p.claim
    actorId := p.actorUserId
    now := some p.stamp }

/-- The bytes stored and frozen. -/
def Pass.deposit (p : Pass) (s : Sheet) (itemId : Option ℕ) (data : Upload) (fingerprint : String)
    (a : Archive) : Except Raised (ℕ × Archive) := do
  let (id, a) ← storeGeneratedDocument p.claimId itemId data
    (filename p.claimId p.claim s.suffix p.stamp) p.actorUserId p.env.utcNow a
  let snapshots ← freezeSnapshot p.env.utcNow (p.freeze s id data fingerprint) a.snapshots
  return (id, { a with snapshots := snapshots })

/-- The rendered bytes filed; a form has an item, the packet has none. -/
def Pass.file (p : Pass) (s : Sheet) (data : Upload) (fingerprint : String) (a : Archive) :
    Except Raised (ℕ × Archive) :=
  match s.item with
  | none => p.deposit s none data fingerprint a
  | some code => do
      let (itemId, σ) ← materializeGeneratedItem (p.env.counting a) p.claimId p.claim code a.store
      let (id, a) ← p.deposit s (some itemId) data fingerprint { a with store := σ }
      return (id, { a with
        store := markItemGenerated (p.env.counting a) p.claimId p.claim itemId a.store })

/-- The pipeline of one document: `context` is what it would print, and `print` puts the fingerprint
on the page. -/
def Pass.issue (p : Pass) (s : Sheet) (context : Except Raised Context)
    (print : String → Context → Context) (a : Archive) :
    Except Raised (GeneratedDocument × Archive) :=
  match context with
  | .error e => .ok (s.failed (detailOf e), a)
  | .ok context => do
      let fingerprint := p.press.fingerprint (comparableContext context)
      let existing ← findActive a.snapshots (copyKey p.claimId s.documentKey)
      match existing.filter fun copy => p.current fingerprint copy.2 with
      | some copy => return (s.unchanged copy.2, a)
      | none =>
          match p.press.render s.documentKey (print fingerprint context) with
          | .unknownDocument => .error (unknownDocument s.documentKey)
          | .renderFailed detail => return (s.failed detail, a)
          | .pdf data => do
              let (id, a) ← p.file s data fingerprint a
              return (s.generated id data, a)

def TemplateMap.sheet (b : TemplateMap) : Sheet :=
  { documentKey := b.documentKey
    checklistCode := b.checklistCode
    suffix := b.checklistCode
    item := some b.checklistCode }

/-- What a form prints. -/
def Pass.formContext (p : Pass) (b : TemplateMap) (σ : Store) : Except Raised Context :=
  buildDocumentContext p.page σ p.claimId p.claim b.documentKey b.title b.formNo p.stamp

def generateOne (p : Pass) (b : TemplateMap) (a : Archive) :
    Except Raised (GeneratedDocument × Archive) :=
  p.issue b.sheet (p.formContext b a.store) (fun _ context => context) a

/-- The packet is a claim-level artifact: no checklist item, and one key for both kinds. -/
def packetSheet : Sheet :=
  { documentKey := packetKey
    checklistCode := packetTitle .reimbursement
    suffix := "PACKET"
    item := none }

def Pass.packetContext (p : Pass) (sections : List PacketSection) (a : Archive) :
    Except Raised Context :=
  buildPacketContext p.env p.page a p.claimId p.claim sections (packetTitle p.claim.kind) p.stamp

/-- The packet prints its own fingerprint, which is not in the hashed context. -/
def printFingerprint (fingerprint : String) (context : Context) : Context :=
  { context with doc := { context.doc with fingerprint := some fingerprint } }

def generatePacket (p : Pass) (sections : List PacketSection) (a : Archive) :
    Except Raised (GeneratedDocument × Archive) :=
  p.issue packetSheet (p.packetContext sections a) printFingerprint a

/-! ## One pass -/

def generateForms (p : Pass) : List TemplateMap → Archive →
    Except Raised (List GeneratedDocument × Archive)
  | [], a => .ok ([], a)
  | b :: bound, a => do
      let (result, a) ← generateOne p b a
      let (results, a) ← generateForms p bound a
      return (result :: results, a)

/-- A form as the packet's cover lists it; the results are keyed by document, the last one wins. -/
def TemplateMap.section (results : List GeneratedDocument) (b : TemplateMap) : PacketSection :=
  { documentKey := b.documentKey
    checklistCode := b.checklistCode
    title := b.title
    formNo := b.formNo
    contentSha256 := (results.reverse.find? (·.documentKey = b.documentKey)).bind (·.contentSha256) }

/-- The forms, then the packet, whose cover prints their hashes. -/
def Pass.run (p : Pass) (bound : List TemplateMap) (a : Archive) :
    Except Raised (List GeneratedDocument × Archive) := do
  let (results, a) ← generateForms p bound a
  let (packet, a) ← generatePacket p (bound.map (TemplateMap.section results)) a
  return (results ++ [packet], a)

/-- What a pass reads beside the archive. -/
structure PrintRoom where
  env : Env
  page : Letterhead
  press : Press
  templates : List TemplateMap

/-- The pass over a claim as it stands. -/
def PrintRoom.pass (room : PrintRoom) (claimId : ℕ) (claim : Claim) (actor : Option ℕ)
    (now : Option Time) : Pass :=
  { env := room.env
    page := room.page
    press := room.press
    claimId := claimId
    claim := claim
    actorUserId := actor
    stamp := room.env.at now }

/-- Render, store and file every bound document of one claim. -/
def Archive.generateClaimDocuments (room : PrintRoom) (claimId : ℕ) (actor : Option ℕ)
    (now : Option Time) (a : Archive) : Except Raised (List GeneratedDocument × Archive) := do
  let claim ← lockedClaim a.store claimId
  (room.pass claimId claim actor now).run (bindings room.templates claim.kind) a

end OfficeConnect.Reimbursement
