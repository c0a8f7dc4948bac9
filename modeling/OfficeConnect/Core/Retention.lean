import OfficeConnect.Core.Calendar
import OfficeConnect.Lib.Rows

/-!
# Attachments and their retention

A file is a row that some record holds.  Its retention class gives a period and the record's owner
says when the clock starts; the disposal report tells a reader what is eligible and deletes nothing.
-/

namespace OfficeConnect

open Lib

/-! ## Rows -/

inductive Origin where
  | uploaded | generated
deriving DecidableEq, Repr

inductive ScanStatus where
  | pending | clean | infected | error
deriving DecidableEq, Repr

structure Attachment where
  holderKind : Option String := none
  holderId : Option ℕ := none
  originalFilename : String
  byteSize : ℕ
  sha256 : String
  origin : Origin := .uploaded
  scanStatus : ScanStatus := .pending
  retentionClass : String := "default"
  retentionStartsAt : Option Time := none
  legalHold : Bool := false
  disposedAt : Option Time := none
  createdBy : Option ℕ := none
  deleted : Bool := false
deriving DecidableEq, Repr

/-- Bytes as the service sees them: their hash, their size, and the verdict of the upload pipeline
on their type and size. -/
structure Upload where
  sha256 : String := ""
  byteSize : ℕ := 0
  allowed : Bool := true
deriving DecidableEq, Repr

def rejectedUpload : Raised := .api 422 "attachment_rejected" "The file type is not allowed."

/-- What an upload asks for beside the bytes. -/
structure Deposit where
  filename : String
  holderKind : Option String := none
  holderId : Option ℕ := none
  retentionClass : String := "default"
  retentionStartsAt : Option Time := none
  origin : Origin := .uploaded
  actorId : Option ℕ := none
deriving DecidableEq, Repr

/-- The row of an upload; the platform's own output is born clean. -/
def Deposit.row (r : Deposit) (data : Upload) : Attachment :=
  { holderKind := r.holderKind
    holderId := r.holderId
    originalFilename := r.filename
    byteSize := data.byteSize
    sha256 := data.sha256
    origin := r.origin
    scanStatus := if r.origin = .generated then .clean else .pending
    retentionClass := r.retentionClass
    retentionStartsAt := r.retentionStartsAt
    createdBy := r.actorId }

/-- Validate and persist; returns the id of the row. -/
def uploadAttachment (data : Upload) (r : Deposit) (rows : List Attachment) :
    Except Raised (ℕ × List Attachment) := do
  refuse (¬ data.allowed) rejectedUpload
  return (rows.length, rows ++ [r.row data])

/-- The verdict of a scan on a file that still waits for one. -/
def processAttachment (id : ℕ) (verdict : ScanStatus) (rows : List Attachment) : List Attachment :=
  rows.modify id fun row =>
    if row.deleted = false ∧ (row.scanStatus = .pending ∨ row.scanStatus = .error) then
      { row with scanStatus := verdict }
    else row

def attachmentNotFound (id : ℕ) : Raised := .runtimeError s!"attachment {id} not found"

/-- Soft-delete the reference row; the bytes stay. -/
def softDeleteAttachment (id : ℕ) (rows : List Attachment) : Except Raised (List Attachment) := do
  let row ← found rows[id]? (attachmentNotFound id)
  refuse (row.deleted = true) (attachmentNotFound id)
  return rows.modify id fun row => { row with deleted := true }

/-! ## The clock -/

/-- The files a start is about: the holder's live ones whose clock is not running. -/
def Attachment.unstarted (row : Attachment) (holderKind : String) (holderId : ℕ) : Prop :=
  row.holderKind = some holderKind ∧ row.holderId = some holderId ∧ row.retentionStartsAt = none ∧
    row.deleted = false

instance (row : Attachment) (holderKind : String) (holderId : ℕ) :
    Decidable (row.unstarted holderKind holderId) :=
  inferInstanceAs (Decidable (_ ∧ _ ∧ _ ∧ _))

/-- Start the clock on a holder's files; returns how many were stamped. -/
def startRetention (holderKind : String) (holderId : ℕ) (stamp : Time) (rows : List Attachment) :
    ℕ × List Attachment :=
  ((rows.filter fun row => row.unstarted holderKind holderId).length,
    rows.map fun row =>
      if row.unstarted holderKind holderId then { row with retentionStartsAt := some stamp }
      else row)

/-! ## The period -/

/-- `years` is `none` for a class that never becomes eligible. -/
structure RetentionRule where
  label : String
  years : Option ℕ
deriving DecidableEq, Repr

def retentionClasses : List (String × RetentionRule) := [
  ("default", { label := "General office record", years := some 10 }),
  ("financial_dv_10y", { label := "Disbursement-voucher support (GRDS)", years := some 10 }),
  ("permanent", { label := "Permanent record", years := none }),
  ("transitory", { label := "Transitory/convenience copy", years := some 3 })]

def daySeconds : Time := 86400

/-- The instant from which a record may be disposed of; none if it never may. -/
def retainUntil (retentionClass : String) (retentionStartsAt : Option Time) : Option Time :=
  match retentionStartsAt, (retentionClasses.lookup retentionClass).bind (·.years) with
  | some start, some years => some (start + 365 * (years : ℤ) * daySeconds)
  | _, _ => none

structure DisposalCandidate where
  attachmentId : ℕ
  sha256 : String
  retentionClass : String
  retentionStartsAt : Option Time
  retainUntil : Option Time
  legalHold : Bool
  eligible : Bool
  reason : String
deriving DecidableEq, Repr

/-- The verdict on one file. -/
def Attachment.verdict (row : Attachment) (asOf : Time) : Bool × String :=
  if row.disposedAt ≠ none then (false, "already disposed")
  else if row.legalHold then (false, "legal hold")
  else
    match retainUntil row.retentionClass row.retentionStartsAt with
    | none => (false, "retention clock not started or indefinite")
    | some until_ =>
        if asOf < until_ then (false, "retained until " ++ isoDate (until_ / 86400))
        else (true, "retention elapsed " ++ isoDate (until_ / 86400))

def evaluateCandidate (id : ℕ) (row : Attachment) (asOf : Time) : DisposalCandidate :=
  let (eligible, reason) := row.verdict asOf
  { attachmentId := id
    sha256 := row.sha256
    retentionClass := row.retentionClass
    retentionStartsAt := row.retentionStartsAt
    retainUntil := retainUntil row.retentionClass row.retentionStartsAt
    legalHold := row.legalHold
    eligible := eligible
    reason := reason }

/-- Every file's eligibility, soft-deleted ones included. -/
def disposalEligibilityReport (asOf : Time) (rows : List Attachment) : List DisposalCandidate :=
  rows.mapIdx fun id row => evaluateCandidate id row asOf

/-! ## What a start leaves -/

section

variable {holderKind : String} {holderId n : ℕ} {stamp t : Time} {rows : List Attachment}
variable {row : Attachment} {asOf : Time}

theorem getElem?_startRetention (hrow : rows[n]? = some row) :
    (startRetention holderKind holderId stamp rows).2[n]? = some
      (if row.unstarted holderKind holderId then { row with retentionStartsAt := some stamp }
      else row) := by
  rw [startRetention, List.getElem?_map, hrow, Option.map_some]

/-- A start touches no column but an empty clock. -/
theorem startRetention_row (hrow : (startRetention holderKind holderId stamp rows).2[n]? = some row) :
    ∃ old, rows[n]? = some old ∧ row.holderKind = old.holderKind ∧ row.holderId = old.holderId ∧
      row.deleted = old.deleted ∧ row.retentionClass = old.retentionClass ∧
      row.legalHold = old.legalHold ∧ row.disposedAt = old.disposedAt ∧
      (row.retentionStartsAt = old.retentionStartsAt ∨
        old.unstarted holderKind holderId ∧ row.retentionStartsAt = some stamp) := by
  rw [startRetention, List.getElem?_map, Option.map_eq_some_iff] at hrow
  obtain ⟨old, hold, rfl⟩ := hrow
  refine ⟨old, hold, ?_⟩
  split_ifs with h
  · exact ⟨rfl, rfl, rfl, rfl, rfl, rfl, .inr ⟨h, rfl⟩⟩
  · exact ⟨rfl, rfl, rfl, rfl, rfl, rfl, .inl rfl⟩

/-- After a start every live file of the holder has a clock. -/
theorem startRetention_started
    (hrow : (startRetention holderKind holderId stamp rows).2[n]? = some row)
    (hkind : row.holderKind = some holderKind) (hid : row.holderId = some holderId)
    (hlive : row.deleted = false) : row.retentionStartsAt ≠ none := by
  rw [startRetention, List.getElem?_map, Option.map_eq_some_iff] at hrow
  obtain ⟨old, -, rfl⟩ := hrow
  split_ifs at hkind hid hlive ⊢ with h
  · simp
  · exact fun hnone => h ⟨hkind, hid, hnone, hlive⟩

/-! ## Ten years -/

/-- A file of a ten-year class is eligible from 3650 days on. -/
theorem verdict_ten (hclass : (retentionClasses.lookup row.retentionClass).bind (·.years) = some 10)
    (hstart : row.retentionStartsAt = some t) :
    (row.verdict asOf).1 = true ↔ row.disposedAt = none ∧ row.legalHold = false ∧
      t + 3650 * daySeconds ≤ asOf := by
  have huntil : retainUntil row.retentionClass row.retentionStartsAt =
      some (t + 3650 * daySeconds) := by
    simp only [OfficeConnect.retainUntil, hstart, hclass]
    norm_num
  unfold Attachment.verdict
  rw [huntil]
  by_cases hdisposed : row.disposedAt = none
  · by_cases hhold : row.legalHold = true
    · simp [hdisposed, hhold]
    · by_cases hearly : asOf < t + 3650 * daySeconds
      · simp [hdisposed, hhold, hearly]
      · simp [hdisposed, hhold, hearly, not_lt.1 hearly]
  · simp [hdisposed]

theorem verdict_unstarted (hstart : row.retentionStartsAt = none) :
    (row.verdict asOf).1 = false := by
  unfold Attachment.verdict
  rw [hstart]
  split_ifs <;> rfl

/-- The 3650 days end one to three days before the tenth anniversary. -/
theorem anniversaryOf_ten (t : Time) :
    t + 3650 * daySeconds + daySeconds ≤ anniversaryOf 10 t ∧
      anniversaryOf 10 t ≤ t + 3650 * daySeconds + 3 * daySeconds := by
  obtain ⟨hlow, hhigh⟩ := anniversary_ten (t / 86400)
  have hsplit : t / 86400 * 86400 + t % 86400 = t := by rw [mul_comm, Int.mul_ediv_add_emod]
  unfold anniversaryOf daySeconds
  constructor <;> linarith

theorem mem_disposalReport {c : DisposalCandidate} :
    c ∈ disposalEligibilityReport asOf rows ↔
      ∃ (n : ℕ) (row : Attachment), rows[n]? = some row ∧ evaluateCandidate n row asOf = c := by
  rw [disposalEligibilityReport, List.mem_iff_getElem?]
  simp only [List.getElem?_mapIdx, Option.map_eq_some_iff]

end

end OfficeConnect
