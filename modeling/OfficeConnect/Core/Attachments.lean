import OfficeConnect.Core.Retention
import OfficeConnect.Lib.Blobs
import OfficeConnect.Lib.Run

/-!
# The attachment service

An upload is validated by its bytes, stored under their hash and waits for a scan; a scan in the
worker judges the stored bytes and re-encodes an image; a download serves what was judged clean.
Scans load their row, work on the bytes for a while and write back what they changed, so several
transactions interleave on one row.
-/

namespace OfficeConnect.Attachments

open Lib

abbrev Bytes := List UInt8

/-! ## Types by magic bytes -/

inductive Mime where
  | jpeg | png | webp | heic | pdf
deriving DecidableEq, Repr

def Mime.text : Mime → String
  | .jpeg => "image/jpeg"
  | .png => "image/png"
  | .webp => "image/webp"
  | .heic => "image/heic"
  | .pdf => "application/pdf"

inductive MediaKind where
  | image | pdf
deriving DecidableEq, Repr

/-- The allowlist. -/
def allowed : Mime → MediaKind
  | .jpeg | .png | .webp | .heic => .image
  | .pdf => .pdf

inductive SaveFormat where
  | jpeg | png | webp
deriving DecidableEq, Repr

/-- The format an image is saved in again, and the type it is served as. -/
def reencodeTable : Mime → Option (SaveFormat × Mime)
  | .jpeg => some (.jpeg, .jpeg)
  | .png => some (.png, .png)
  | .webp => some (.webp, .webp)
  | .heic => some (.jpeg, .jpeg)
  | .pdf => none

/-- `data[i:j]`. -/
def slice (data : Bytes) (i j : ℕ) : Bytes := (data.drop i).take (j - i)

def jpegMagic : Bytes := [0xff, 0xd8, 0xff]

def pngMagic : Bytes := [0x89, 0x50, 0x4e, 0x47, 0x0d, 0x0a, 0x1a, 0x0a]

/-- `RIFF`, with `WEBP` at the ninth byte. -/
def riffMagic : Bytes := [0x52, 0x49, 0x46, 0x46]

def webpMagic : Bytes := [0x57, 0x45, 0x42, 0x50]

/-- `%PDF-`. -/
def pdfMagic : Bytes := [0x25, 0x50, 0x44, 0x46, 0x2d]

/-- `ftyp`, at the fifth byte and before a brand. -/
def ftypMagic : Bytes := [0x66, 0x74, 0x79, 0x70]

/-- `heic`, `heix`, `hevc`, `hevx`, `mif1`, `msf1`, `heim`, `heis`. -/
def heifBrands : List Bytes := [
  [0x68, 0x65, 0x69, 0x63], [0x68, 0x65, 0x69, 0x78], [0x68, 0x65, 0x76, 0x63],
  [0x68, 0x65, 0x76, 0x78], [0x6d, 0x69, 0x66, 0x31], [0x6d, 0x73, 0x66, 0x31],
  [0x68, 0x65, 0x69, 0x6d], [0x68, 0x65, 0x69, 0x73]]

def sniffMime (data : Bytes) : Option Mime :=
  if data.length < 12 then none
  else if slice data 0 3 = jpegMagic then some .jpeg
  else if slice data 0 8 = pngMagic then some .png
  else if slice data 0 4 = riffMagic ∧ slice data 8 12 = webpMagic then some .webp
  else if slice data 0 5 = pdfMagic then some .pdf
  else if slice data 4 8 = ftypMagic ∧ slice data 8 12 ∈ heifBrands then some .heic
  else none

/-- What `bytes.lstrip` strips. -/
def isSpace (b : UInt8) : Bool := b = 0x20 ∨ 0x09 ≤ b ∧ b ≤ 0x0d

/-- `bytes.lower`, one byte. -/
def lower (b : UInt8) : UInt8 := if 0x41 ≤ b ∧ b ≤ 0x5a then b + 0x20 else b

/-- `<?xml`. -/
def xmlMagic : Bytes := [0x3c, 0x3f, 0x78, 0x6d, 0x6c]

/-- `<svg`. -/
def svgMagic : Bytes := [0x3c, 0x73, 0x76, 0x67]

def looksLikeXml (data : Bytes) : Bool :=
  let head := ((data.dropWhile isSpace).take 6).map lower
  xmlMagic.isPrefixOf head || svgMagic.isPrefixOf head

/-! ## Failures -/

/-- Why an upload is refused. -/
inductive Rejection where
  | empty
  | tooLarge (size maxBytes : ℕ)
  | xml
  | unrecognized (declaredMime : Option String)
deriving DecidableEq, Repr

inductive Failure where
  | rejectedUpload (reason : Rejection)
  | attachmentNotFound (message : String)
  | unauthorizedDownload (message : String)
  | downloadNotReady (message : String)
  | storageError (message : String)
  | codecError (message : String)
deriving DecidableEq, Repr

/-- What the routes answer; a failure of the storage or of the codec is not theirs to name. -/
def asApiError : Failure → Raised
  | .rejectedUpload _ => .api 422 "attachment_rejected" "The file type is not allowed."
  | .attachmentNotFound _ => .api 404 "not_found" "Attachment not found."
  | .unauthorizedDownload _ => .api 403 "forbidden" "You do not have permission to do that."
  | .downloadNotReady _ =>
      .api 409 "attachment_not_ready" "The attachment is not available for download yet."
  | .storageError message | .codecError message => .runtimeError message

structure ValidatedUpload where
  sniffedMime : Mime
  mediaKind : MediaKind
deriving DecidableEq, Repr

/-- The size cap, then the allowlist. -/
def validateUpload (data : Bytes) (maxBytes : ℕ) (declaredMime : Option String) :
    Except Failure ValidatedUpload := do
  refuse (data = []) (.rejectedUpload .empty)
  refuse (maxBytes < data.length) (.rejectedUpload (.tooLarge data.length maxBytes))
  refuse (looksLikeXml data) (.rejectedUpload .xml)
  let sniffed ← found (sniffMime data) (.rejectedUpload (.unrecognized declaredMime))
  return { sniffedMime := sniffed, mediaKind := allowed sniffed }

/-! ## Storage -/

def keyLength : ℕ := 64

def hexDigits : List Char :=
  ['0', '1', '2', '3', '4', '5', '6', '7', '8', '9', 'a', 'b', 'c', 'd', 'e', 'f']

def ValidKey (key : String) : Prop := key.length = keyLength ∧ ∀ c ∈ key.toList, c ∈ hexDigits

instance (key : String) : Decidable (ValidKey key) := inferInstanceAs (Decidable (_ ∧ _))

/-- The hex digest of a hash. -/
structure Digest where
  hex : Bytes → String
  valid : ∀ data, ValidKey (hex data)

abbrev Volume := Blobs String Bytes

structure StoredObject where
  key : String
  size : ℕ
deriving DecidableEq, Repr

def validateKey (key : String) : Except Failure Unit :=
  refuse (¬ ValidKey key) (.storageError ("invalid storage key '" ++ key ++ "'"))

/-- The driver's write; `writeError` is what the disk says to it, if anything. -/
def saveBlob (digest : Digest) (writeError : Option String) (data : Bytes) (v : Volume) :
    Except Failure (StoredObject × Volume) := do
  let key := digest.hex data
  validateKey key
  match v.find key with
  | some stored => return ({ key := key, size := stored.length }, v)
  | none => do
      absent writeError fun e => .storageError ("local storage write failed: " ++ e)
      return ({ key := key, size := data.length }, v.save digest.hex data)

def notFoundMessage (key : String) : String := "object not found: " ++ key

def openBlob (key : String) (v : Volume) : Except Failure Bytes := do
  validateKey key
  found (v.find key) (.storageError (notFoundMessage key))

/-! ## Rows -/

/-- A row of `core_attachments` with the columns of the pipeline. -/
structure FileRow extends Attachment where
  sniffedMime : Mime
  declaredMime : Option String := none
  storageBackend : String := "local"
  mediaKind : MediaKind
  sanitizedSha256 : Option String := none
  sanitizedMime : Option Mime := none
  sanitizedByteSize : Option ℕ := none
  sanitizedAt : Option Time := none
  scanSignature : Option String := none
  scannedAt : Option Time := none
  scannerName : Option String := none
deriving DecidableEq, Repr

/-- What the codec raises on bytes it cannot open, decode or save. -/
inductive CodecError where
  | decompressionBomb (message : String)
  | unidentifiedImage (message : String)
  | osError (message : String)
  | valueError (message : String)
  | other (message : String)
deriving DecidableEq, Repr

/-- The hash, the image codec and the size cap. -/
structure Pipeline where
  digest : Digest
  codec : SaveFormat → Bytes → Except CodecError Bytes
  maxBytes : ℕ

/-- The arguments of an upload beside what the row keeps of its owner. -/
structure UploadRequest where
  data : Bytes
  deposit : Deposit
  declaredMime : Option String := none
  now : Time

structure UploadResult where
  attachmentId : ℕ
  sha256 : String
  scanStatus : ScanStatus
  deduped : Bool
deriving DecidableEq, Repr

/-- The row of an upload; the platform's own output is born clean. -/
def UploadRequest.row (r : UploadRequest) (validated : ValidatedUpload) (stored : StoredObject) :
    FileRow :=
  { r.deposit.row { sha256 := stored.key, byteSize := stored.size } with
    sniffedMime := validated.sniffedMime
    declaredMime := r.declaredMime
    mediaKind := validated.mediaKind
    scannedAt := if r.deposit.origin = .generated then some r.now else none
    scannerName := if r.deposit.origin = .generated then some "system-generated" else none }

def uploadAttachment (p : Pipeline) (writeError : Option String) (r : UploadRequest)
    (rows : List FileRow) (v : Volume) :
    Except Failure (UploadResult × List FileRow × Volume) := do
  let validated ← validateUpload r.data p.maxBytes r.declaredMime
  let deduped := (v.find (p.digest.hex r.data)).isSome
  let (stored, v) ← saveBlob p.digest writeError r.data v
  let row := r.row validated stored
  return ({ attachmentId := rows.length, sha256 := stored.key, scanStatus := row.scanStatus,
            deduped := deduped }, rows ++ [row], v)

/-! ## Scanning -/

inductive Verdict where
  | clean | infected | error
deriving DecidableEq, Repr

def Verdict.status : Verdict → ScanStatus
  | .clean => .clean
  | .infected => .infected
  | .error => .error

structure ScanResult where
  status : Verdict
  signature : Option String
  scannerName : String
deriving DecidableEq, Repr

abbrev Scanner := Bytes → ScanResult

/-- Without a scanner nothing is trusted in production. -/
def nullScanner (appEnv : String) : Scanner := fun _ =>
  if appEnv = "production" then
    { status := .error, signature := some "no-scanner-configured", scannerName := "null-prod" }
  else { status := .clean, signature := none, scannerName := "null-dev" }

/-- The daemon's reply to a stream: its verdict and signature, or the failure of the call. -/
abbrev Daemon := Bytes → Except String (String × Option String)

def clamavScanner (daemon : Daemon) : Scanner := fun data =>
  match daemon data with
  | .error e =>
      { status := .error, signature := some ("scan-failed: " ++ e), scannerName := "clamav" }
  | .ok (verdict, signature) =>
      if verdict = "OK" then { status := .clean, signature := none, scannerName := "clamav" }
      else if verdict = "FOUND" then
        { status := .infected, signature := signature, scannerName := "clamav" }
      else
        { status := .error, signature := some ("unexpected verdict " ++ verdict)
          scannerName := "clamav" }

/-- How a re-encoding fails: with a `RejectedUpload`, or with what the codec raised. -/
inductive ReencodeError where
  | rejected (message : String)
  | uncaught (message : String)
deriving DecidableEq, Repr

/-- The `except` clauses around the codec. -/
def CodecError.caught : CodecError → ReencodeError
  | .decompressionBomb message =>
      .rejected ("image too large (decompression bomb): " ++ message)
  | .unidentifiedImage message | .osError message | .valueError message =>
      .rejected ("undecodable image: " ++ message)
  | .other message => .uncaught message

/-- Re-encode an image; returns the bytes and the type they are served as. -/
def reencodeImage (p : Pipeline) (data : Bytes) (sniffedMime : Mime) :
    Except ReencodeError (Bytes × Mime) := do
  let (format, servedMime) ← found (reencodeTable sniffedMime)
    (.rejected ("cannot re-encode '" ++ sniffedMime.text ++ "'"))
  match p.codec format data with
  | .ok out => return (out, servedMime)
  | .error e => .error e.caught

namespace FileRow

/-- The row still waits for a verdict; an error may be tried again. -/
def waiting (row : FileRow) : Prop := row.scanStatus = .pending ∨ row.scanStatus = .error

instance (row : FileRow) : Decidable row.waiting := inferInstanceAs (Decidable (_ ∨ _))

def markError (row : FileRow) (signature scannerName : String) (now : Time) : FileRow :=
  { row with
    scanStatus := .error
    scanSignature := some signature
    scannedAt := some now
    scannerName := some scannerName }

def judged (row : FileRow) (result : ScanResult) (now : Time) : FileRow :=
  { row with
    scanStatus := result.status.status
    scanSignature := result.signature
    scannedAt := some now
    scannerName := some result.scannerName }

def sanitized (row : FileRow) (stored : StoredObject) (servedMime : Mime) (now : Time) : FileRow :=
  { row with
    sanitizedSha256 := some stored.key
    sanitizedMime := some servedMime
    sanitizedByteSize := some stored.size
    sanitizedAt := some now }

end FileRow

/-- The text of the failure a missing blob raises. -/
def Failure.message : Failure → String
  | .rejectedUpload _ => ""
  | .attachmentNotFound message | .unauthorizedDownload message | .downloadNotReady message
  | .storageError message | .codecError message => message

/-- What a scan makes of the row it loaded. -/
def scanRow (p : Pipeline) (scanner : Scanner) (writeError : Option String) (now : Time)
    (row : FileRow) (v : Volume) : Except Failure (FileRow × Volume) :=
  if row.waiting then
    match openBlob row.sha256 v with
    | .error e => return (row.markError ("blob-unreadable: " ++ e.message) "storage" now, v)
    | .ok original =>
        let result := scanner original
        let row := row.judged result now
        if result.status = .clean ∧ row.mediaKind = .image then
          match reencodeImage p original row.sniffedMime with
          | .error (.rejected message) =>
              return (row.markError ("reencode-failed: " ++ message) result.scannerName now, v)
          | .error (.uncaught message) => .error (.codecError message)
          | .ok (cleanBytes, servedMime) => do
              let (stored, v) ← saveBlob p.digest writeError cleanBytes v
              return (row.sanitized stored servedMime now, v)
        else return (row, v)
  else return (row, v)

/-! ## Transactions -/

/-- A row as a transaction loaded it and as it leaves it. -/
structure Scan where
  tx : ℕ
  id : ℕ
  loaded : FileRow
  final : FileRow
deriving DecidableEq, Repr

/-- One column of an `UPDATE`: only what the transaction changed is written. -/
def column {α : Type} [DecidableEq α] (loaded final current : α) : α :=
  if final = loaded then current else final

/-- The columns a scan may write. -/
def FileRow.flush (loaded final current : FileRow) : FileRow :=
  { current with
    scanStatus := column loaded.scanStatus final.scanStatus current.scanStatus
    scanSignature := column loaded.scanSignature final.scanSignature current.scanSignature
    scannedAt := column loaded.scannedAt final.scannedAt current.scannedAt
    scannerName := column loaded.scannerName final.scannerName current.scannerName
    sanitizedSha256 := column loaded.sanitizedSha256 final.sanitizedSha256 current.sanitizedSha256
    sanitizedMime := column loaded.sanitizedMime final.sanitizedMime current.sanitizedMime
    sanitizedByteSize :=
      column loaded.sanitizedByteSize final.sanitizedByteSize current.sanitizedByteSize
    sanitizedAt := column loaded.sanitizedAt final.sanitizedAt current.sanitizedAt }

def Scan.write (s : Scan) (rows : List FileRow) : List FileRow :=
  rows.modify s.id (s.loaded.flush s.final)

/-- The committed rows, the volume, and the scans whose transaction is open. -/
structure Room where
  rows : List FileRow := []
  volume : Volume := {}
  scans : List Scan := []

namespace Room

/-- A row by id; soft-deleted rows are filtered out. -/
def row? (room : Room) (id : ℕ) : Option FileRow := room.rows[id]?.filter fun row => ¬ row.deleted

def attachmentNotFound (id : ℕ) : Failure :=
  .attachmentNotFound ("attachment " ++ toString id ++ " not found")

def rollback (room : Room) (tx : ℕ) : Room :=
  { room with scans := room.scans.filter fun s => s.tx ≠ tx }

def commit (room : Room) (tx : ℕ) : Room :=
  { room.rollback tx with
    rows := (room.scans.filter fun s => s.tx = tx).foldl (fun rows s => s.write rows) room.rows }

/-- `process_attachment` up to its flush, within a transaction. -/
def process (p : Pipeline) (scanner : Scanner) (writeError : Option String) (now : Time)
    (tx id : ℕ) (room : Room) : Except Failure Room := do
  let row ← found (room.row? id) (attachmentNotFound id)
  let (final, v) ← scanRow p scanner writeError now row room.volume
  return { room with
    volume := v
    scans := room.scans ++ [{ tx := tx, id := id, loaded := row, final := final }] }

end Room

/-- What happens to the room.  An upload stores its bytes at once, whether or not its transaction
then `commits`. -/
inductive Event where
  | upload (r : UploadRequest) (writeError : Option String) (commits : Bool)
  | process (tx id : ℕ) (scanner : Scanner) (writeError : Option String) (now : Time)
  | commit (tx : ℕ)
  | abort (tx : ℕ)
  | softDelete (id : ℕ)
  | startRetention (holderKind : String) (holderId : ℕ) (stamp : Time)

def Event.step (p : Pipeline) : Event → Room → Except Failure Room
  | .upload r writeError commits, room => do
      let (_, rows, v) ← uploadAttachment p writeError r room.rows room.volume
      return { room with rows := if commits then rows else room.rows, volume := v }
  | .process tx id scanner writeError now, room =>
      match room.process p scanner writeError now tx id with
      | .ok room' => return room'
      | .error _ => return room.rollback tx
  | .commit tx, room => return room.commit tx
  | .abort tx, room => return room.rollback tx
  | .softDelete id, room => do
      let _ ← found (room.row? id) (Room.attachmentNotFound id)
      return { room with rows := room.rows.modify id fun row => { row with deleted := true } }
  | .startRetention holderKind holderId stamp, room =>
      return { room with
        rows := room.rows.map fun row =>
          if row.unstarted holderKind holderId then { row with retentionStartsAt := some stamp }
          else row }

def runRoom (p : Pipeline) (events : List Event) : Room := Lib.run (Event.step p) {} events

/-! ## Downloads -/

inductive Disposition where
  | inline | attachment
deriving DecidableEq, Repr

structure Download where
  filename : String
  contentType : Mime
  size : ℕ
  sha256 : String
  stream : Bytes
  disposition : Disposition
deriving DecidableEq, Repr

/-- Shown in place only what the platform printed itself. -/
def FileRow.disposition (row : FileRow) (contentType : Mime) : Disposition :=
  if row.origin = .generated ∧ contentType = .pdf then .inline else .attachment

/-- A hook that allows a download or denies it with a text. -/
abbrev Authorize := FileRow → Except String Unit

/-- The hook of a request: what the module that owns the holder's kind says. -/
def makeDownloadAuthorizer (holders : List (String × Authorize)) : Authorize := fun row =>
  if blank row.holderKind then .ok ()
  else
    match row.holderKind.bind fun kind => holders.lookup kind with
    | none => .ok ()
    | some holder => holder row

def FileRow.servedKey (row : FileRow) : String :=
  if blank row.sanitizedSha256 then row.sha256 else row.sanitizedSha256.getD row.sha256

def FileRow.contentType (row : FileRow) : Mime := row.sanitizedMime.getD row.sniffedMime

/-- `sanitized_byte_size or byte_size`. -/
def FileRow.servedSize (row : FileRow) : ℕ := (orId row.sanitizedByteSize (some row.byteSize)).getD 0

def scanStatusText : ScanStatus → String
  | .pending => "pending"
  | .clean => "clean"
  | .infected => "infected"
  | .error => "error"

/-- Deleted rows are absent; then the hook, the verdict, and the bytes. -/
def downloadAttachment (authorize : Authorize) (id : ℕ) (room : Room) : Except Failure Download := do
  let row ← found (room.row? id) (Room.attachmentNotFound id)
  match authorize row with
  | .error e => .error (.unauthorizedDownload e)
  | .ok () =>
      refuse (row.scanStatus ≠ .clean)
        (.downloadNotReady ("scan_status=" ++ scanStatusText row.scanStatus))
      refuse (row.disposedAt ≠ none) (.downloadNotReady "attachment bytes have been disposed")
      let stream ← openBlob row.servedKey room.volume
      return {
        filename := row.originalFilename
        contentType := row.contentType
        size := row.servedSize
        sha256 := row.servedKey
        stream := stream
        disposition := row.disposition row.contentType }

end OfficeConnect.Attachments
