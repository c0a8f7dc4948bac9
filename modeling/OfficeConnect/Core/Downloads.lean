import OfficeConnect.Core.ScanRoom

/-!
# What is served

Every download that returns, in any interleaving of uploads, scans and deletions; and what is final
about a verdict once no scan of the row is open.
-/

namespace OfficeConnect.Attachments

open Lib

/-! ## Provenance -/

/-- What a download of the row hands out, told from the uploads and the scans of the run. -/
structure Served (p : Pipeline) (events : List Event) (v : Volume) (row : FileRow) (d : Download) :
    Prop where
  recorded : ∃ r, Uploaded events r ∧ Records p r row
  sha256 : d.sha256 = p.digest.hex d.stream
  size : d.size = d.stream.length ∨ d.stream = []
  generated : row.origin = .generated → v.find row.sha256 = some d.stream ∧
    d.contentType = row.sniffedMime
  uploaded : row.origin = .uploaded → d.disposition = .attachment ∧
    ∃ original, v.find row.sha256 = some original ∧ Cleared events original ∧
      (row.mediaKind = .pdf → d.stream = original ∧ d.contentType = .pdf) ∧
      (row.mediaKind = .image → ∃ format out, reencodeTable row.sniffedMime =
        some (format, d.contentType) ∧ p.codec format original = .ok out ∧
          p.digest.hex d.stream = p.digest.hex out)

section Provenance

variable {p : Pipeline} {events : List Event} {room : Room} {row : FileRow} {d : Download} {id : ℕ}
  {authorize : Authorize} {v : Volume} {original : Bytes}

theorem downloadAttachment_eq_ok : downloadAttachment authorize id room = .ok d ↔
    ∃ row stream, room.row? id = some row ∧ authorize row = .ok () ∧ row.scanStatus = .clean ∧
      row.disposedAt = none ∧ openBlob row.servedKey room.volume = .ok stream ∧
      d = { filename := row.originalFilename, contentType := row.contentType
            size := row.servedSize, sha256 := row.servedKey, stream := stream
            disposition := row.disposition row.contentType } := by
  simp only [downloadAttachment, bind_eq_ok, found_eq_ok]
  constructor
  · rintro ⟨row, hrow, hok⟩
    cases hauthorize : authorize row with
    | error e =>
        rw [hauthorize] at hok
        cases hok
    | ok u =>
        rw [hauthorize] at hok
        simp only [bind_eq_ok, refuse_eq_ok, not_not, pure_eq_ok] at hok
        obtain ⟨-, hclean, -, hdisposed, stream, hopen, rfl⟩ := hok
        exact ⟨row, stream, hrow, hauthorize, hclean, hdisposed, hopen, rfl⟩
  · rintro ⟨row, stream, hrow, hauthorize, hclean, hdisposed, hopen, rfl⟩
    refine ⟨row, hrow, ?_⟩
    rw [hauthorize]
    simp only [bind_eq_ok, refuse_eq_ok, not_not, pure_eq_ok]
    exact ⟨(), hclean, (), hdisposed, stream, hopen, rfl⟩

theorem not_blank_of_valid {key : String} (h : ValidKey key) : ¬ blank (some key) := by
  rintro (hnone | hempty)
  · cases hnone
  · rw [Option.some.inj hempty] at h
    exact absurd h.1 (by decide)

/-- Without a copy the original is served. -/
theorem served_of_none (h : row.copy = Copy.none) :
    row.servedKey = row.sha256 ∧ row.contentType = row.sniffedMime ∧
      row.servedSize = row.byteSize := by
  simp only [FileRow.copy, Copy.none, Prod.mk.injEq] at h
  obtain ⟨hsha, hmime, hsize⟩ := h
  refine ⟨if_pos (.inl hsha), by rw [FileRow.contentType, hmime]; rfl, ?_⟩
  rw [FileRow.servedSize, hsize]
  rfl

/-- With a copy the original is not. -/
theorem served_of_copy (h : IsCopy p v original row.sniffedMime row.copy) :
    ∃ format out blob, reencodeTable row.sniffedMime = some (format, row.contentType) ∧
      p.codec format original = .ok out ∧ v.find (p.digest.hex out) = some blob ∧
      row.servedKey = p.digest.hex out ∧ (row.servedSize = blob.length ∨ blob = []) := by
  obtain ⟨format, served, out, blob, htable, hcodec, hfind, hcopy⟩ := h
  simp only [FileRow.copy, Prod.mk.injEq] at hcopy
  obtain ⟨hsha, hmime, hsize⟩ := hcopy
  refine ⟨format, out, blob, ?_, hcodec, hfind, ?_, ?_⟩
  · rw [FileRow.contentType, hmime, htable]
    rfl
  · rw [FileRow.servedKey, hsha, if_neg (not_blank_of_valid (p.digest.valid out))]
    rfl
  · rw [FileRow.servedSize, hsize]
    by_cases hempty : blob = []
    · exact .inr hempty
    · left
      have hlength : ¬ ((some blob.length : Option ℕ) = none ∨ some blob.length = some 0) := by
        simp [hempty]
      rw [orId, if_neg hlength]
      rfl

/-- A PDF has no copy. -/
theorem copy_of_pdf (h : row.copy = Copy.none ∨ IsCopy p v original row.sniffedMime row.copy)
    (hpdf : row.sniffedMime = .pdf) : row.copy = Copy.none := by
  rcases h with hnone | ⟨format, served, out, blob, htable, -⟩
  · exact hnone
  · rw [hpdf] at htable
    cases htable

/-- What a sound room serves. -/
theorem Room.Sound.served (h : room.Sound p events)
    (hd : downloadAttachment authorize id room = .ok d) :
    ∃ row, room.row? id = some row ∧ authorize row = .ok () ∧
      Served p events room.volume row d := by
  obtain ⟨row, stream, hrow, hauthorize, hclean, -, hopen, rfl⟩ := downloadAttachment_eq_ok.1 hd
  have hsound := h.rows row (List.mem_of_getElem? (Room.row?_eq_some.1 hrow).1)
  obtain ⟨original, hfind, hsize, hjudged⟩ := hsound.body
  have hstream := (openBlob_eq_ok.1 hopen).2
  refine ⟨row, hrow, hauthorize, hsound.recorded, (h.addressed _ _ hstream).symm, ?_, ?_, ?_⟩
  · rcases hjudged.copied with hnone | hcopy
    · obtain ⟨hkey, -, hserved⟩ := served_of_none hnone
      rw [hkey, hfind] at hstream
      rw [← Option.some.inj hstream, ← hsize]
      exact .inl hserved
    · obtain ⟨format, out, blob, -, -, hblob, hkey, hserved⟩ := served_of_copy hcopy
      rw [hkey, hblob] at hstream
      rw [← Option.some.inj hstream]
      exact hserved
  · intro hgenerated
    obtain ⟨hkey, htype, -⟩ := served_of_none (hjudged.generated hgenerated).2
    exact ⟨hkey ▸ hstream, htype⟩
  · intro huploaded
    obtain ⟨hcleared, hcopy⟩ := hjudged.uploaded huploaded hclean
    refine ⟨if_neg fun hinline => ?_, original, hfind, hcleared, fun hpdf => ?_, fun himage => ?_⟩
    · exact absurd (huploaded.symm.trans hinline.1) (by decide)
    · obtain ⟨r, -, hrecords⟩ := hsound.recorded
      obtain ⟨-, -, hkind, -⟩ := validateUpload_eq_ok.1 hrecords.accepted
      have hmime : row.sniffedMime = .pdf := by
        cases hm : row.sniffedMime <;> rw [hm, hpdf] at hkind <;> first | rfl | cases hkind
      obtain ⟨hkey, htype, -⟩ := served_of_none (copy_of_pdf hjudged.copied hmime)
      rw [hkey, hfind] at hstream
      exact ⟨(Option.some.inj hstream).symm, htype.trans hmime⟩
    · obtain ⟨format, out, blob, htable, hcodec, -, hkey, -⟩ :=
        served_of_copy (hjudged.copied.resolve_left (hcopy himage))
      exact ⟨format, out, htable, hcodec, (h.addressed _ _ hstream).trans hkey⟩

/-- In any interleaving, what a download serves is the platform's own output, or was judged clean by
a scan of the run: a PDF as it was uploaded, an image only as its re-encoding. -/
theorem served_runRoom (p : Pipeline) (events : List Event) (authorize : Authorize) (id : ℕ)
    (d : Download) (h : downloadAttachment authorize id (runRoom p events) = .ok d) :
    ∃ row, (runRoom p events).row? id = some row ∧ authorize row = .ok () ∧
      Served p events (runRoom p events).volume row d :=
  (sound_runRoom p events).served h

end Provenance

/-! ## A paper that is scanned and read -/

section Steps

variable {p : Pipeline} {r : UploadRequest} {w : ValidatedUpload} {room : Room} {scanner : Scanner}
  {tx id : ℕ} {now : Time} {row : FileRow} {original : Bytes}

/-- An upload of new bytes. -/
theorem commit_upload (hvalid : validateUpload r.data p.maxBytes r.declaredMime = .ok w)
    (hnew : room.volume.find (p.digest.hex r.data) = none) :
    commit (Event.step p) room (.upload r none true) =
      { room with
        rows := room.rows ++ [r.row w { key := p.digest.hex r.data, size := r.data.length }]
        volume := room.volume.save p.digest.hex r.data } := by
  refine commit_of_ok ?_
  simp only [Event.step, uploadAttachment, hvalid, saveBlob, validateKey_of_valid (p.digest.valid _),
    hnew, ok_bind, absent]
  rfl

/-- A scan of a PDF takes the scanner's verdict. -/
theorem commit_process_pdf (hrow : room.row? id = some row) (hwaiting : row.waiting)
    (hkey : ValidKey row.sha256) (hfind : room.volume.find row.sha256 = some original)
    (hpdf : row.mediaKind = .pdf) :
    commit (Event.step p) room (.process tx id scanner none now) =
      { room with
        scans := room.scans ++
          [{ tx := tx, id := id, loaded := row, final := row.judged (scanner original) now }] } := by
  refine commit_of_ok ?_
  have himage : ¬ ((scanner original).status = .clean ∧
      (row.judged (scanner original) now).mediaKind = .image) := by
    rintro ⟨-, himage⟩
    exact absurd (hpdf.symm.trans himage) (by decide)
  simp only [Event.step, Room.process, hrow, found_some, scanRow, if_pos hwaiting,
    openBlob_eq_ok.2 ⟨hkey, hfind⟩, if_neg himage, ok_bind]
  rfl

theorem flush_judged (row : FileRow) (result : ScanResult) (now : Time) :
    row.flush (row.judged result now) row = row.judged result now := by
  simp only [FileRow.flush, column_loaded]
  rfl

end Steps

/-- `%PDF-1.7`, a line break and `%%EOF`. -/
def paper : Bytes :=
  [0x25, 0x50, 0x44, 0x46, 0x2d, 0x31, 0x2e, 0x37, 0x0a, 0x25, 0x25, 0x45, 0x4f, 0x46]

/-- The same, and a line break at the end. -/
def secondPaper : Bytes := paper ++ [0x0a]

/-- The hashes of the two; the room holds nothing else. -/
def paperHex (data : Bytes) : String :=
  if data = secondPaper then "1e7313ace78f0fb481a486939b4885902663102818090805515553d84e0bbfd3"
  else if data = paper then "d5db70fbccdd8ccc6a553604b79a09cd33083b401340d546efa08a52142c972e"
  else "0000000000000000000000000000000000000000000000000000000000000000"

theorem validKey_ofList {cs : List Char} (hlength : cs.length = keyLength)
    (hhex : cs.all (fun c => c ∈ hexDigits) = true) : ValidKey (String.ofList cs) := by
  constructor
  · rw [String.length_ofList]
    exact hlength
  · rw [String.toList_ofList]
    simpa using hhex

theorem paperHex_valid (data : Bytes) : ValidKey (paperHex data) := by
  unfold paperHex
  split_ifs
  all_goals exact validKey_ofList (by decide) (by decide)

theorem paperHex_ne : paperHex secondPaper ≠ paperHex paper := by
  rw [paperHex, paperHex, if_pos rfl, if_neg (by decide), if_pos rfl]
  decide

/-- A room for papers: no image comes in. -/
def office : Pipeline :=
  { digest := { hex := paperHex, valid := paperHex_valid }
    codec := fun _ _ => .error (.unidentifiedImage "cannot identify image file")
    maxBytes := 26214400 }

def paperUpload : UploadRequest :=
  { data := paper
    deposit := { filename := "travel-order.pdf", actorId := some 7 }
    declaredMime := some "application/pdf"
    now := 0 }

def paperKind : ValidatedUpload := { sniffedMime := .pdf, mediaKind := .pdf }

/-- The row of the paper as it was uploaded, and as it was scanned. -/
def paperRow : FileRow := paperUpload.row paperKind { key := paperHex paper, size := paper.length }

def cleanRow : FileRow :=
  paperRow.judged { status := .clean, signature := none, scannerName := "clamav" } 60

def paperVolume : Volume := ({} : Volume).save paperHex paper

/-- Uploaded, scanned by a daemon that finds nothing, and committed. -/
def paperEvents : List Event :=
  [.upload paperUpload none true, .process 1 0 (clamavScanner fun _ => .ok ("OK", none)) none 60,
    .commit 1]

theorem paper_accepted : validateUpload paper office.maxBytes (some "application/pdf") =
    .ok paperKind := validateUpload_eq_ok.2 ⟨by decide, by decide, by decide, by decide⟩

theorem find_paper : paperVolume.find (paperHex paper) = some paper :=
  (Blobs.find_save_of_none rfl _).trans (if_pos rfl)

theorem run_paperUpload : commit (Event.step office) {} (.upload paperUpload none true) =
    { rows := [paperRow], volume := paperVolume } := commit_upload paper_accepted rfl

theorem run_paperEvents : runRoom office paperEvents =
    { rows := [cleanRow], volume := paperVolume } := by
  rw [runRoom, paperEvents, run_cons, run_cons, run_cons, run_nil, run_paperUpload,
    commit_process_pdf rfl (.inl rfl) (paperHex_valid paper) find_paper rfl]
  exact congrArg (fun row => Room.mk [row] paperVolume []) (flush_judged paperRow _ 60)

/-- The paper is served by any room that holds it clean. -/
theorem download_paper : downloadAttachment (fun _ => .ok ()) 0
    { rows := [cleanRow], volume := paperVolume } =
      .ok { filename := cleanRow.originalFilename, contentType := cleanRow.contentType
            size := cleanRow.servedSize, sha256 := cleanRow.servedKey, stream := paper
            disposition := cleanRow.disposition cleanRow.contentType } :=
  downloadAttachment_eq_ok.2 ⟨cleanRow, paper, rfl, rfl, rfl, rfl,
    openBlob_eq_ok.2 ⟨paperHex_valid paper, find_paper⟩, rfl⟩

theorem paper_served : ∃ d, downloadAttachment (fun _ => .ok ()) 0 (runRoom office paperEvents) =
    .ok d ∧ d.stream = paper ∧ ∃ row, (runRoom office paperEvents).row? 0 = some row ∧
      Served office paperEvents (runRoom office paperEvents).volume row d := by
  have hd := download_paper
  rw [← run_paperEvents] at hd
  obtain ⟨row, hrow, -, hserved⟩ := served_runRoom office paperEvents _ 0 _ hd
  exact ⟨_, hd, rfl, row, hrow, hserved⟩

/-! ## A verdict that stays -/

/-- The row is judged and no open scan of it has anything to write. -/
structure Room.Settled (room : Room) (id : ℕ) (row : FileRow) : Prop where
  row : ∃ row', room.rows[id]? = some row' ∧ SameFile row row' ∧
    row'.scanStatus = row.scanStatus ∧ row'.copy = row.copy
  idle : ∀ s ∈ room.scans, s.id = id → s.final = s.loaded

section Settled

variable {p : Pipeline} {room room' : Room} {id tx : ℕ} {row : FileRow} {e : Event} {s : Scan}
  {rows : List FileRow} {v : Volume} {scans : List Scan}

theorem Room.Settled.of_row (h : room.Settled id row)
    (hrow : ∀ old, room.rows[id]? = some old → ∃ new, rows[id]? = some new ∧ SameFile old new ∧
      new.scanStatus = old.scanStatus ∧ new.copy = old.copy)
    (hscans : ∀ s ∈ scans, s.id = id → s.final = s.loaded) :
    Room.Settled { rows := rows, volume := v, scans := scans } id row := by
  obtain ⟨old, hold, hsame, hstatus, hcopy⟩ := h.row
  obtain ⟨new, hnew, hsame', hstatus', hcopy'⟩ := hrow old hold
  exact ⟨⟨new, hnew, hsame.trans hsame', hstatus'.trans hstatus, hcopy'.trans hcopy⟩, hscans⟩

theorem Room.Settled.of_eq (h : room.Settled id row) (hrow : rows[id]? = room.rows[id]?)
    (hscans : ∀ s ∈ scans, s.id = id → s.final = s.loaded) :
    Room.Settled { rows := rows, volume := v, scans := scans } id row :=
  h.of_row (fun old hold => ⟨old, hrow.trans hold, .refl old, rfl, rfl⟩) hscans

/-- A scan of another row, or one that has nothing to write. -/
theorem getElem?_write (h : s.id = id → s.final = s.loaded) : (s.write rows)[id]? = rows[id]? := by
  by_cases hid : s.id = id
  · subst hid
    rw [Scan.write, h rfl, List.getElem?_modify_eq]
    cases rows[s.id]? with
    | none => rfl
    | some current => exact congrArg some flush_self
  · exact List.getElem?_modify_ne _ _ hid

theorem getElem?_write_all (h : ∀ s ∈ scans, s.id = id → s.final = s.loaded) :
    (scans.foldl (fun rows (s : Scan) => s.write rows) rows)[id]? = rows[id]? := by
  induction scans generalizing rows with
  | nil => rfl
  | cons s scans ih =>
      rw [List.foldl_cons, ih fun s' hs' => h s' (by simp [hs']), getElem?_write (h s (by simp))]

theorem Room.Settled.step (hjudged : ¬ row.waiting) (h : room.Settled id row)
    (hok : e.step p room = .ok room') : room'.Settled id row := by
  have hlt : id < room.rows.length := by
    obtain ⟨old, hold, -⟩ := h.row
    exact (List.getElem?_eq_some_iff.1 hold).1
  have hrest : ∀ tx, ∀ s ∈ room.scans.filter (fun s => s.tx ≠ tx), s.id = id → s.final = s.loaded :=
    fun _ s hs => h.idle s (List.mem_of_mem_filter hs)
  cases e with
  | upload r writeError commits =>
      simp only [Event.step, bind_eq_ok, pure_eq_ok, Prod.exists] at hok
      obtain ⟨result, rows, v, hupload, rfl⟩ := hok
      obtain ⟨validated, stored, blob, -, rfl, -⟩ := uploadAttachment_eq_ok hupload
      refine h.of_eq ?_ h.idle
      cases commits with
      | false => rfl
      | true => exact List.getElem?_append_left hlt
  | process tx id' scanner writeError now =>
      simp only [Event.step] at hok
      cases hprocess : room.process p scanner writeError now tx id' with
      | error _ =>
          rw [hprocess] at hok
          obtain rfl := Except.ok.inj hok
          exact h.of_eq rfl (hrest tx)
      | ok room₁ =>
          rw [hprocess] at hok
          obtain rfl := Except.ok.inj hok
          simp only [Room.process, bind_eq_ok, found_eq_ok, pure_eq_ok, Prod.exists] at hprocess
          obtain ⟨loaded, hloaded, final, v, hscan, rfl⟩ := hprocess
          refine h.of_eq rfl fun s hs hid => ?_
          rcases List.mem_append.1 hs with hold | hnew
          · exact h.idle s hold hid
          · obtain rfl := List.mem_singleton.1 hnew
            obtain rfl : id' = id := hid
            obtain ⟨old, hold, -, hstatus, -⟩ := h.row
            obtain rfl := Option.some.inj ((Room.row?_eq_some.1 hloaded).1.symm.trans hold)
            -- the row it loaded is judged, so the scan leaves it as it is
            have hidle : ¬ loaded.waiting := by
              unfold FileRow.waiting at hjudged ⊢
              rwa [hstatus]
            cases scanRow_scanned hscan with
            | settled _ => rfl
            | failed _ hwaiting _ _ => exact absurd hwaiting hidle
            | judged _ _ hwaiting _ _ _ _ => exact absurd hwaiting hidle
            | sanitized _ _ _ hwaiting _ _ _ _ => exact absurd hwaiting hidle
  | commit tx =>
      obtain rfl := Except.ok.inj hok
      exact h.of_eq (getElem?_write_all fun s hs => h.idle s (List.mem_of_mem_filter hs)) (hrest tx)
  | abort tx =>
      obtain rfl := Except.ok.inj hok
      exact h.of_eq rfl (hrest tx)
  | softDelete id' =>
      simp only [Event.step, bind_eq_ok, pure_eq_ok] at hok
      obtain ⟨-, -, rfl⟩ := hok
      refine h.of_row (fun old hold => ?_) h.idle
      by_cases hid : id' = id
      · subst hid
        exact ⟨_, getElem?_modify_self _ hold, ⟨rfl, rfl, rfl, rfl, rfl, rfl, rfl⟩, rfl, rfl⟩
      · exact ⟨old, (List.getElem?_modify_ne _ _ hid).trans hold, .refl old, rfl, rfl⟩
  | startRetention holderKind holderId stamp =>
      obtain rfl := Except.ok.inj hok
      refine h.of_row (fun old hold => ⟨_, by rw [List.getElem?_map, hold]; rfl, ?_⟩) h.idle
      beta_reduce
      split_ifs
      · exact ⟨⟨rfl, rfl, rfl, rfl, rfl, rfl, rfl⟩, rfl, rfl⟩
      · exact ⟨.refl old, rfl, rfl⟩

theorem Room.Settled.run (hjudged : ¬ row.waiting) (h : room.Settled id row) (rest : List Event) :
    (Lib.run (Event.step p) room rest).Settled id row :=
  run_invariant (P := fun _ _ => True) (I := fun room => Room.Settled room id row)
    (fun _ _ _ _ hi hok => hi.step hjudged hok) rest room h (conforms_true _ _)

theorem step_keeps_volume (hok : e.step p room = .ok room') : room.volume.Keeps room'.volume := by
  cases e with
  | upload r writeError commits =>
      simp only [Event.step, bind_eq_ok, pure_eq_ok, Prod.exists] at hok
      obtain ⟨result, rows, v, hupload, rfl⟩ := hok
      obtain ⟨_, _, _, -, -, rfl, -⟩ := uploadAttachment_eq_ok hupload
      exact Blobs.keeps_save _ _ _
  | process tx id scanner writeError now =>
      simp only [Event.step] at hok
      cases hprocess : room.process p scanner writeError now tx id with
      | error _ =>
          rw [hprocess] at hok
          obtain rfl := Except.ok.inj hok
          exact .refl _
      | ok room₁ =>
          rw [hprocess] at hok
          obtain rfl := Except.ok.inj hok
          simp only [Room.process, bind_eq_ok, found_eq_ok, pure_eq_ok, Prod.exists] at hprocess
          obtain ⟨loaded, -, final, v, hscan, rfl⟩ := hprocess
          exact (scanRow_scanned hscan).keeps
  | commit tx =>
      obtain rfl := Except.ok.inj hok
      exact .refl _
  | abort tx =>
      obtain rfl := Except.ok.inj hok
      exact .refl _
  | softDelete id =>
      simp only [Event.step, bind_eq_ok, pure_eq_ok] at hok
      obtain ⟨-, -, rfl⟩ := hok
      exact .refl _
  | startRetention holderKind holderId stamp =>
      obtain rfl := Except.ok.inj hok
      exact .refl _

theorem run_keeps_volume (room : Room) (rest : List Event) :
    room.volume.Keeps (Lib.run (Event.step p) room rest).volume :=
  run_invariant (P := fun _ _ => True) (I := fun room' : Room => room.volume.Keeps room'.volume)
    (fun _ _ _ _ hi hok => hi.trans (step_keeps_volume hok)) rest room (.refl _) (conforms_true _ _)

/-- Rows that agree in the columns of the pipeline are served alike. -/
theorem served_congr {a b : FileRow} (hsame : SameFile a b) (hcopy : b.copy = a.copy) :
    b.servedKey = a.servedKey ∧ b.contentType = a.contentType ∧ b.servedSize = a.servedSize := by
  simp only [FileRow.copy, Prod.mk.injEq] at hcopy
  obtain ⟨hsha, hmime, hsize⟩ := hcopy
  refine ⟨?_, ?_, ?_⟩
  · rw [FileRow.servedKey, FileRow.servedKey, hsha, hsame.sha256]
  · rw [FileRow.contentType, FileRow.contentType, hmime, hsame.sniffedMime]
  · rw [FileRow.servedSize, FileRow.servedSize, hsize, hsame.byteSize]

/-- Once a row is judged and no scan of it is open, nothing that happens later changes the verdict or
what is served: an infected file is never served, and a clean one always as it was. -/
theorem verdict_stays (p : Pipeline) (events rest : List Event) (id : ℕ) (row : FileRow)
    (hrow : (runRoom p events).rows[id]? = some row) (hjudged : ¬ row.waiting)
    (hidle : ∀ s ∈ (runRoom p events).scans, s.id ≠ id) :
    (∃ later, (runRoom p (events ++ rest)).rows[id]? = some later ∧
      later.scanStatus = row.scanStatus) ∧
    ∀ authorize d, downloadAttachment authorize id (runRoom p (events ++ rest)) = .ok d →
      row.scanStatus = .clean ∧ ∀ authorize' d',
        downloadAttachment authorize' id (runRoom p events) = .ok d' →
          d.stream = d'.stream ∧ d.contentType = d'.contentType ∧ d.size = d'.size := by
  have hrun : runRoom p (events ++ rest) = Lib.run (Event.step p) (runRoom p events) rest :=
    run_append _ _ _
  have hstart : (runRoom p events).Settled id row :=
    ⟨⟨row, hrow, .refl row, rfl, rfl⟩, fun s hs hid => absurd hid (hidle s hs)⟩
  obtain ⟨new, hnew, hsame, hstatus, hcopy⟩ := (hstart.run (p := p) hjudged rest).row
  rw [hrun]
  refine ⟨⟨new, hnew, hstatus⟩, fun authorize d hd => ?_⟩
  obtain ⟨found, stream, hfound, -, hclean, -, hopen, rfl⟩ := downloadAttachment_eq_ok.1 hd
  obtain rfl := Option.some.inj ((Room.row?_eq_some.1 hfound).1.symm.trans hnew)
  refine ⟨hstatus.symm.trans hclean, fun authorize' d' hd' => ?_⟩
  obtain ⟨old, stream', hold, -, -, -, hopen', rfl⟩ := downloadAttachment_eq_ok.1 hd'
  obtain rfl := Option.some.inj ((Room.row?_eq_some.1 hold).1.symm.trans hrow)
  obtain ⟨hkey, htype, hsize⟩ := served_congr hsame hcopy
  refine ⟨?_, htype, hsize⟩
  have hthen := run_keeps_volume (p := p) (runRoom p events) rest _ _ (openBlob_eq_ok.1 hopen').2
  have hnow := (openBlob_eq_ok.1 hopen).2
  rw [hkey] at hnow
  exact Option.some.inj (hnow.symm.trans hthen)

/-- Scanned again, now without a scanner. -/
def scannedAgain : List Event := [.process 2 0 (nullScanner "production") none 120, .commit 2]

theorem paper_stays : (∃ later, (runRoom office (paperEvents ++ scannedAgain)).rows[0]? = some later ∧
      later.scanStatus = .clean) ∧
    ∀ authorize d, downloadAttachment authorize 0 (runRoom office (paperEvents ++ scannedAgain)) =
      .ok d → cleanRow.scanStatus = .clean ∧ ∀ authorize' d',
        downloadAttachment authorize' 0 (runRoom office paperEvents) = .ok d' →
          d.stream = d'.stream ∧ d.contentType = d'.contentType ∧ d.size = d'.size :=
  verdict_stays office paperEvents scannedAgain 0 cleanRow (by rw [run_paperEvents]; rfl) (by decide)
    (by simp [run_paperEvents])

end Settled

end OfficeConnect.Attachments
