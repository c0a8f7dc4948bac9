import OfficeConnect.Core.AttachmentLaw
import OfficeConnect.Lib.Rows

/-!
# Scans that interleave

A scan writes back only the columns it changed, onto a row that others may have written since it was
loaded.  Whatever the order: a file that reads clean was judged clean by some scan of its own bytes,
or is the platform's own; and an image is served only as its re-encoded copy.
-/

namespace OfficeConnect.Attachments

open Lib

/-! ## Where a row comes from -/

/-- The upload a row records. -/
structure Records (p : Pipeline) (r : UploadRequest) (row : FileRow) : Prop where
  accepted : validateUpload r.data p.maxBytes r.declaredMime =
    .ok { sniffedMime := row.sniffedMime, mediaKind := row.mediaKind }
  sha256 : row.sha256 = p.digest.hex r.data
  origin : row.origin = r.deposit.origin
  holderKind : row.holderKind = r.deposit.holderKind
  holderId : row.holderId = r.deposit.holderId

/-- An upload of the run. -/
def Uploaded (events : List Event) (r : UploadRequest) : Prop :=
  ∃ writeError, Event.upload r writeError true ∈ events

/-- Some scan of the run judged these bytes clean. -/
def Cleared (events : List Event) (original : Bytes) : Prop :=
  ∃ tx id scanner writeError now, Event.process tx id scanner writeError now ∈ events ∧
    (scanner original).status = .clean

/-- What the columns of a row say of the bytes behind it. -/
structure Judged (p : Pipeline) (events : List Event) (v : Volume) (row : FileRow)
    (original : Bytes) : Prop where
  generated : row.origin = .generated → row.scanStatus = .clean ∧ row.copy = Copy.none
  uploaded : row.origin = .uploaded → row.scanStatus = .clean → Cleared events original ∧
    (row.mediaKind = .image → row.copy ≠ Copy.none)
  copied : row.copy = Copy.none ∨ IsCopy p v original row.sniffedMime row.copy

structure FileRow.Sound (p : Pipeline) (events : List Event) (v : Volume) (row : FileRow) : Prop where
  recorded : ∃ r, Uploaded events r ∧ Records p r row
  body : ∃ original, v.find row.sha256 = some original ∧ row.byteSize = original.length ∧
    Judged p events v row original

/-! ## What a transaction holds -/

/-- The columns no scan writes agree. -/
structure SameFile (a b : FileRow) : Prop where
  sha256 : a.sha256 = b.sha256
  sniffedMime : a.sniffedMime = b.sniffedMime
  mediaKind : a.mediaKind = b.mediaKind
  origin : a.origin = b.origin
  byteSize : a.byteSize = b.byteSize
  holderKind : a.holderKind = b.holderKind
  holderId : a.holderId = b.holderId

/-- A scan at work: it found its row waiting, and what it is to write follows from the bytes of the
row as it is now. -/
structure AtWork (p : Pipeline) (events : List Event) (v : Volume) (s : Scan) (row : FileRow)
    (original : Bytes) : Prop where
  waiting : s.loaded.waiting
  uploaded : row.origin = .uploaded
  base : s.loaded.copy = Copy.none ∨ s.loaded.copy = row.copy
  copied : s.final.copy = s.loaded.copy ∨ IsCopy p v original row.sniffedMime s.final.copy
  cleared : s.final.scanStatus = .clean → Cleared events original ∧
    (row.mediaKind = .image → IsCopy p v original row.sniffedMime s.final.copy)

structure Scan.Sound (p : Pipeline) (events : List Event) (v : Volume) (s : Scan) (row : FileRow) :
    Prop where
  same : SameFile s.loaded row
  work : s.final = s.loaded ∨
    ∃ original, v.find row.sha256 = some original ∧ AtWork p events v s row original

structure Room.Sound (p : Pipeline) (events : List Event) (room : Room) : Prop where
  addressed : room.volume.Addressed p.digest.hex
  rows : ∀ row ∈ room.rows, row.Sound p events room.volume
  scans : ∀ s ∈ room.scans, ∃ row, room.rows[s.id]? = some row ∧ s.Sound p events room.volume row

section Flush

variable {p : Pipeline} {events : List Event} {v v' : Volume} {s s' : Scan} {row row' : FileRow}
  {loaded final current : FileRow} {original : Bytes}

theorem SameFile.refl (a : FileRow) : SameFile a a := ⟨rfl, rfl, rfl, rfl, rfl, rfl, rfl⟩

theorem SameFile.trans {a b c : FileRow} (h : SameFile a b) (h' : SameFile b c) : SameFile a c :=
  ⟨h.sha256.trans h'.sha256, h.sniffedMime.trans h'.sniffedMime, h.mediaKind.trans h'.mediaKind,
    h.origin.trans h'.origin, h.byteSize.trans h'.byteSize, h.holderKind.trans h'.holderKind,
    h.holderId.trans h'.holderId⟩

theorem SameFile.flush : SameFile current (loaded.flush final current) :=
  ⟨rfl, rfl, rfl, rfl, rfl, rfl, rfl⟩

@[simp] theorem column_self {α : Type} [DecidableEq α] (a current : α) :
    column a a current = current := if_pos rfl

@[simp] theorem column_loaded {α : Type} [DecidableEq α] (loaded final : α) :
    column loaded final loaded = final := by
  unfold column
  split_ifs with h
  · exact h.symm
  · rfl

theorem flush_self : loaded.flush loaded current = current := by simp [FileRow.flush]

theorem copy_flush_of_eq (h : final.copy = loaded.copy) :
    (loaded.flush final current).copy = current.copy := by
  simp only [FileRow.copy, Prod.mk.injEq] at h
  obtain ⟨hsha, hmime, hsize⟩ := h
  simp [FileRow.copy, FileRow.flush, hsha, hmime, hsize]

/-- A copy that is written where there was none, or over what is there. -/
theorem copy_flush_of_copy {m : Mime} (h : IsCopy p v original m final.copy)
    (hbase : loaded.copy = Copy.none ∨ loaded.copy = current.copy) :
    (loaded.flush final current).copy = final.copy := by
  rcases hbase with hnone | hcurrent
  · obtain ⟨format, served, out, blob, -, -, -, hcopy⟩ := h
    simp only [FileRow.copy, Copy.none, Prod.mk.injEq] at hcopy hnone
    obtain ⟨hsha, hmime, hsize⟩ := hcopy
    obtain ⟨hsha', hmime', hsize'⟩ := hnone
    simp [FileRow.copy, FileRow.flush, column, hsha, hmime, hsize, hsha', hmime', hsize']
  · simp only [FileRow.copy, Prod.mk.injEq] at hcurrent
    obtain ⟨hsha, hmime, hsize⟩ := hcurrent
    simp only [FileRow.copy, FileRow.flush, ← hsha, ← hmime, ← hsize, column_loaded]

theorem Judged.keeps (h : Judged p events v row original) (hv : v.Keeps v') :
    Judged p events v' row original :=
  { h with copied := h.copied.imp_right fun hcopy => hcopy.keeps hv }

theorem FileRow.Sound.keeps (h : row.Sound p events v) (hv : v.Keeps v') :
    row.Sound p events v' := by
  obtain ⟨original, hfind, hsize, hjudged⟩ := h.body
  exact ⟨h.recorded, original, hv _ _ hfind, hsize, hjudged.keeps hv⟩

theorem Scan.Sound.keeps (h : s.Sound p events v row) (hv : v.Keeps v') :
    s.Sound p events v' row := by
  refine ⟨h.same, h.work.imp_right fun ⟨original, hfind, hwork⟩ => ⟨original, hv _ _ hfind, ?_⟩⟩
  exact { hwork with
    copied := hwork.copied.imp_right fun hcopy => hcopy.keeps hv
    cleared := fun hclean => (hwork.cleared hclean).imp_right fun himage hkind =>
      (himage hkind).keeps hv }

/-- A row whose pipeline columns stayed. -/
theorem FileRow.Sound.of_same (h : row.Sound p events v) (hsame : SameFile row row')
    (hstatus : row'.scanStatus = row.scanStatus) (hcopy : row'.copy = row.copy) :
    row'.Sound p events v := by
  obtain ⟨r, hr, hrecords⟩ := h.recorded
  obtain ⟨original, hfind, hsize, hjudged⟩ := h.body
  refine ⟨⟨r, hr, ?_⟩, original, ?_, hsame.byteSize ▸ hsize, ?_⟩
  · exact {
      accepted := by rw [hrecords.accepted, hsame.sniffedMime, hsame.mediaKind]
      sha256 := hsame.sha256 ▸ hrecords.sha256
      origin := hsame.origin ▸ hrecords.origin
      holderKind := hsame.holderKind ▸ hrecords.holderKind
      holderId := hsame.holderId ▸ hrecords.holderId }
  · rw [← hsame.sha256, hfind]
  · exact {
      generated := by
        rw [← hsame.origin, hstatus, hcopy]
        exact hjudged.generated
      uploaded := by
        rw [← hsame.origin, hstatus, ← hsame.mediaKind, hcopy]
        exact hjudged.uploaded
      copied := by
        rw [← hsame.sniffedMime, hcopy]
        exact hjudged.copied }

theorem Scan.Sound.of_same (h : s.Sound p events v row) (hsame : SameFile row row')
    (hcopy : row'.copy = row.copy) : s.Sound p events v row' := by
  refine ⟨h.same.trans hsame, h.work.imp_right fun ⟨original, hfind, hwork⟩ => ⟨original, ?_, ?_⟩⟩
  · rw [← hsame.sha256, hfind]
  · exact {
      waiting := hwork.waiting
      uploaded := hsame.origin ▸ hwork.uploaded
      base := by
        rw [hcopy]
        exact hwork.base
      copied := by
        rw [← hsame.sniffedMime]
        exact hwork.copied
      cleared := by
        rw [← hsame.sniffedMime, ← hsame.mediaKind]
        exact hwork.cleared }

/-- What a scan at work leaves in the copy columns: what was there, or the copy. -/
theorem AtWork.copy (h : AtWork p events v s row original) :
    (s.loaded.flush s.final row).copy = row.copy ∨
      IsCopy p v original row.sniffedMime (s.loaded.flush s.final row).copy := by
  rcases h.copied with hsame | hcopy
  · exact .inl (copy_flush_of_eq hsame)
  · right
    rw [copy_flush_of_copy hcopy h.base]
    exact hcopy

/-- A scan that writes back leaves a sound row. -/
theorem FileRow.Sound.flush (h : row.Sound p events v) (hs : s.Sound p events v row) :
    (s.loaded.flush s.final row).Sound p events v := by
  rcases hs.work with hidle | ⟨original, hfind, hwork⟩
  · rw [hidle, flush_self]
    exact h
  obtain ⟨r, hr, hrecords⟩ := h.recorded
  obtain ⟨original', hfind', hsize, hjudged⟩ := h.body
  obtain rfl := Option.some.inj (hfind.symm.trans hfind')
  refine ⟨⟨r, hr, ⟨hrecords.accepted, hrecords.sha256, hrecords.origin, hrecords.holderKind,
    hrecords.holderId⟩⟩, original, hfind, hsize, ?_⟩
  refine { generated := fun hgenerated => ?_, uploaded := fun _ hclean => ?_, copied := ?_ }
  · exact absurd (hwork.uploaded.symm.trans hgenerated) (by decide)
  · have hold : row.scanStatus = .clean → Cleared events original ∧
        (row.mediaKind = .image → (s.loaded.flush s.final row).copy ≠ Copy.none) := by
      intro hrow
      obtain ⟨hcleared, hcopy⟩ := hjudged.uploaded hwork.uploaded hrow
      refine ⟨hcleared, fun hkind => ?_⟩
      rcases hwork.copy with hsame | hnew
      · rw [hsame]
        exact hcopy hkind
      · exact hnew.ne_none
    have hstatus : column s.loaded.scanStatus s.final.scanStatus row.scanStatus = .clean := hclean
    unfold column at hstatus
    split_ifs at hstatus
    · exact hold hstatus
    · obtain ⟨hcleared, hcopy⟩ := hwork.cleared hstatus
      refine ⟨hcleared, fun hkind => ?_⟩
      rw [copy_flush_of_copy (hcopy hkind) hwork.base]
      exact (hcopy hkind).ne_none
  · rcases hwork.copy with hsame | hnew
    · show (s.loaded.flush s.final row).copy = _ ∨ IsCopy p v original row.sniffedMime _
      rw [hsame]
      exact hjudged.copied
    · exact .inr hnew

/-- The other scans of the row stay sound. -/
theorem Scan.Sound.flush (h : s'.Sound p events v row) (hrow : row.Sound p events v)
    (hs : s.Sound p events v row) : s'.Sound p events v (s.loaded.flush s.final row) := by
  rcases hs.work with hidle | ⟨original, hfind, hwork⟩
  · rw [hidle, flush_self]
    exact h
  refine ⟨h.same.trans .flush, h.work.imp_right fun ⟨original', hfind', hwork'⟩ =>
    ⟨original', hfind', ?_⟩⟩
  obtain rfl := Option.some.inj (hfind.symm.trans hfind')
  refine { hwork' with base := ?_ }
  rcases hwork'.base with hnone | hcurrent
  · exact .inl hnone
  · rcases hwork.copy with hsame | hnew
    · exact .inr (hcurrent.trans hsame.symm)
    · obtain ⟨original', hfind', -, hjudged⟩ := hrow.body
      obtain rfl := Option.some.inj (hfind.symm.trans hfind')
      -- a copy that was there already is the one the bytes determine
      rcases hjudged.copied with hplain | hold
      · exact .inl (hcurrent.trans hplain)
      · exact .inr (hcurrent.trans (hold.unique hnew))

end Flush

/-! ## Every step -/

section Steps

variable {p : Pipeline} {events : List Event} {room room' : Room} {e : Event} {s : Scan}
  {row row' : FileRow} {id tx : ℕ}

theorem Room.row?_eq_some : room.row? id = some row ↔
    room.rows[id]? = some row ∧ row.deleted = false := by
  simp only [Room.row?, Option.filter_eq_some_iff, Bool.not_eq_true, decide_eq_true_eq]

theorem Room.Sound.rollback (h : room.Sound p events) (tx : ℕ) :
    (room.rollback tx).Sound p events :=
  { h with scans := fun s hs => h.scans s (List.mem_of_mem_filter hs) }

/-- Rows rewritten in place, each still sound and still what its scans need. -/
theorem Room.Sound.of_rows {rows : List FileRow} (h : room.Sound p events)
    (hrows : ∀ n row', rows[n]? = some row' → ∃ row, room.rows[n]? = some row ∧
      row'.Sound p events room.volume ∧
      ∀ s : Scan, s.id = n → s.Sound p events room.volume row → s.Sound p events room.volume row')
    (hlength : rows.length = room.rows.length) : { room with rows := rows }.Sound p events where
  addressed := h.addressed
  rows := by
    intro row' hrow'
    obtain ⟨n, hn⟩ := List.mem_iff_getElem?.1 hrow'
    obtain ⟨row, -, hsound, -⟩ := hrows n row' hn
    exact hsound
  scans := by
    intro s hs
    obtain ⟨row, hrow, hsound⟩ := h.scans s hs
    have hlt : s.id < rows.length := hlength ▸ (List.getElem?_eq_some_iff.1 hrow).1
    obtain ⟨row', hrow', -, hkeep⟩ := hrows s.id rows[s.id] (List.getElem?_eq_getElem hlt)
    obtain rfl := Option.some.inj (hrow.symm.trans hrow')
    exact ⟨rows[s.id], List.getElem?_eq_getElem hlt, hkeep s rfl hsound⟩

/-- One scan written back. -/
theorem Room.Sound.write (h : room.Sound p events) (hs : s ∈ room.scans) :
    { room with rows := s.write room.rows }.Sound p events := by
  refine h.of_rows (fun n row' hn => ?_) (List.length_modify _ _ _)
  obtain ⟨row, hrow, hsound⟩ := h.scans s hs
  have hold := h.rows row (List.mem_of_getElem? hrow)
  rcases getElem?_modify_eq_some hn with ⟨rfl, row₀, hrow₀, rfl⟩ | ⟨-, hrow'⟩
  · obtain rfl := Option.some.inj (hrow.symm.trans hrow₀)
    exact ⟨row, hrow, hold.flush hsound, fun s' _ hs' => hs'.flush hold hsound⟩
  · exact ⟨row', hrow', h.rows row' (List.mem_of_getElem? hrow'), fun s' _ hs' => hs'⟩

theorem Room.Sound.write_all {scans : List Scan} (h : room.Sound p events)
    (hscans : ∀ s ∈ scans, s ∈ room.scans) :
    { room with rows := scans.foldl (fun rows (s : Scan) => s.write rows) room.rows }.Sound
      p events := by
  induction scans generalizing room with
  | nil => exact h
  | cons s scans ih =>
      have hfirst := h.write (hscans s (by simp))
      exact ih hfirst fun s' hs' => hscans s' (by simp [hs'])

theorem Room.Sound.commit (h : room.Sound p events) (tx : ℕ) : (room.commit tx).Sound p events :=
  (h.write_all fun _ hs => List.mem_of_mem_filter hs).rollback tx

/-- A row that changes in no column of the pipeline. -/
theorem Room.Sound.touch {f : FileRow → FileRow} (h : room.Sound p events)
    (hsame : ∀ row, SameFile row (f row)) (hstatus : ∀ row, (f row).scanStatus = row.scanStatus)
    (hcopy : ∀ row, (f row).copy = row.copy) :
    { room with rows := room.rows.map f }.Sound p events := by
  refine h.of_rows (fun n row' hn => ?_) (List.length_map f)
  rw [List.getElem?_map, Option.map_eq_some_iff] at hn
  obtain ⟨row, hrow, rfl⟩ := hn
  have hold := h.rows row (List.mem_of_getElem? hrow)
  exact ⟨row, hrow, hold.of_same (hsame row) (hstatus row) (hcopy row),
    fun s' _ hs' => hs'.of_same (hsame row) (hcopy row)⟩

/-- An upload that returns: its bytes are on the volume, and its row is the last. -/
theorem uploadAttachment_eq_ok {writeError : Option String} {r : UploadRequest}
    {rows rows' : List FileRow} {v v' : Volume} {result : UploadResult}
    (h : uploadAttachment p writeError r rows v = .ok (result, rows', v')) :
    ∃ validated stored blob, validateUpload r.data p.maxBytes r.declaredMime = .ok validated ∧
      rows' = rows ++ [r.row validated stored] ∧ v' = v.save p.digest.hex r.data ∧
      stored.key = p.digest.hex r.data ∧ v'.find stored.key = some blob ∧
      stored.size = blob.length := by
  simp only [uploadAttachment, bind_eq_ok, pure_eq_ok, Prod.exists, Prod.mk.injEq] at h
  obtain ⟨validated, hvalidated, stored, v₁, hsave, -, rfl, rfl⟩ := h
  obtain ⟨hv, hkey, blob, hblob, hsize⟩ := saveBlob_ok hsave
  exact ⟨validated, stored, blob, hvalidated, rfl, hv, hkey, hblob, hsize⟩

/-- The row of an upload: waiting, or the platform's own and clean. -/
theorem sound_uploaded {r : UploadRequest} {validated : ValidatedUpload} {stored : StoredObject}
    {blob : Bytes} {v : Volume} (hr : Uploaded events r)
    (hvalidated : validateUpload r.data p.maxBytes r.declaredMime = .ok validated)
    (hkey : stored.key = p.digest.hex r.data) (hblob : v.find stored.key = some blob)
    (hsize : stored.size = blob.length) : (r.row validated stored).Sound p events v := by
  refine ⟨⟨r, hr, hvalidated, hkey, rfl, rfl, rfl⟩, blob, hblob, hsize, ?_⟩
  refine { generated := fun hgenerated => ⟨if_pos hgenerated, rfl⟩, uploaded := fun hup hclean => ?_, copied := .inl rfl }
  have hpending : (r.row validated stored).scanStatus = .pending := by
    have horigin : r.deposit.origin = .uploaded := hup
    exact if_neg (by rw [horigin]; decide)
  rw [hpending] at hclean
  cases hclean

theorem Room.Sound.upload {writeError : Option String} {r : UploadRequest} {commits : Bool}
    (h : room.Sound p events) (hr : commits = true → Uploaded events r)
    (hok : (Event.upload r writeError commits).step p room = .ok room') : room'.Sound p events := by
  simp only [Event.step, bind_eq_ok, pure_eq_ok, Prod.exists] at hok
  obtain ⟨result, rows, v, hupload, rfl⟩ := hok
  obtain ⟨validated, stored, blob, hvalidated, rfl, rfl, hkey, hblob, hsize⟩ :=
    uploadAttachment_eq_ok hupload
  have hkeeps := Blobs.keeps_save p.digest.hex room.volume r.data
  refine { addressed := h.addressed.save r.data, rows := fun row hrow => ?_, scans := fun s hs => ?_ }
  · cases commits with
    | false => exact (h.rows row hrow).keeps hkeeps
    | true =>
        rcases List.mem_append.1 hrow with hold | hnew
        · exact (h.rows row hold).keeps hkeeps
        · obtain rfl := List.mem_singleton.1 hnew
          exact sound_uploaded (hr rfl) hvalidated hkey hblob hsize
  · obtain ⟨row, hrow, hsound⟩ := h.scans s hs
    refine ⟨row, ?_, hsound.keeps hkeeps⟩
    cases commits with
    | false => exact hrow
    | true =>
        show (room.rows ++ _)[s.id]? = some row
        rw [List.getElem?_append_left (List.getElem?_eq_some_iff.1 hrow).1, hrow]

/-- A scan that was just made of the row it loaded. -/
theorem Scan.sound_of_scanned {v v' : Volume} {scanner : Scanner} {final : FileRow}
    (hrow : row.Sound p events v) (hscanned : Scanned p scanner row v final v')
    (hcleared : ∀ original, (scanner original).status = .clean → Cleared events original) :
    Scan.Sound p events v' { tx := tx, id := id, loaded := row, final := final } row := by
  refine ⟨.refl row, ?_⟩
  obtain ⟨original, hfind, -, hjudged⟩ := hrow.body
  have huploaded : row.waiting → row.origin = .uploaded := by
    intro hwaiting
    cases horigin : row.origin with
    | uploaded => rfl
    | generated =>
        have hclean := (hjudged.generated horigin).1
        rcases hwaiting with h | h <;> rw [hclean] at h <;> cases h
  cases hscanned with
  | settled h => exact .inl rfl
  | failed final hwaiting hstatus hcopy =>
      refine .inr ⟨original, hfind, hwaiting, huploaded hwaiting, .inr rfl, .inl hcopy, fun hclean => ?_⟩
      rw [hstatus] at hclean
      cases hclean
  | judged final original' hwaiting hfind' hstatus hplain hcopy =>
      obtain rfl := Option.some.inj (hfind.symm.trans hfind')
      refine .inr ⟨original, hfind, hwaiting, huploaded hwaiting, .inr rfl, .inl hcopy, fun hclean => ?_⟩
      have hverdict : (scanner original).status = .clean := by
        cases hresult : (scanner original).status with
        | clean => rfl
        | infected =>
            rw [hstatus, hresult] at hclean
            cases hclean
        | error =>
            rw [hstatus, hresult] at hclean
            cases hclean
      exact ⟨hcleared original hverdict, fun himage => absurd himage (hplain hverdict)⟩
  | sanitized final original' out hwaiting hfind' hstatus hclean hcopy =>
      obtain rfl := Option.some.inj (hfind.symm.trans hfind')
      exact .inr ⟨original, Blobs.keeps_save _ _ _ _ _ hfind, hwaiting, huploaded hwaiting, .inr rfl,
        .inr hcopy, fun _ => ⟨hcleared original hclean, fun _ => hcopy⟩⟩

theorem Room.Sound.process {scanner : Scanner} {writeError : Option String} {now : Time}
    (h : room.Sound p events)
    (hcleared : ∀ original, (scanner original).status = .clean → Cleared events original)
    (hok : room.process p scanner writeError now tx id = .ok room') : room'.Sound p events := by
  simp only [Room.process, bind_eq_ok, found_eq_ok, pure_eq_ok, Prod.exists, Room.row?_eq_some] at hok
  obtain ⟨row, ⟨hrow, -⟩, final, v, hscan, rfl⟩ := hok
  have hscanned := scanRow_scanned hscan
  have hold := h.rows row (List.mem_of_getElem? hrow)
  refine { addressed := hscanned.addressed h.addressed, rows := fun row' hrow' => ?_, scans := fun s hs => ?_ }
  · exact (h.rows row' hrow').keeps hscanned.keeps
  · rcases List.mem_append.1 hs with hs | hs
    · obtain ⟨row', hrow', hsound⟩ := h.scans s hs
      exact ⟨row', hrow', hsound.keeps hscanned.keeps⟩
    · obtain rfl := List.mem_singleton.1 hs
      exact ⟨row, hrow, Scan.sound_of_scanned hold hscanned hcleared⟩

/-- Whatever happens next, the room stays sound. -/
theorem Room.Sound.step (h : room.Sound p events) (he : e ∈ events)
    (hok : e.step p room = .ok room') : room'.Sound p events := by
  cases e with
  | upload r writeError commits =>
      refine h.upload (fun hcommits => ?_) hok
      subst hcommits
      exact ⟨writeError, he⟩
  | process tx id scanner writeError now =>
      simp only [Event.step] at hok
      cases hprocess : room.process p scanner writeError now tx id with
      | ok room₁ =>
          rw [hprocess] at hok
          obtain rfl := Except.ok.inj hok
          exact h.process (fun original hclean => ⟨tx, id, scanner, writeError, now, he, hclean⟩) hprocess
      | error _ =>
          rw [hprocess] at hok
          obtain rfl := Except.ok.inj hok
          exact h.rollback tx
  | commit tx =>
      obtain rfl := Except.ok.inj hok
      exact h.commit tx
  | abort tx =>
      obtain rfl := Except.ok.inj hok
      exact h.rollback tx
  | softDelete id =>
      simp only [Event.step, bind_eq_ok, pure_eq_ok] at hok
      obtain ⟨-, -, rfl⟩ := hok
      refine h.of_rows (fun n row' hn => ?_) (List.length_modify _ _ _)
      rcases getElem?_modify_eq_some hn with ⟨rfl, row, hrow, rfl⟩ | ⟨-, hrow'⟩
      · have hold := h.rows row (List.mem_of_getElem? hrow)
        exact ⟨row, hrow, hold.of_same ⟨rfl, rfl, rfl, rfl, rfl, rfl, rfl⟩ rfl rfl,
          fun s' _ hs' => hs'.of_same ⟨rfl, rfl, rfl, rfl, rfl, rfl, rfl⟩ rfl⟩
      · exact ⟨row', hrow', h.rows row' (List.mem_of_getElem? hrow'), fun s' _ hs' => hs'⟩
  | startRetention holderKind holderId stamp =>
      obtain rfl := Except.ok.inj hok
      refine h.touch (fun row => ?_) (fun row => ?_) fun row => ?_
      all_goals split_ifs
      all_goals first | exact ⟨rfl, rfl, rfl, rfl, rfl, rfl, rfl⟩ | rfl

theorem sound_runRoom (p : Pipeline) (events : List Event) : (runRoom p events).Sound p events := by
  have hstart : Room.Sound p events {} :=
    { addressed := Blobs.addressed_empty, rows := by simp, scans := by simp }
  exact run_invariant (P := fun _ e => e ∈ events) (I := Room.Sound p events)
    (fun _ _ _ he h hok => h.step he hok) events {} hstart
    (conforms_of_forall (P := fun e => e ∈ events) (fun _ he => he) _)

end Steps

end OfficeConnect.Attachments
