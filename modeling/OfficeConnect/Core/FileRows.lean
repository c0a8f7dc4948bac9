import OfficeConnect.Core.ScanRoom

/-!
# The rows behind the bytes

Where scans do not overlap, the service does to its rows what the row-level operations say: the
verdict of the pipeline on type and size, the hash of the bytes, and the status a scan ends with are
all they need to know.
-/

namespace OfficeConnect.Attachments

open Lib

/-- The rows without the columns of the pipeline. -/
def Room.files (room : Room) : List Attachment := room.rows.map (·.toAttachment)

/-- A call of the service with nothing in between. -/
inductive Visit where
  | upload (r : UploadRequest) (writeError : Option String)
  | scan (id : ℕ) (scanner : Scanner) (writeError : Option String) (now : Time)
  | softDelete (id : ℕ)
  | startRetention (holderKind : String) (holderId : ℕ) (stamp : Time)

def Visit.step (p : Pipeline) : Visit → Room → Except Failure Room
  | .upload r writeError, room => (Event.upload r writeError true).step p room
  | .scan id scanner writeError now, room => do
      let room ← room.process p scanner writeError now 0 id
      return room.commit 0
  | .softDelete id, room => (Event.softDelete id).step p room
  | .startRetention holderKind holderId stamp, room =>
      (Event.startRetention holderKind holderId stamp).step p room

/-- A row-level operation. -/
inductive Filing where
  | upload (data : Upload) (r : Deposit)
  | process (id : ℕ) (verdict : ScanStatus)
  | softDelete (id : ℕ)
  | startRetention (holderKind : String) (holderId : ℕ) (stamp : Time)

def Filing.step : Filing → List Attachment → Except Raised (List Attachment)
  | .upload data r, rows => Prod.snd <$> OfficeConnect.uploadAttachment data r rows
  | .process id verdict, rows => return processAttachment id verdict rows
  | .softDelete id, rows => softDeleteAttachment id rows
  | .startRetention holderKind holderId stamp, rows =>
      return (OfficeConnect.startRetention holderKind holderId stamp rows).2

/-- The bytes of an upload as its row records them. -/
def UploadRequest.seen (p : Pipeline) (v : Volume) (r : UploadRequest) : Upload :=
  { sha256 := p.digest.hex r.data
    byteSize := ((v.find (p.digest.hex r.data)).getD r.data).length
    allowed := (validateUpload r.data p.maxBytes r.declaredMime).toOption.isSome }

/-- The status a scan of the row ends with. -/
def Room.verdict (p : Pipeline) (scanner : Scanner) (writeError : Option String) (now : Time)
    (id : ℕ) (room : Room) : ScanStatus :=
  ((room.row? id).bind fun row => (scanRow p scanner writeError now row room.volume).toOption).elim
    .pending fun r => r.1.scanStatus

def Visit.seen (p : Pipeline) (room : Room) : Visit → Filing
  | .upload r _ => .upload (r.seen p room.volume) r.deposit
  | .scan id scanner writeError now => .process id (room.verdict p scanner writeError now id)
  | .softDelete id => .softDelete id
  | .startRetention holderKind holderId stamp => .startRetention holderKind holderId stamp

/-- The calls that returned, each as the room it found lets it be seen. -/
def seenAll (p : Pipeline) : Room → List Visit → List Filing
  | _, [] => []
  | room, visit :: rest =>
      match visit.step p room with
      | .ok room' => visit.seen p room :: seenAll p room' rest
      | .error _ => seenAll p room rest

section Seen

variable {p : Pipeline} {room room' : Room} {visit : Visit}

/-- A rewrite of one row, seen from its columns. -/
theorem map_modify_at {α β : Type} {f : α → α} {g : α → β} {h : β → β} {l : List α} {n : ℕ} {a : α}
    (ha : l[n]? = some a) (hg : g (f a) = h (g a)) :
    (l.modify n f).map g = (l.map g).modify n h := by
  have hb : (l.map g)[n]? = some (g a) := by rw [List.getElem?_map, ha, Option.map_some]
  refine List.ext_getElem? fun m => ?_
  by_cases hm : n = m
  · subst hm
    rw [List.getElem?_map, getElem?_modify_self f ha, getElem?_modify_self h hb, Option.map_some, hg]
  · rw [List.getElem?_map, List.getElem?_modify_ne _ _ hm, List.getElem?_modify_ne _ _ hm,
      List.getElem?_map]

/-- A scan changes no column of the row-level view but the status. -/
theorem toAttachment_flush (row final : FileRow) : (row.flush final row).toAttachment =
    { row.toAttachment with scanStatus := final.scanStatus } := by
  simp only [FileRow.flush, column_loaded]

theorem Room.files_scan {scanner : Scanner} {writeError : Option String} {now : Time} {id : ℕ}
    (hidle : room.scans = [])
    (h : (Visit.scan id scanner writeError now).step p room = .ok room') :
    room'.scans = [] ∧
      room'.files = processAttachment id (room.verdict p scanner writeError now id) room.files := by
  simp only [Visit.step, Room.process, bind_eq_ok, found_eq_ok, pure_eq_ok, Prod.exists] at h
  obtain ⟨room₁, ⟨row, hrow, final, v, hscan, rfl⟩, rfl⟩ := h
  obtain ⟨hget, hlive⟩ := Room.row?_eq_some.1 hrow
  have hverdict : room.verdict p scanner writeError now id = final.scanStatus := by
    rw [Room.verdict, hrow, Option.bind_some, hscan]
    rfl
  rw [hidle, hverdict]
  refine ⟨rfl, map_modify_at hget ?_⟩
  by_cases hwaiting : row.waiting
  · rw [if_pos ⟨hlive, hwaiting⟩]
    exact toAttachment_flush row final
  · rw [scanRow, if_neg hwaiting] at hscan
    obtain ⟨rfl, -⟩ := Prod.mk.inj (Except.ok.inj hscan)
    rw [if_neg fun h => hwaiting h.2]
    exact congrArg _ flush_self

theorem Room.files_upload {r : UploadRequest} {writeError : Option String} (hidle : room.scans = [])
    (h : (Visit.upload r writeError).step p room = .ok room') :
    room'.scans = [] ∧ OfficeConnect.uploadAttachment (r.seen p room.volume) r.deposit room.files =
      .ok (room.files.length, room'.files) := by
  simp only [Visit.step, Event.step, bind_eq_ok, pure_eq_ok, Prod.exists] at h
  obtain ⟨result, rows, v, hupload, rfl⟩ := h
  simp only [uploadAttachment, bind_eq_ok, pure_eq_ok, Prod.exists, Prod.mk.injEq] at hupload
  obtain ⟨validated, hvalidated, stored, v₁, hsave, -, rfl, rfl⟩ := hupload
  refine ⟨hidle, ?_⟩
  have hstored : stored.key = p.digest.hex r.data ∧
      stored.size = ((room.volume.find (p.digest.hex r.data)).getD r.data).length := by
    rw [saveBlob, validateKey_of_valid (p.digest.valid r.data)] at hsave
    simp only [ok_bind] at hsave
    cases hfind : room.volume.find (p.digest.hex r.data) with
    | some blob =>
        simp only [hfind, pure_eq_ok, Prod.mk.injEq] at hsave
        obtain ⟨rfl, -⟩ := hsave
        exact ⟨rfl, rfl⟩
    | none =>
        simp only [hfind, bind_eq_ok, pure_eq_ok, Prod.mk.injEq] at hsave
        obtain ⟨-, -, rfl, -⟩ := hsave
        exact ⟨rfl, rfl⟩
  have hallowed : (r.seen p room.volume).allowed = true := by
    rw [UploadRequest.seen, hvalidated]
    rfl
  rw [OfficeConnect.uploadAttachment, refuse_of_not _ (by simp [hallowed])]
  simp only [ok_bind, if_true, Room.files, List.map_append, List.map_cons, List.map_nil]
  have hrow : (r.row validated stored).toAttachment = r.deposit.row (r.seen p room.volume) := by
    simp only [UploadRequest.row, Deposit.row, UploadRequest.seen, hstored]
  rw [hrow]
  rfl

/-- A call that returns is the row-level operation it is seen as. -/
theorem Visit.step_seen (hidle : room.scans = []) (h : visit.step p room = .ok room') :
    room'.scans = [] ∧ (visit.seen p room).step room.files = .ok room'.files := by
  cases visit with
  | upload r writeError =>
      obtain ⟨hscans, hupload⟩ := Room.files_upload hidle h
      exact ⟨hscans, by rw [Visit.seen, Filing.step, hupload]; rfl⟩
  | scan id scanner writeError now =>
      obtain ⟨hscans, hfiles⟩ := Room.files_scan hidle h
      exact ⟨hscans, congrArg _ hfiles.symm⟩
  | softDelete id =>
      simp only [Visit.step, Event.step, bind_eq_ok, found_eq_ok, pure_eq_ok] at h
      obtain ⟨row, hrow, rfl⟩ := h
      obtain ⟨hget, hlive⟩ := Room.row?_eq_some.1 hrow
      refine ⟨hidle, ?_⟩
      have hfile : room.files[id]? = some row.toAttachment := by
        rw [Room.files, List.getElem?_map, hget, Option.map_some]
      simp only [Visit.seen, Filing.step, softDeleteAttachment, hfile, found_some, ok_bind]
      rw [refuse_of_not _ (by simp [hlive])]
      refine congrArg Except.ok (map_modify_at hget ?_).symm
      rfl
  | startRetention holderKind holderId stamp =>
      obtain rfl := Except.ok.inj h
      refine ⟨hidle, congrArg Except.ok ?_⟩
      simp only [OfficeConnect.startRetention, Room.files, List.map_map]
      refine List.map_congr_left fun row _ => ?_
      simp only [Function.comp_apply]
      split_ifs <;> rfl

theorem files_run (hidle : room.scans = []) (visits : List Visit) :
    (Lib.run (Visit.step p) room visits).files =
      Lib.run Filing.step room.files (seenAll p room visits) := by
  induction visits generalizing room with
  | nil => rfl
  | cons visit rest ih =>
      rw [run_cons, seenAll]
      cases hstep : visit.step p room with
      | ok room' =>
          obtain ⟨hidle', hfiling⟩ := Visit.step_seen hidle hstep
          rw [commit_of_ok hstep, ih hidle', run_cons, commit_of_ok hfiling]
      | error e =>
          have hsame : Lib.commit (Visit.step p) room visit = room := by rw [Lib.commit, hstep]
          rw [hsame, ih hidle]

/-- In every run of the service in which scans do not overlap, the rows are what the row-level
operations make of the calls that returned. -/
theorem files_runVisits (p : Pipeline) (visits : List Visit) :
    (Lib.run (Visit.step p) {} visits).files = Lib.run Filing.step [] (seenAll p {} visits) :=
  files_run rfl visits

end Seen

end OfficeConnect.Attachments
