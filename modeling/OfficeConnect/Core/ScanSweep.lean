import OfficeConnect.Core.Downloads
import OfficeConnect.Lib.Batches

/-!
# The sweep of waiting scans

The beat task scans the first `limit` waiting rows by id and commits once.  A row whose scan ends in
error waits again, at its old place: enough of them in front keep the sweep from the rows behind.  An
image on which the codec raises what the service does not catch undoes the whole sweep, each time.
-/

namespace OfficeConnect.Attachments

open Lib

/-- The ids of the live rows that wait, in order. -/
def Room.waitingIds (room : Room) : List ℕ :=
  (List.range room.rows.length).filter fun id => (room.row? id).any fun row => row.waiting

/-- The loop of the sweep within its transaction, up to the first failure. -/
def Room.processAll (p : Pipeline) (scanner : Scanner) (writeError : Option String) (now : Time)
    (tx : ℕ) : List ℕ → Room → Room × Option Failure
  | [], room => (room, none)
  | id :: ids, room =>
      match room.process p scanner writeError now tx id with
      | .ok room' => Room.processAll p scanner writeError now tx ids room'
      | .error e => (room, some e)

/-- `_scan_pending` and its commit; a failure rolls the transaction back, but not the volume. -/
def Room.scanPending (p : Pipeline) (scanner : Scanner) (writeError : Option String) (tx limit : ℕ)
    (now : Time) (room : Room) : Room :=
  match Room.processAll p scanner writeError now tx (room.waitingIds.take limit) room with
  | (room', none) => room'.commit tx
  | (room', some _) => room'.rollback tx

/-- The re-encoding is refused with a `RejectedUpload`. -/
def refused : Except ReencodeError (Bytes × Mime) → Bool
  | .error (.rejected _) => true
  | _ => false

/-- The re-encoding raises what nobody catches. -/
def escaped : Except ReencodeError (Bytes × Mime) → Bool
  | .error (.uncaught _) => true
  | _ => false

/-- The scan of these bytes comes to the re-encoding of an image. -/
def Reencodes (scanner : Scanner) (row : FileRow) (original : Bytes) : Prop :=
  (scanner original).status = .clean ∧ row.mediaKind = .image

instance (scanner : Scanner) (row : FileRow) (original : Bytes) :
    Decidable (Reencodes scanner row original) := inferInstanceAs (Decidable (_ ∧ _))

/-- The scan of these bytes ends in error. -/
def Errs (p : Pipeline) (scanner : Scanner) (row : FileRow) (original : Bytes) : Prop :=
  (scanner original).status = .error ∨
    Reencodes scanner row original ∧ refused (reencodeImage p original row.sniffedMime) = true

instance (p : Pipeline) (scanner : Scanner) (row : FileRow) (original : Bytes) :
    Decidable (Errs p scanner row original) := inferInstanceAs (Decidable (_ ∨ _))

/-- The scan of these bytes raises. -/
def Breaks (p : Pipeline) (scanner : Scanner) (row : FileRow) (original : Bytes) : Prop :=
  Reencodes scanner row original ∧ escaped (reencodeImage p original row.sniffedMime) = true

instance (p : Pipeline) (scanner : Scanner) (row : FileRow) (original : Bytes) :
    Decidable (Breaks p scanner row original) := inferInstanceAs (Decidable (_ ∧ _))

/-- What holds of the row with this id and its bytes. -/
def Room.holds (q : FileRow → Bytes → Bool) (room : Room) (id : ℕ) : Bool :=
  (room.row? id).any fun row => (room.volume.find row.sha256).any (q row)

/-- The scan of the row ends in error. -/
def Room.errs (p : Pipeline) (scanner : Scanner) (room : Room) (id : ℕ) : Bool :=
  room.holds (fun row original => Errs p scanner row original) id

/-- The scan of the row raises. -/
def Room.breaks (p : Pipeline) (scanner : Scanner) (room : Room) (id : ℕ) : Bool :=
  room.holds (fun row original => Breaks p scanner row original) id

/-- The sweeps of the beat, one at each time. -/
def Room.sweeps (p : Pipeline) (scanner : Scanner) (tx limit : ℕ) (room : Room) (times : List Time) :
    Room :=
  times.foldl (fun room now => room.scanPending p scanner none tx limit now) room

section Sweeps

variable {p : Pipeline} {scanner : Scanner} {now : Time} {tx limit id : ℕ} {room room' : Room}
  {row final : FileRow} {original : Bytes} {v v' : Volume} {ids : List ℕ} {scans : List Scan}

/-- Every row has its bytes on the volume, and no scan of the transaction is open. -/
structure Room.Ready (p : Pipeline) (tx : ℕ) (room : Room) : Prop where
  stored : ∀ row ∈ room.rows, ValidKey row.sha256 ∧ ∃ original, room.volume.find row.sha256 = some original
  idle : ∀ s ∈ room.scans, s.tx ≠ tx

theorem mem_waitingIds : id ∈ room.waitingIds ↔ ∃ row, room.row? id = some row ∧ row.waiting := by
  simp only [Room.waitingIds, List.mem_filter, List.mem_range, Option.any_eq_true, decide_eq_true_iff]
  constructor
  · rintro ⟨-, row, hrow, hwaiting⟩
    exact ⟨row, hrow, hwaiting⟩
  · rintro ⟨row, hrow, hwaiting⟩
    exact ⟨(List.getElem?_eq_some_iff.1 (Room.row?_eq_some.1 hrow).1).1, row, hrow, hwaiting⟩

theorem nodup_waitingIds : room.waitingIds.Nodup := List.nodup_range.filter _

theorem holds_iff {q : FileRow → Bytes → Bool} (hrow : room.row? id = some row)
    (hfind : room.volume.find row.sha256 = some original) :
    room.holds q id = true ↔ q row original = true := by
  simp only [Room.holds, hrow, hfind, Option.any_some]

theorem errs_iff (hrow : room.row? id = some row) (hfind : room.volume.find row.sha256 = some original) :
    room.errs p scanner id = true ↔ Errs p scanner row original :=
  (holds_iff hrow hfind).trans decide_eq_true_iff

theorem breaks_iff (hrow : room.row? id = some row)
    (hfind : room.volume.find row.sha256 = some original) :
    room.breaks p scanner id = true ↔ Breaks p scanner row original :=
  (holds_iff hrow hfind).trans decide_eq_true_iff

/-- Only an image breaks a sweep. -/
theorem breaks_eq_false (h : ∀ row ∈ room.rows, row.mediaKind ≠ .image) :
    room.breaks p scanner id = false := by
  rw [Bool.eq_false_iff]
  intro hbreaks
  obtain ⟨row, hrow, hbytes⟩ := (Option.any_eq_true _ _).1 hbreaks
  obtain ⟨original, -, hraises⟩ := (Option.any_eq_true _ _).1 hbytes
  have himage : Breaks p scanner row original := of_decide_eq_true hraises
  exact h row (List.mem_of_getElem? (Room.row?_eq_some.1 hrow).1) himage.1.2

/-- A disk with room never refuses a save. -/
theorem exists_saveBlob (digest : Digest) (data : Bytes) (v : Volume) :
    ∃ r, saveBlob digest none data v = .ok r := by
  rw [saveBlob, validateKey_of_valid (digest.valid data)]
  simp only [ok_bind]
  cases v.find (digest.hex data) with
  | some stored => exact ⟨_, rfl⟩
  | none => exact ⟨_, rfl⟩

/-- A scan of stored bytes that does not raise returns, and the row waits on exactly if it errs. -/
theorem exists_scanRow (p : Pipeline) (scanner : Scanner) (now : Time) (hwaiting : row.waiting)
    (hkey : ValidKey row.sha256) (hfind : v.find row.sha256 = some original)
    (hwhole : ¬ Breaks p scanner row original) :
    ∃ final v', scanRow p scanner none now row v = .ok (final, v') ∧
      (final.waiting ↔ Errs p scanner row original) := by
  have hopen : openBlob row.sha256 v = .ok original := openBlob_eq_ok.2 ⟨hkey, hfind⟩
  unfold scanRow
  rw [if_pos hwaiting, hopen]
  by_cases himage : (scanner original).status = .clean ∧
      (row.judged (scanner original) now).mediaKind = .image
  · simp only [if_pos himage]
    have hnoError : (scanner original).status ≠ .error := by
      rw [himage.1]
      decide
    cases hreencode : reencodeImage p original (row.judged (scanner original) now).sniffedMime with
    | error e =>
        have hsame : reencodeImage p original row.sniffedMime = .error e := hreencode
        cases e with
        | rejected message =>
            refine ⟨_, v, rfl, ⟨fun _ => .inr ⟨himage, ?_⟩, fun _ => .inr rfl⟩⟩
            rw [hsame]
            rfl
        | uncaught message =>
            refine absurd ⟨himage, ?_⟩ hwhole
            rw [hsame]
            rfl
    | ok r =>
        obtain ⟨out, served⟩ := r
        obtain ⟨⟨stored, v'⟩, hsave⟩ := exists_saveBlob p.digest out v
        refine ⟨_, v', by simp only [hsave, ok_bind]; rfl, ?_⟩
        have hclean : ¬ ((row.judged (scanner original) now).sanitized stored served now).waiting := by
          simp [FileRow.waiting, FileRow.sanitized, FileRow.judged, himage.1, Verdict.status]
        refine ⟨fun h => absurd h hclean, ?_⟩
        rintro (herror | ⟨-, hrefused⟩)
        · exact absurd herror hnoError
        · have hsame : reencodeImage p original row.sniffedMime = .ok (out, served) := hreencode
          rw [hsame] at hrefused
          cases hrefused
  · simp only [if_neg himage]
    refine ⟨_, v, rfl, ?_⟩
    have hstatus : (row.judged (scanner original) now).waiting ↔ (scanner original).status = .error := by
      cases hresult : (scanner original).status <;>
        simp [FileRow.waiting, FileRow.judged, hresult, Verdict.status]
    rw [hstatus]
    refine ⟨.inl, ?_⟩
    rintro (herror | ⟨hreencodes, -⟩)
    · exact herror
    · exact absurd hreencodes himage

/-- A scan that raises leaves nothing behind. -/
theorem scanRow_breaks (now : Time) (hwaiting : row.waiting) (hkey : ValidKey row.sha256)
    (hfind : v.find row.sha256 = some original) (hbreaks : Breaks p scanner row original) :
    ∃ e, scanRow p scanner none now row v = .error e := by
  have hopen : openBlob row.sha256 v = .ok original := openBlob_eq_ok.2 ⟨hkey, hfind⟩
  have himage : (scanner original).status = .clean ∧
      (row.judged (scanner original) now).mediaKind = .image := hbreaks.1
  unfold scanRow
  rw [if_pos hwaiting, hopen]
  simp only [if_pos himage]
  cases hreencode : reencodeImage p original (row.judged (scanner original) now).sniffedMime with
  | ok r =>
      have hsame : reencodeImage p original row.sniffedMime = .ok r := hreencode
      have hescaped := hbreaks.2
      rw [hsame] at hescaped
      cases hescaped
  | error e =>
      have hsame : reencodeImage p original row.sniffedMime = .error e := hreencode
      cases e with
      | rejected message =>
          have hescaped := hbreaks.2
          rw [hsame] at hescaped
          cases hescaped
      | uncaught message => exact ⟨_, rfl⟩

/-- What the loop holds for one id. -/
def InHand (p : Pipeline) (scanner : Scanner) (tx : ℕ) (room : Room) (id : ℕ) (s : Scan) : Prop :=
  s.tx = tx ∧ s.id = id ∧ room.row? id = some s.loaded ∧
    (s.final.waiting ↔ room.errs p scanner id = true)

/-- The loop over ids whose scans do not raise: one scan for each id, and no row is written yet. -/
theorem exists_processAll (now : Time) (scans : List Scan)
    (hready : room.Ready p tx) (hids : ∀ id ∈ ids, id ∈ room.waitingIds)
    (hwhole : ∀ id ∈ ids, room.breaks p scanner id = false) (hv : room.volume.Keeps v') :
    ∃ v'' news, Room.processAll p scanner none now tx ids
      { room with volume := v', scans := scans } =
        ({ room with volume := v'', scans := scans ++ news }, none) ∧ room.volume.Keeps v'' ∧
      List.Forall₂ (InHand p scanner tx room) ids news := by
  induction ids generalizing v' scans with
  | nil => exact ⟨v', [], by rw [List.append_nil]; rfl, hv, .nil⟩
  | cons id ids ih =>
      obtain ⟨row, hrow, hwaiting⟩ := mem_waitingIds.1 (hids id (by simp))
      obtain ⟨hkey, original, hfind⟩ :=
        hready.stored row (List.mem_of_getElem? (Room.row?_eq_some.1 hrow).1)
      have hbreaks : ¬ Breaks p scanner row original := fun h =>
        Bool.eq_false_iff.1 (hwhole id (by simp)) ((breaks_iff hrow hfind).2 h)
      obtain ⟨final, v₁, hscan, herrs⟩ :=
        exists_scanRow p scanner now hwaiting hkey (hv _ _ hfind) hbreaks
      have hkeeps : room.volume.Keeps v₁ := hv.trans (scanRow_scanned hscan).keeps
      let s : Scan := { tx := tx, id := id, loaded := row, final := final }
      obtain ⟨v'', news, hall, hkeeps'', hholds⟩ := ih (scans ++ [s])
        (fun id' hid' => hids id' (by simp [hid'])) (fun id' hid' => hwhole id' (by simp [hid']))
        hkeeps
      refine ⟨v'', s :: news, ?_, hkeeps'', .cons ⟨rfl, rfl, hrow, ?_⟩ hholds⟩
      · have hfound : Room.row? { room with volume := v', scans := scans } id = some row := hrow
        rw [Room.processAll, Room.process, hfound]
        simp only [found_some, ok_bind, hscan]
        rw [List.append_assoc] at hall
        exact hall
      · rw [herrs, errs_iff hrow hfind]

/-- The loop over ids of which one raises: it fails, and the rows are as they were. -/
theorem processAll_breaks (now : Time) (scans : List Scan)
    (hready : room.Ready p tx) (hids : ∀ id ∈ ids, id ∈ room.waitingIds)
    (hbroken : ids.any (room.breaks p scanner) = true) (hv : room.volume.Keeps v') :
    ∃ v'' news e, Room.processAll p scanner none now tx ids
      { room with volume := v', scans := scans } =
        ({ room with volume := v'', scans := scans ++ news }, some e) ∧ room.volume.Keeps v'' ∧
      ∀ s ∈ news, s.tx = tx := by
  induction ids generalizing v' scans with
  | nil => cases hbroken
  | cons id ids ih =>
      obtain ⟨row, hrow, hwaiting⟩ := mem_waitingIds.1 (hids id (by simp))
      obtain ⟨hkey, original, hfind⟩ :=
        hready.stored row (List.mem_of_getElem? (Room.row?_eq_some.1 hrow).1)
      have hfound : Room.row? { room with volume := v', scans := scans } id = some row := hrow
      by_cases hfirst : Breaks p scanner row original
      · obtain ⟨e, hscan⟩ := scanRow_breaks now hwaiting hkey (hv _ _ hfind) hfirst
        refine ⟨v', [], e, ?_, hv, by simp⟩
        rw [Room.processAll, Room.process, hfound, List.append_nil]
        simp only [found_some, ok_bind, hscan]
        rfl
      · obtain ⟨final, v₁, hscan, -⟩ :=
          exists_scanRow p scanner now hwaiting hkey (hv _ _ hfind) hfirst
        have hrest : ids.any (room.breaks p scanner) = true := by
          rw [List.any_cons, Bool.or_eq_true, breaks_iff hrow hfind] at hbroken
          exact hbroken.resolve_left hfirst
        let s : Scan := { tx := tx, id := id, loaded := row, final := final }
        obtain ⟨v'', news, e, hall, hkeeps, htx⟩ := ih (scans ++ [s])
          (fun id' hid' => hids id' (by simp [hid'])) hrest
          (hv.trans (scanRow_scanned hscan).keeps)
        refine ⟨v'', s :: news, e, ?_, hkeeps, ?_⟩
        · rw [Room.processAll, Room.process, hfound]
          simp only [found_some, ok_bind, hscan]
          rw [List.append_assoc] at hall
          exact hall
        · intro s' hs'
          rcases List.mem_cons.1 hs' with rfl | hs'
          · rfl
          · exact htx s' hs'

/-- The rows after the write-back of the loop. -/
theorem getElem?_write_news {news : List Scan} (rows : List FileRow)
    (hnews : List.Forall₂ (InHand p scanner tx room) ids news) (hnodup : ids.Nodup)
    (hrows : ∀ id ∈ ids, rows[id]? = room.rows[id]?) :
    (∀ id, id ∉ ids → (news.foldl (fun rows (s : Scan) => s.write rows) rows)[id]? = rows[id]?) ∧
      ∀ id ∈ ids, ∃ s, InHand p scanner tx room id s ∧
        (news.foldl (fun rows (s : Scan) => s.write rows) rows)[id]? =
          some (s.loaded.flush s.final s.loaded) := by
  induction hnews generalizing rows with
  | nil => exact ⟨fun _ _ => rfl, fun id hid => by cases hid⟩
  | @cons id s ids news hs hnews ih =>
      obtain ⟨hid, hnodup⟩ := List.nodup_cons.1 hnodup
      have hsid : s.id = id := hs.2.1
      have hloaded : room.row? id = some s.loaded := hs.2.2.1
      have hrow : rows[id]? = some s.loaded :=
        (hrows id (by simp)).trans (Room.row?_eq_some.1 hloaded).1
      have hself : (s.write rows)[id]? = some (s.loaded.flush s.final s.loaded) := by
        rw [Scan.write, hsid]
        exact getElem?_modify_self _ hrow
      have hother : ∀ id', id' ≠ id → (s.write rows)[id']? = rows[id']? := by
        intro id' hne
        rw [Scan.write, hsid]
        exact List.getElem?_modify_ne _ _ hne.symm
      have hne : ∀ id' ∈ ids, id' ≠ id := fun id' hid' heq => hid (heq ▸ hid')
      obtain ⟨hout, hin⟩ := ih (s.write rows) hnodup fun id' hid' =>
        (hother id' (hne id' hid')).trans (hrows id' (by simp [hid']))
      constructor
      · intro id' hid'
        rw [List.foldl_cons, hout id' fun h => hid' (by simp [h])]
        exact hother id' fun h => hid' (by simp [h])
      · intro id' hid'
        rcases List.mem_cons.1 hid' with rfl | hid'
        · exact ⟨s, hs, by rw [List.foldl_cons, hout id' hid, hself]⟩
        · exact hin id' hid'

/-- One sweep: unless a scan raises, its first `limit` ids are judged or err; the others are as
before. -/
structure Swept (p : Pipeline) (scanner : Scanner) (tx limit : ℕ) (room room' : Room) : Prop where
  ready : room'.Ready p tx
  waiting : room'.waitingIds =
    serveUnless limit (room.errs p scanner) (room.breaks p scanner) room.waitingIds
  errs : ∀ id, room'.errs p scanner id = room.errs p scanner id
  breaks : ∀ id, room'.breaks p scanner id = room.breaks p scanner id

theorem length_write_all (scans : List Scan) (rows : List FileRow) :
    (scans.foldl (fun rows (s : Scan) => s.write rows) rows).length = rows.length := by
  induction scans generalizing rows with
  | nil => rfl
  | cons s scans ih =>
      rw [List.foldl_cons, ih]
      exact List.length_modify _ _ _

/-- The first `limit` of a list without repetition, filtered apart. -/
theorem filter_take_or {bad : ℕ → Bool} {queue : List ℕ} (hnodup : queue.Nodup) :
    (queue.filter fun id => decide (id ∉ queue.take limit) || bad id) = serve limit bad queue := by
  have hsplit : queue = queue.take limit ++ queue.drop limit := (List.take_append_drop ..).symm
  have hdisjoint : ∀ id ∈ queue.drop limit, id ∉ queue.take limit := by
    rw [hsplit] at hnodup
    exact fun id hdrop htake => (List.nodup_append.1 hnodup).2.2 id htake id hdrop rfl
  conv_lhs => rw [hsplit, List.filter_append]
  refine congrArg₂ _ (List.filter_congr fun id hid => ?_) ?_
  · rw [← hsplit]
    simp [hid]
  · refine List.filter_eq_self.2 fun id hid => ?_
    rw [← hsplit]
    simp [hdisjoint id hid]

/-- The rows by id after a sweep: out of reach as before, in reach as the scan left them. -/
structure Rewritten (p : Pipeline) (scanner : Scanner) (tx : ℕ) (ids : List ℕ) (room room' : Room) :
    Prop where
  length : room'.rows.length = room.rows.length
  volume : room.volume.Keeps room'.volume
  scans : room'.scans = room.scans
  out : ∀ id, id ∉ ids → room'.rows[id]? = room.rows[id]?
  hand : ∀ id ∈ ids, ∃ s, InHand p scanner tx room id s ∧
    room'.rows[id]? = some (s.loaded.flush s.final s.loaded)

/-- A sweep in which no scan raises. -/
theorem scanPending_rewritten (scanner : Scanner) (limit : ℕ) (hready : room.Ready p tx) (now : Time)
    (hwhole : ∀ id ∈ room.waitingIds.take limit, room.breaks p scanner id = false) :
    Rewritten p scanner tx (room.waitingIds.take limit) room
      (room.scanPending p scanner none tx limit now) := by
  have hids : ∀ id ∈ room.waitingIds.take limit, id ∈ room.waitingIds :=
    fun id hid => List.mem_of_mem_take hid
  obtain ⟨v, news, hall, hkeeps, hnews⟩ := exists_processAll now room.scans hready hids hwhole
    (.refl room.volume)
  have htx : ∀ s ∈ news, s.tx = tx := by
    intro s hs
    obtain ⟨n, hn⟩ := List.mem_iff_getElem.1 hs
    obtain ⟨hlt, rfl⟩ := hn
    exact ((List.forall₂_iff_get.1 hnews).2 n (hnews.length_eq ▸ hlt) hlt).1
  have hmine : (room.scans ++ news).filter (fun s => s.tx = tx) = news := by
    rw [List.filter_append, List.filter_eq_nil_iff.2 fun s hs => by simp [hready.idle s hs],
      List.filter_eq_self.2 fun s hs => by simp [htx s hs], List.nil_append]
  have hothers : (room.scans ++ news).filter (fun s => s.tx ≠ tx) = room.scans := by
    rw [List.filter_append, List.filter_eq_self.2 fun s hs => by simp [hready.idle s hs],
      List.filter_eq_nil_iff.2 fun s hs => by simp [htx s hs], List.append_nil]
  obtain ⟨hout, hhand⟩ := getElem?_write_news room.rows hnews
    (nodup_waitingIds.sublist (List.take_sublist ..)) fun _ _ => rfl
  rw [Room.scanPending, hall]
  simp only [Room.commit, Room.rollback, hmine, hothers]
  exact ⟨length_write_all _ _, hkeeps, rfl, hout, hhand⟩

/-- A sweep in which a scan raises writes nothing but copies on the volume. -/
theorem scanPending_breaks (scanner : Scanner) (limit : ℕ) (hready : room.Ready p tx) (now : Time)
    (hbroken : (room.waitingIds.take limit).any (room.breaks p scanner) = true) :
    ∃ v, room.volume.Keeps v ∧
      room.scanPending p scanner none tx limit now = { room with volume := v } := by
  obtain ⟨v, news, e, hall, hkeeps, htx⟩ := processAll_breaks now room.scans hready
    (fun id hid => List.mem_of_mem_take hid) hbroken (.refl room.volume)
  refine ⟨v, hkeeps, ?_⟩
  have hothers : (room.scans ++ news).filter (fun s => s.tx ≠ tx) = room.scans := by
    rw [List.filter_append, List.filter_eq_self.2 fun s hs => by simp [hready.idle s hs],
      List.filter_eq_nil_iff.2 fun s hs => by simp [htx s hs], List.append_nil]
  rw [Room.scanPending, hall]
  simp only [Room.rollback, hothers]

theorem Rewritten.row? (h : Rewritten p scanner tx ids room room') (hid : id ∉ ids) :
    room'.row? id = room.row? id := by
  rw [Room.row?, Room.row?, h.out id hid]

/-- A row in reach: still there, its bytes the same, waiting exactly if its scan erred. -/
theorem Rewritten.row?_hand (h : Rewritten p scanner tx ids room room') (hid : id ∈ ids) :
    ∃ old new, room.row? id = some old ∧ room'.row? id = some new ∧ SameFile old new ∧
      (new.waiting ↔ room.errs p scanner id = true) := by
  obtain ⟨s, ⟨-, -, hloaded, hwaiting⟩, hnew⟩ := h.hand id hid
  refine ⟨s.loaded, _, hloaded, Room.row?_eq_some.2 ⟨hnew, (Room.row?_eq_some.1 hloaded).2⟩, .flush, ?_⟩
  rw [← hwaiting]
  simp only [FileRow.waiting, FileRow.flush, column_loaded]

theorem Rewritten.filter_waiting (h : Rewritten p scanner tx ids room room')
    (hids : ∀ id ∈ ids, id ∈ room.waitingIds) :
    room'.waitingIds =
      room.waitingIds.filter fun id => decide (id ∉ ids) || room.errs p scanner id := by
  rw [Room.waitingIds, Room.waitingIds, h.length, List.filter_filter]
  refine List.filter_congr fun id _ => ?_
  by_cases hid : id ∈ ids
  · obtain ⟨old, new, hold, hnew, -, hwaiting⟩ := h.row?_hand hid
    obtain ⟨row, hrow, hrowwaiting⟩ := mem_waitingIds.1 (hids id hid)
    obtain rfl := Option.some.inj (hold.symm.trans hrow)
    rw [hnew, hold, Option.any_some, Option.any_some, decide_eq_true hrowwaiting, Bool.and_true,
      Bool.eq_iff_iff]
    simp only [hid, hwaiting, decide_eq_true_eq, not_true_eq_false, decide_false, Bool.false_or]
  · rw [h.row? hid]
    simp [hid]

/-- What holds of the bytes of a row and of their type holds after a scan. -/
theorem Rewritten.holds {q : FileRow → Bytes → Bool}
    (h : Rewritten p scanner tx ids room room') (hready : room.Ready p tx)
    (hq : ∀ old new original, SameFile old new → q new original = q old original) (id : ℕ) :
    room'.holds q id = room.holds q id := by
  have hstored : ∀ row, room.row? id = some row → ∃ original,
      room.volume.find row.sha256 = some original := fun row hrow =>
    (hready.stored row (List.mem_of_getElem? (Room.row?_eq_some.1 hrow).1)).2
  by_cases hid : id ∈ ids
  · obtain ⟨old, new, hold, hnew, hsame, -⟩ := h.row?_hand hid
    obtain ⟨original, hfind⟩ := hstored old hold
    have hfind' : room'.volume.find new.sha256 = some original := by
      rw [← hsame.sha256]
      exact h.volume _ _ hfind
    rw [Bool.eq_iff_iff, holds_iff hnew hfind', holds_iff hold hfind, hq old new original hsame]
  · cases hrow : room.row? id with
    | none => rw [Room.holds, Room.holds, h.row? hid, hrow, Option.any_none, Option.any_none]
    | some row =>
        obtain ⟨original, hfind⟩ := hstored row hrow
        rw [Bool.eq_iff_iff, holds_iff ((h.row? hid).trans hrow) (h.volume _ _ hfind),
          holds_iff hrow hfind]

/-- What errs errs again, and what raises raises again. -/
theorem Rewritten.outcome (h : Rewritten p scanner tx ids room room') (hready : room.Ready p tx)
    (id : ℕ) : room'.errs p scanner id = room.errs p scanner id ∧
      room'.breaks p scanner id = room.breaks p scanner id := by
  constructor
  · refine h.holds hready (fun old new original hsame => ?_) id
    refine decide_eq_decide.2 ?_
    rw [Errs, Errs, Reencodes, Reencodes, hsame.mediaKind, hsame.sniffedMime]
  · refine h.holds hready (fun old new original hsame => ?_) id
    refine decide_eq_decide.2 ?_
    rw [Breaks, Breaks, Reencodes, Reencodes, hsame.mediaKind, hsame.sniffedMime]

theorem Rewritten.ready (h : Rewritten p scanner tx ids room room') (hready : room.Ready p tx) :
    room'.Ready p tx := by
  refine ⟨fun row hrow => ?_, fun s hs => hready.idle s (h.scans ▸ hs)⟩
  obtain ⟨id, hid⟩ := List.mem_iff_getElem?.1 hrow
  have hold : ∃ old ∈ room.rows, row.sha256 = old.sha256 := by
    by_cases hmem : id ∈ ids
    · obtain ⟨s, ⟨-, -, hloaded, -⟩, hnew⟩ := h.hand id hmem
      obtain rfl := Option.some.inj (hid.symm.trans hnew)
      exact ⟨s.loaded, List.mem_of_getElem? (Room.row?_eq_some.1 hloaded).1, rfl⟩
    · exact ⟨row, List.mem_of_getElem? ((h.out id hmem).symm.trans hid), rfl⟩
  obtain ⟨old, hmem, hsha⟩ := hold
  obtain ⟨hkey, original, hfind⟩ := hready.stored old hmem
  exact ⟨hsha ▸ hkey, original, hsha ▸ h.volume _ _ hfind⟩

/-- A room whose volume alone has grown: every row has the bytes it had. -/
theorem holds_of_keeps {q : FileRow → Bytes → Bool} (hready : room.Ready p tx)
    (hv : room.volume.Keeps v) (id : ℕ) :
    Room.holds q { room with volume := v } id = room.holds q id := by
  cases hrow : room.row? id with
  | none =>
      have hnone : Room.row? { room with volume := v } id = none := hrow
      rw [Room.holds, Room.holds, hrow, hnone, Option.any_none, Option.any_none]
  | some row =>
      have hsome : Room.row? { room with volume := v } id = some row := hrow
      obtain ⟨-, original, hfind⟩ :=
        hready.stored row (List.mem_of_getElem? (Room.row?_eq_some.1 hrow).1)
      rw [Bool.eq_iff_iff, holds_iff hsome (hv _ _ hfind), holds_iff hrow hfind]

theorem Room.Ready.of_keeps (hready : room.Ready p tx) (hv : room.volume.Keeps v) :
    Room.Ready p tx { room with volume := v } := by
  refine ⟨fun row hrow => ?_, hready.idle⟩
  obtain ⟨hkey, original, hfind⟩ := hready.stored row hrow
  exact ⟨hkey, original, hv _ _ hfind⟩

theorem swept_scanPending (scanner : Scanner) (limit : ℕ) (hready : room.Ready p tx) (now : Time) :
    Swept p scanner tx limit room (room.scanPending p scanner none tx limit now) := by
  by_cases hbroken : (room.waitingIds.take limit).any (room.breaks p scanner) = true
  · obtain ⟨v, hv, hswept⟩ := scanPending_breaks scanner limit hready now hbroken
    rw [hswept]
    refine ⟨hready.of_keeps hv, ?_, holds_of_keeps hready hv, holds_of_keeps hready hv⟩
    rw [serveUnless, if_pos hbroken]
    rfl
  · have hwhole : ∀ id ∈ room.waitingIds.take limit, room.breaks p scanner id = false :=
      fun id hid => Bool.eq_false_iff.2 fun h => hbroken (List.any_eq_true.2 ⟨id, hid, h⟩)
    have h := scanPending_rewritten scanner limit hready now hwhole
    refine ⟨h.ready hready, ?_, fun id => (h.outcome hready id).1, fun id => (h.outcome hready id).2⟩
    rw [serveUnless, if_neg hbroken, h.filter_waiting fun id hid => List.mem_of_mem_take hid]
    exact filter_take_or nodup_waitingIds

/-- The waiting ids after any number of sweeps. -/
theorem waitingIds_sweeps (hready : room.Ready p tx) (times : List Time) :
    (room.sweeps p scanner tx limit times).waitingIds =
      (serveUnless limit (room.errs p scanner) (room.breaks p scanner))^[times.length]
        room.waitingIds := by
  induction times generalizing room with
  | nil => rfl
  | cons now times ih =>
      have hswept := swept_scanPending scanner limit hready now
      have hnext : room.sweeps p scanner tx limit (now :: times) =
          (room.scanPending p scanner none tx limit now).sweeps p scanner tx limit times := rfl
      rw [hnext, ih hswept.ready, List.length_cons, Function.iterate_succ_apply, hswept.waiting,
        funext hswept.errs, funext hswept.breaks]

theorem Room.Sound.ready {events : List Event} (h : room.Sound p events)
    (hidle : ∀ s ∈ room.scans, s.tx ≠ tx) : room.Ready p tx := by
  refine ⟨fun row hrow => ?_, hidle⟩
  obtain ⟨⟨r, -, hrecords⟩, original, hfind, -⟩ := h.rows row hrow
  exact ⟨hrecords.sha256 ▸ p.digest.valid r.data, original, hfind⟩

/-- The waiting files that some number of sweeps takes in, none of which raises. -/
def Room.TakenIn (p : Pipeline) (scanner : Scanner) (limit : ℕ) (room : Room) (id : ℕ) : Prop :=
  ∃ n, let seen := room.waitingIds.take (reach limit (room.errs p scanner) room.waitingIds n)
    id ∈ seen ∧ ∀ other ∈ seen, room.breaks p scanner other = false

/-- Where no scan raises, fewer than `limit` erring files in front let a file be taken in. -/
theorem takenIn_iff (hid : id ∈ room.waitingIds) (hgood : room.errs p scanner id = false)
    (hwhole : ∀ other ∈ room.waitingIds, room.breaks p scanner other = false) :
    room.TakenIn p scanner limit id ↔ (room.waitingIds.filter fun other =>
      decide (other < id) && room.errs p scanner other).length < limit := by
  have hsorted : room.waitingIds.Pairwise (· < ·) := List.pairwise_lt_range.filter _
  have hserve :
      (∃ n, id ∉ (serveUnless limit (room.errs p scanner) fun _ => false)^[n] room.waitingIds) ↔
        ∃ n, id ∈ room.waitingIds.take (reach limit (room.errs p scanner) room.waitingIds n) ∧
          ∀ other ∈ room.waitingIds.take (reach limit (room.errs p scanner) room.waitingIds n),
            false = false :=
    served_unless_iff nodup_waitingIds hid hgood
  have hnever : serveUnless limit (room.errs p scanner) (fun _ => false) =
      serve limit (room.errs p scanner) := by
    funext queue
    simp [serveUnless]
  have htaken : room.TakenIn p scanner limit id ↔
      ∃ n, id ∈ room.waitingIds.take (reach limit (room.errs p scanner) room.waitingIds n) ∧
        ∀ other ∈ room.waitingIds.take (reach limit (room.errs p scanner) room.waitingIds n),
          false = false :=
    exists_congr fun n => and_congr_right fun _ =>
      ⟨fun _ _ _ => rfl, fun _ other hother => hwhole other (List.mem_of_mem_take hother)⟩
  rw [htaken, ← hserve, hnever]
  obtain ⟨before, after, hsplit⟩ := List.append_of_mem hid
  rw [hsplit] at hsorted
  obtain ⟨-, hrest, hbefore⟩ := List.pairwise_append.1 hsorted
  have hafter : ∀ other ∈ after, id < other := fun other hother =>
    (List.pairwise_cons.1 hrest).1 other hother
  have hahead : (room.waitingIds.filter fun other =>
      decide (other < id) && room.errs p scanner other) = before.filter (room.errs p scanner) := by
    have hbehind : after.filter (fun other =>
        decide (other < id) && room.errs p scanner other) = [] :=
      List.filter_eq_nil_iff.2 fun other hother => by simp [(hafter other hother).not_gt]
    rw [hsplit, List.filter_append, List.filter_cons_of_neg (by simp), hbehind, List.append_nil]
    refine List.filter_congr fun other hother => ?_
    simp [hbefore other hother id (by simp)]
  rw [hahead, ← served_iff limit (hsplit ▸ nodup_waitingIds) hgood, ← hsplit]

/-- A waiting file whose scan would not err is judged by some sweep exactly if some number of sweeps
takes it in and nothing that raises.  Where no scan raises, these are the files with fewer than
`limit` erring ones in front. -/
theorem sweeps_reach_iff (p : Pipeline) (events : List Event) (scanner : Scanner) (tx limit id : ℕ)
    (hidle : ∀ s ∈ (runRoom p events).scans, s.tx ≠ tx) (hid : id ∈ (runRoom p events).waitingIds)
    (hgood : (runRoom p events).errs p scanner id = false) :
    ((∃ times, id ∉ ((runRoom p events).sweeps p scanner tx limit times).waitingIds) ↔
      (runRoom p events).TakenIn p scanner limit id) ∧
    ((∀ other ∈ (runRoom p events).waitingIds, (runRoom p events).breaks p scanner other = false) →
      ((∃ times, id ∉ ((runRoom p events).sweeps p scanner tx limit times).waitingIds) ↔
        ((runRoom p events).waitingIds.filter fun other =>
          decide (other < id) && (runRoom p events).errs p scanner other).length < limit)) := by
  have hready := (sound_runRoom p events).ready hidle
  have hreach : (∃ times, id ∉ ((runRoom p events).sweeps p scanner tx limit times).waitingIds) ↔
      (runRoom p events).TakenIn p scanner limit id := by
    rw [Room.TakenIn, ← served_unless_iff nodup_waitingIds hid hgood]
    constructor
    · rintro ⟨times, htimes⟩
      exact ⟨times.length, waitingIds_sweeps hready times ▸ htimes⟩
    · rintro ⟨n, hn⟩
      refine ⟨List.replicate n 0, ?_⟩
      rw [waitingIds_sweeps hready, List.length_replicate]
      exact hn
  exact ⟨hreach, fun hwhole => hreach.trans (takenIn_iff hid hgood hwhole)⟩

/-- Two papers wait; the daemon takes the first for too large, every time. -/
def stubbornEvents : List Event :=
  [.upload paperUpload none true, .upload { paperUpload with data := secondPaper } none true]

def stubbornScanner : Scanner := clamavScanner fun data =>
  if data = paper then .error "INSTREAM size limit exceeded" else .ok ("OK", none)

def secondRow : FileRow :=
  paperUpload.row paperKind { key := paperHex secondPaper, size := secondPaper.length }

theorem find_secondPaper : paperVolume.find (paperHex secondPaper) = none :=
  (Blobs.find_save_of_none rfl _).trans (if_neg paperHex_ne)

theorem run_stubbornEvents : runRoom office stubbornEvents =
    { rows := [paperRow, secondRow], volume := paperVolume.save paperHex secondPaper } := by
  have haccepted : validateUpload secondPaper office.maxBytes (some "application/pdf") =
      .ok paperKind := validateUpload_eq_ok.2 ⟨by decide, by decide, by decide, by decide⟩
  rw [runRoom, stubbornEvents, run_cons, run_cons, run_nil, run_paperUpload,
    commit_upload haccepted find_secondPaper]
  rfl

/-- The second paper is judged some time, whatever becomes of the first. -/
theorem second_paper_reached : ∃ times, 1 ∉ ((runRoom office stubbornEvents).sweeps office
    stubbornScanner 1 100 times).waitingIds := by
  have hfind : (runRoom office stubbornEvents).volume.find (paperHex secondPaper) =
      some secondPaper := by
    rw [run_stubbornEvents]
    exact (Blobs.find_save_of_none find_secondPaper (paperHex secondPaper)).trans (if_pos rfl)
  have hsecond : (runRoom office stubbornEvents).row? 1 = some secondRow := by
    rw [run_stubbornEvents]
    rfl
  have hpapers : ∀ row ∈ (runRoom office stubbornEvents).rows, row.mediaKind ≠ .image := by
    rw [run_stubbornEvents]
    intro row hrow
    rcases List.mem_pair.1 hrow with rfl | rfl
    · show MediaKind.pdf ≠ .image
      decide
    · show MediaKind.pdf ≠ .image
      decide
  refine ((sweeps_reach_iff office stubbornEvents stubbornScanner 1 100 1 ?_ ?_ ?_).2 ?_).2 ?_
  · simp [run_stubbornEvents]
  · exact mem_waitingIds.2 ⟨secondRow, hsecond, .inl rfl⟩
  · rw [Bool.eq_false_iff]
    intro herrs
    exact absurd ((errs_iff hsecond hfind).1 herrs) (by decide)
  · exact fun other _ => breaks_eq_false hpapers
  · have hlength : (runRoom office stubbornEvents).waitingIds.length ≤ 2 := by
      rw [run_stubbornEvents]
      exact (List.length_filter_le _ _).trans (by simp)
    exact ((List.length_filter_le _ _).trans hlength).trans_lt (by decide)

end Sweeps

end OfficeConnect.Attachments
