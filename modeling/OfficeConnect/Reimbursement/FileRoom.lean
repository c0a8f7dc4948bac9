import OfficeConnect.Reimbursement.GeneratorLaw
import OfficeConnect.Reimbursement.Machine

/-!
# The file room

The module's calls together with the files: evidence comes and goes, the generator files its
documents, the scanner gives its verdicts, and whoever may touch attachments uploads and deletes
rows.  An edit of what a form prints voids the claim's live copies.  In every run a document has one
live copy at most, and every copy has a clean file of the system's own behind it, held by the claim,
with the bytes the copy asserts.
-/

namespace OfficeConnect.Reimbursement

open Lib Workflow

/-! ## Errands -/

/-- The calls that have an errand of their own because they write files or void copies. -/
def Op.touchesFiles : Op → Bool
  | .editDraft _ | .replaceLegs _ | .attachEvidence .. | .detachEvidence .. | .markGenerated .. =>
      true
  | _ => false

structure AttachFile where
  claimId : ℕ
  catalogId : ℕ
  actorUserId : ℕ
  data : Upload
  filename : String
deriving DecidableEq, Repr

/-- `reimbAttachmentId` is the join row's. -/
structure DetachFile where
  claimId : ℕ
  catalogId : ℕ
  reimbAttachmentId : ℕ
  actorUserId : ℕ
deriving DecidableEq, Repr

/-- What a holder of the attachment permissions uploads: any holder may be named. -/
structure PlainUpload where
  data : Upload
  filename : String
  holderKind : Option String := none
  holderId : Option ℕ := none
  actorId : Option ℕ := none
deriving DecidableEq, Repr

inductive Errand where
  | call (c : Call) (hfiles : c.op.touchesFiles = false)
  | editDraft (env : Env) (r : DraftEdit)
  | replaceLegs (env : Env) (r : ReplaceLegs)
  | attach (env : Env) (r : AttachFile)
  | detach (env : Env) (r : DetachFile)
  | generate (room : PrintRoom) (claimId : ℕ) (actor : Option ℕ) (now : Option Time)
  | scan (id : ℕ) (verdict : ScanStatus)
  | upload (r : PlainUpload)
  | delete (id : ℕ)

def evidenceNotOnItem (joinId : ℕ) : Raised :=
  .api 422 "reimb_evidence_not_on_item"
    (s!"Attachment {joinId} is not on this checklist item — " ++
      "refresh the packet and try again.")

/-- Void every live copy of a claim. -/
def voidClaim (env : Env) (claimId actor : ℕ) (reason : String) (rows : List DocumentSnapshot) :
    List DocumentSnapshot :=
  voidSnapshots env.utcNow {
    subjectKind := holderKind
    subjectId := claimId
    reason := reason
    actorId := some actor } rows

/-- The two money terminals start the clock on the claim's files. -/
def startRetentionClock (env : Env) : Op → List Attachment → List Attachment
  | .payout r, files => (startRetention holderKind r.claimId (env.at r.now) files).2
  | .settle r, files => (startRetention holderKind r.claimId (env.at r.now) files).2
  | _, files => files

/-- The item an upload goes to: its id once it is there. -/
def evidenceTarget (env : Env) (r : AttachFile) (σ : Store) : Except Raised ℕ := do
  let claim ← ownedEditableClaim env σ r.claimId r.actorUserId
  let row ← found ((activeCatalog env claim.kind).find? (·.id = r.catalogId))
    (unknownCatalogItem r.catalogId)
  refuse (¬ row.evidence.blocks) (evidenceNotUploadable row.code row.evidence)
  return ((σ.item? r.claimId r.catalogId).map (·.1)).getD σ.items.length

/-- Store the bytes, join them to the item, void the copies and materialize the packet. -/
def Archive.attachEvidence (env : Env) (r : AttachFile) (a : Archive) : Except Raised Archive := do
  let itemId ← evidenceTarget env r a.store
  let (id, files) ← uploadAttachment r.data {
    filename := r.filename
    holderKind := some holderKind
    holderId := some r.claimId
    retentionClass := retentionClass
    actorId := some r.actorUserId } a.files
  let a := { a with
    files := files
    joins := a.joins ++ [{
      claimId := r.claimId
      attachmentId := id
      checklistItemId := some itemId
      retentionClass := retentionClass
      createdAt := env.utcNow }]
    snapshots := voidClaim env r.claimId r.actorUserId "evidence attached" a.snapshots }
  let σ ← Reimbursement.attachEvidence (env.counting a) r.claimId r.catalogId r.actorUserId a.store
  return { a with store := σ }

/-- The live join row of a claim's live item. -/
def evidenceJoin (r : DetachFile) (a : Archive) : Except Raised ReimbAttachment := do
  let item ← found ((a.store.item? r.claimId r.catalogId).filter fun i => ¬ i.2.deleted)
    (unknownCatalogItem r.catalogId)
  found ((a.joins[r.reimbAttachmentId]?).filter fun join => ¬ join.deleted ∧
    join.claimId = r.claimId ∧ join.checklistItemId = some item.1)
    (evidenceNotOnItem r.reimbAttachmentId)

/-- Soft-delete the join and the file, void the copies and materialize the packet. -/
def Archive.detachEvidence (env : Env) (r : DetachFile) (a : Archive) : Except Raised Archive := do
  let _ ← ownedEditableClaim env a.store r.claimId r.actorUserId
  let join ← evidenceJoin r a
  let files ← softDeleteAttachment join.attachmentId a.files
  let a := { a with
    files := files
    joins := a.joins.modify r.reimbAttachmentId fun join => { join with deleted := true }
    snapshots := voidClaim env r.claimId r.actorUserId "evidence detached" a.snapshots }
  let σ ← Reimbursement.detachEvidence (env.counting a) r.claimId r.catalogId r.actorUserId a.store
  return { a with store := σ }

/-- Any field that differs is printed somewhere, so it voids the copies. -/
def Archive.updateDraftFields (env : Env) (r : DraftEdit) (a : Archive) : Except Raised Archive := do
  let claim ← lockedClaim a.store r.claimId
  let σ ← Reimbursement.updateDraftFields (env.counting a) r a.store
  return { a with
    store := σ
    snapshots := if r.applyTo claim.trip = claim.trip then a.snapshots
      else voidClaim env r.claimId r.actorUserId "claim inputs changed" a.snapshots }

def Archive.replaceLegs (env : Env) (r : ReplaceLegs) (a : Archive) : Except Raised Archive := do
  let σ ← Reimbursement.replaceLegs (env.counting a) r a.store
  return { a with
    store := σ
    snapshots := voidClaim env r.claimId r.actorUserId "claim inputs changed" a.snapshots }

def Errand.step (d : Errand) (a : Archive) : Except Raised Archive :=
  match d with
  | .call c _ => do
      let σ ← { c with env := c.env.counting a }.step a.store
      return { a with store := σ, files := startRetentionClock c.env c.op a.files }
  | .editDraft env r => a.updateDraftFields env r
  | .replaceLegs env r => a.replaceLegs env r
  | .attach env r => a.attachEvidence env r
  | .detach env r => a.detachEvidence env r
  | .generate room claimId actor now =>
      Prod.snd <$> a.generateClaimDocuments room claimId actor now
  | .scan id verdict => .ok { a with files := processAttachment id verdict a.files }
  | .upload r => do
      let (_, files) ← uploadAttachment r.data {
        filename := r.filename
        holderKind := r.holderKind
        holderId := r.holderId
        actorId := r.actorId } a.files
      return { a with files := files }
  | .delete id => do
      let files ← softDeleteAttachment id a.files
      return { a with files := files }

/-- The archive a run of errands leads to. -/
def runArchive (errands : List Errand) : Archive := run Errand.step {} errands

/-! ## Files only age -/

/-- What no errand changes of a file: whose it is, where it came from, its name and its bytes; and a
clean one stays clean. -/
structure Ages (old new : Attachment) : Prop where
  holderKind : new.holderKind = old.holderKind
  holderId : new.holderId = old.holderId
  origin : new.origin = old.origin
  filename : new.originalFilename = old.originalFilename
  byteSize : new.byteSize = old.byteSize
  sha256 : new.sha256 = old.sha256
  clean : old.scanStatus = .clean → new.scanStatus = .clean

theorem Ages.refl (row : Attachment) : Ages row row := ⟨rfl, rfl, rfl, rfl, rfl, rfl, id⟩

/-- Every file is still there, and as it was. -/
def FilesAge (before after : List Attachment) : Prop :=
  ∀ (n : ℕ) (row : Attachment), before[n]? = some row → ∃ row', after[n]? = some row' ∧ Ages row row'

section Ageing

variable {files files' : List Attachment} {id : ℕ} {r : Deposit} {data : Upload}

theorem FilesAge.refl (files : List Attachment) : FilesAge files files :=
  fun _ row hrow => ⟨row, hrow, .refl row⟩

theorem filesAge_append (new : List Attachment) : FilesAge files (files ++ new) := by
  intro n row hrow
  have hlt := (List.getElem?_eq_some_iff.1 hrow).1
  exact ⟨row, by rw [List.getElem?_append_left hlt, hrow], .refl row⟩

theorem filesAge_modify {f : Attachment → Attachment} (hf : ∀ row, Ages row (f row)) (n : ℕ) :
    FilesAge files (files.modify n f) := by
  intro m row hrow
  by_cases hm : n = m
  · subst hm
    exact ⟨f row, getElem?_modify_self _ hrow, hf row⟩
  · exact ⟨row, by rw [List.getElem?_modify_ne _ _ hm, hrow], .refl row⟩

theorem filesAge_upload (h : uploadAttachment data r files = .ok (id, files')) :
    FilesAge files files' ∧ id = files.length ∧ files' = files ++ [r.row data] := by
  simp only [uploadAttachment, bind_eq_ok, pure_eq_ok, Prod.mk.injEq] at h
  obtain ⟨_, -, rfl, rfl⟩ := h
  exact ⟨filesAge_append _, rfl, rfl⟩

theorem filesAge_scan (id : ℕ) (verdict : ScanStatus) :
    FilesAge files (processAttachment id verdict files) := by
  refine filesAge_modify (fun row => ?_) id
  split_ifs with h
  · refine ⟨rfl, rfl, rfl, rfl, rfl, rfl, fun hclean => ?_⟩
    rw [hclean] at h
    exact absurd h.2 (by decide)
  · exact .refl row

theorem softDelete_eq_ok : softDeleteAttachment id files = .ok files' ↔
    ∃ row, files[id]? = some row ∧ row.deleted = false ∧
      files' = files.modify id fun row => { row with deleted := true } := by
  simp only [softDeleteAttachment, bind_eq_ok, found_eq_ok, refuse_eq_ok, pure_eq_ok,
    Bool.not_eq_true]
  constructor
  · rintro ⟨row, hrow, -, hlive, rfl⟩
    exact ⟨row, hrow, hlive, rfl⟩
  · rintro ⟨row, hrow, hlive, rfl⟩
    exact ⟨row, hrow, (), hlive, rfl⟩

theorem filesAge_delete (h : softDeleteAttachment id files = .ok files') : FilesAge files files' := by
  obtain ⟨_, -, -, rfl⟩ := softDelete_eq_ok.1 h
  exact filesAge_modify (f := fun row => { row with deleted := true })
    (fun row => ⟨rfl, rfl, rfl, rfl, rfl, rfl, fun h => h⟩) id

theorem filesAge_clock (env : Env) (op : Op) : FilesAge files (startRetentionClock env op files) := by
  have hstart : ∀ (claimId : ℕ) (t : Time),
      FilesAge files (startRetention holderKind claimId t files).2 := by
    intro claimId t n row hrow
    refine ⟨_, getElem?_startRetention hrow, ?_⟩
    split_ifs
    · exact ⟨rfl, rfl, rfl, rfl, rfl, rfl, fun h => h⟩
    · exact .refl row
  unfold startRetentionClock
  split
  · exact hstart _ _
  · exact hstart _ _
  · exact .refl files

end Ageing

/-! ## Every copy is backed -/

/-- The file of a copy: the system's own, clean, held by the copy's claim, with the copy's bytes.  It
may have been deleted since. -/
structure Backs (copy : DocumentSnapshot) (file : Attachment) : Prop where
  kind : copy.subjectKind = holderKind
  origin : file.origin = .generated
  clean : file.scanStatus = .clean
  sha256 : file.sha256 = copy.contentSha256
  holderKind : file.holderKind = some copy.subjectKind
  holderId : file.holderId = some copy.subjectId

structure Kept (a : Archive) : Prop where
  one : OneActive a.snapshots
  backed : ∀ copy ∈ a.snapshots, ∃ file, a.files[copy.attachmentId]? = some file ∧ Backs copy file
  joined : ∀ join ∈ a.joins, ∃ file, a.files[join.attachmentId]? = some file ∧
    file.holderKind = some holderKind ∧ file.holderId = some join.claimId

section Backing

variable {a a' : Archive} {d : Errand} {copy copy' : DocumentSnapshot} {file file' : Attachment}

theorem Backs.later (h : Backs copy file) (hlater : Ages file file') : Backs copy file' where
  kind := h.kind
  origin := hlater.origin.trans h.origin
  clean := hlater.clean h.clean
  sha256 := hlater.sha256.trans h.sha256
  holderKind := hlater.holderKind.trans h.holderKind
  holderId := hlater.holderId.trans h.holderId

/-- What a copy asserts, whatever became of it. -/
theorem Backs.of_eq (h : Backs copy file) (hkind : copy'.subjectKind = copy.subjectKind)
    (hid : copy'.subjectId = copy.subjectId) (hsha : copy'.contentSha256 = copy.contentSha256) :
    Backs copy' file where
  kind := hkind.trans h.kind
  origin := h.origin
  clean := h.clean
  sha256 := h.sha256.trans hsha.symm
  holderKind := by rw [hkind, h.holderKind]
  holderId := by rw [hid, h.holderId]

/-- Files age, copies are voided at most, and new joins are to files the claim holds. -/
theorem Kept.of_age (h : Kept a) (hfiles : FilesAge a.files a'.files)
    (hone : OneActive a'.snapshots)
    (hcopies : ∀ copy ∈ a'.snapshots, ∃ old ∈ a.snapshots, copy.subjectKind = old.subjectKind ∧
      copy.subjectId = old.subjectId ∧ copy.attachmentId = old.attachmentId ∧
      copy.contentSha256 = old.contentSha256)
    (hjoins : ∀ join ∈ a'.joins, (∃ old ∈ a.joins, join.attachmentId = old.attachmentId ∧
      join.claimId = old.claimId) ∨ ∃ file, a'.files[join.attachmentId]? = some file ∧
      file.holderKind = some holderKind ∧ file.holderId = some join.claimId) : Kept a' where
  one := hone
  backed := by
    intro copy hcopy
    obtain ⟨old, hold, hkind, hid, hattachment, hsha⟩ := hcopies copy hcopy
    obtain ⟨file, hfile, hbacks⟩ := h.backed old hold
    obtain ⟨file', hfile', hlater⟩ := hfiles _ _ hfile
    exact ⟨file', by rw [hattachment, hfile'], (hbacks.later hlater).of_eq hkind hid hsha⟩
  joined := by
    intro join hjoin
    rcases hjoins join hjoin with ⟨old, hold, hattachment, hclaim⟩ | hnew
    · obtain ⟨file, hfile, hkind, hid⟩ := h.joined old hold
      obtain ⟨file', hfile', hlater⟩ := hfiles _ _ hfile
      refine ⟨file', by rw [hattachment, hfile'], hlater.holderKind.trans hkind, ?_⟩
      rw [hclaim]
      exact hlater.holderId.trans hid
    · exact hnew

theorem copies_self {rows : List DocumentSnapshot} : ∀ copy ∈ rows, ∃ old ∈ rows,
    copy.subjectKind = old.subjectKind ∧ copy.subjectId = old.subjectId ∧
      copy.attachmentId = old.attachmentId ∧ copy.contentSha256 = old.contentSha256 :=
  fun copy hcopy => ⟨copy, hcopy, rfl, rfl, rfl, rfl⟩

theorem copies_void {rows : List DocumentSnapshot} {t : Time} {r : Voiding} :
    ∀ copy ∈ voidSnapshots t r rows, ∃ old ∈ rows,
      copy.subjectKind = old.subjectKind ∧ copy.subjectId = old.subjectId ∧
        copy.attachmentId = old.attachmentId ∧ copy.contentSha256 = old.contentSha256 := by
  intro copy hcopy
  obtain ⟨old, hold, rfl⟩ := List.mem_map.1 hcopy
  refine ⟨old, hold, ?_⟩
  split_ifs
  · exact ⟨rfl, rfl, rfl, rfl⟩
  · exact ⟨rfl, rfl, rfl, rfl⟩

theorem joins_self {joins : List ReimbAttachment} {files : List Attachment} : ∀ join ∈ joins,
    (∃ old ∈ joins, join.attachmentId = old.attachmentId ∧ join.claimId = old.claimId) ∨
      ∃ file, files[join.attachmentId]? = some file ∧ file.holderKind = some holderKind ∧
        file.holderId = some join.claimId :=
  fun join hjoin => .inl ⟨join, hjoin, rfl, rfl⟩

/-- Only the store and the files change, and the files age. -/
theorem Kept.of_files (h : Kept a) (hfiles : FilesAge a.files a'.files)
    (hsnapshots : a'.snapshots = a.snapshots) (hjoins : a'.joins = a.joins) : Kept a' := by
  refine h.of_age hfiles (hsnapshots ▸ h.one) ?_ ?_
  · rw [hsnapshots]
    exact copies_self
  · rw [hjoins]
    exact joins_self

/-- The same with the claim's copies voided. -/
theorem Kept.of_void (h : Kept a) {t : Time} {r : Voiding}
    (hfiles : FilesAge a.files a'.files) (hsnapshots : a'.snapshots = voidSnapshots t r a.snapshots)
    (hjoins : ∀ join ∈ a'.joins, (∃ old ∈ a.joins, join.attachmentId = old.attachmentId ∧
      join.claimId = old.claimId) ∨ ∃ file, a'.files[join.attachmentId]? = some file ∧
      file.holderKind = some holderKind ∧ file.holderId = some join.claimId) : Kept a' := by
  refine h.of_age hfiles (hsnapshots ▸ h.one.void) ?_ hjoins
  rw [hsnapshots]
  exact copies_void

/-- A document filed: one more file, its join, and a copy in the place of the last one. -/
theorem Kept.filed {p : Pass} {s : Sheet} {data : Upload} {fingerprint : String} {id : ℕ}
    (h : Kept a) (hfiled : Filed p s data fingerprint a id a') : Kept a' where
  one := h.one.freeze hfiled.snapshots
  backed := by
    have hnew : a'.files[id]? = some (p.fileRow s data) := by
      rw [hfiled.files, hfiled.id_eq, List.getElem?_concat_length]
    intro copy hcopy
    obtain ⟨n, hn⟩ := List.mem_iff_getElem?.1 hcopy
    by_cases hlast : n = a.snapshots.length
    · rw [hlast, getElem?_freeze_last hfiled.snapshots] at hn
      obtain rfl := Option.some.inj hn
      exact ⟨_, hnew, rfl, rfl, rfl, rfl, rfl, rfl⟩
    · have hlt : n < a.snapshots.length := by
        have hlt' := (List.getElem?_eq_some_iff.1 hn).1
        rw [length_freeze hfiled.snapshots] at hlt'
        omega
      rw [getElem?_freeze hfiled.snapshots (List.getElem?_eq_getElem hlt)] at hn
      obtain ⟨file, hfile, hbacks⟩ := h.backed _ (List.getElem_mem hlt)
      obtain ⟨file', hfile', hlater⟩ := filesAge_append [p.fileRow s data] _ _ hfile
      refine ⟨file', ?_, (hbacks.later hlater).of_eq ?_ ?_ ?_⟩
      · rw [hfiled.files, ← hfile', ← Option.some.inj hn]
        split_ifs <;> rfl
      all_goals
        rw [← Option.some.inj hn]
        split_ifs <;> rfl
  joined := by
    obtain ⟨join, hclaim, hattachment, -, hjoins⟩ := hfiled.joins
    intro j hj
    rw [hjoins] at hj
    rcases List.mem_append.1 hj with hold | hnew
    · obtain ⟨file, hfile, hholder⟩ := h.joined j hold
      have hlt := (List.getElem?_eq_some_iff.1 hfile).1
      exact ⟨file, by rw [hfiled.files, List.getElem?_append_left hlt, hfile], hholder⟩
    · obtain rfl := List.mem_singleton.1 hnew
      refine ⟨p.fileRow s data, ?_, rfl, ?_⟩
      · rw [hattachment, hfiled.files, hfiled.id_eq, List.getElem?_concat_length]
      · rw [hclaim]
        rfl

theorem Kept.issued {p : Pass} {s : Sheet} {context : Except Raised Context}
    {print : String → Context → Context} {r : GeneratedDocument} (h : Kept a)
    (hissued : Issued p s context print a r a') : Kept a' := by
  cases hissued with
  | failed detail => exact h
  | unchanged c n copy _ _ _ => exact h
  | generated c data id a' _ _ hfile => exact h.filed (file_filed hfile)

theorem Kept.forms {p : Pass} {bound : List TemplateMap} {forms : List GeneratedDocument}
    (h : Kept a) (hforms : generateForms p bound a = .ok (forms, a')) : Kept a' := by
  induction bound generalizing a forms with
  | nil =>
      obtain ⟨-, rfl⟩ := Prod.mk.inj (Except.ok.inj hforms)
      exact h
  | cons b bound ih =>
      obtain ⟨r, rest, a₁, hfirst, hrest, -⟩ := generateForms_cons.1 hforms
      exact ih (h.issued (issue_cases hfirst)) hrest

theorem Kept.generated {room : PrintRoom} {claimId : ℕ} {actor : Option ℕ} {now : Option Time}
    {results : List GeneratedDocument} (h : Kept a)
    (hok : a.generateClaimDocuments room claimId actor now = .ok (results, a')) : Kept a' := by
  simp only [Archive.generateClaimDocuments, bind_eq_ok] at hok
  obtain ⟨claim, -, hrun⟩ := hok
  obtain ⟨forms, packet, a₁, hforms, hpacket, -⟩ := run_eq_ok.1 hrun
  exact (h.forms hforms).issued (issue_cases hpacket)

/-- Every errand that returns keeps the file room in order. -/
theorem Kept.step (h : Kept a) (hok : d.step a = .ok a') : Kept a' := by
  cases d with
  | call c hfiles =>
      simp only [Errand.step, bind_eq_ok, pure_eq_ok] at hok
      obtain ⟨σ, -, rfl⟩ := hok
      exact h.of_files (filesAge_clock c.env c.op) rfl rfl
  | editDraft env r =>
      simp only [Errand.step, Archive.updateDraftFields, bind_eq_ok, pure_eq_ok] at hok
      obtain ⟨claim, -, σ, -, rfl⟩ := hok
      split_ifs
      · exact h.of_files (.refl _) rfl rfl
      · exact h.of_void (.refl _) rfl joins_self
  | replaceLegs env r =>
      simp only [Errand.step, Archive.replaceLegs, bind_eq_ok, pure_eq_ok] at hok
      obtain ⟨σ, -, rfl⟩ := hok
      exact h.of_void (.refl _) rfl joins_self
  | attach env r =>
      simp only [Errand.step, Archive.attachEvidence, bind_eq_ok, pure_eq_ok, Prod.exists] at hok
      obtain ⟨itemId, -, id, files, hupload, σ, -, rfl⟩ := hok
      obtain ⟨hage, rfl, rfl⟩ := filesAge_upload hupload
      refine h.of_void hage rfl fun join hjoin => ?_
      rcases List.mem_append.1 hjoin with hold | hnew
      · exact .inl ⟨join, hold, rfl, rfl⟩
      · obtain rfl := List.mem_singleton.1 hnew
        exact .inr ⟨_, List.getElem?_concat_length, rfl, rfl⟩
  | detach env r =>
      simp only [Errand.step, Archive.detachEvidence, bind_eq_ok, pure_eq_ok] at hok
      obtain ⟨_, -, join, -, files, hdelete, σ, -, rfl⟩ := hok
      refine h.of_void (filesAge_delete hdelete) rfl fun j hj => .inl ?_
      obtain ⟨n, hn⟩ := List.mem_iff_getElem?.1 hj
      rcases getElem?_modify_eq_some hn with ⟨-, old, hold, rfl⟩ | ⟨-, hold⟩
      · exact ⟨old, List.mem_of_getElem? hold, rfl, rfl⟩
      · exact ⟨j, List.mem_of_getElem? hold, rfl, rfl⟩
  | generate room claimId actor now =>
      obtain ⟨⟨results, a''⟩, hgenerate, rfl⟩ := map_eq_ok.1 hok
      exact h.generated hgenerate
  | scan id verdict =>
      obtain rfl := Except.ok.inj hok
      exact h.of_files (filesAge_scan id verdict) rfl rfl
  | upload r =>
      simp only [Errand.step, bind_eq_ok, pure_eq_ok, Prod.exists] at hok
      obtain ⟨id, files, hupload, rfl⟩ := hok
      exact h.of_files (filesAge_upload hupload).1 rfl rfl
  | delete id =>
      simp only [Errand.step, bind_eq_ok, pure_eq_ok] at hok
      obtain ⟨files, hdelete, rfl⟩ := hok
      exact h.of_files (filesAge_delete hdelete) rfl rfl

theorem kept_empty : Kept {} where
  one := List.nodup_nil
  backed := by simp
  joined := by simp

/-- Over every run of errands: one live copy of a document at most, and behind every copy, live or
retired, a clean file of the system's own that its claim holds, with the bytes the copy asserts. -/
theorem kept_runArchive (errands : List Errand) : Kept (runArchive errands) :=
  run_invariant (P := fun _ _ => True) (fun _ _ _ _ h hok => h.step hok) errands _ kept_empty
    (conforms_of_forall (P := fun _ => True) (fun _ _ => trivial) _)

end Backing

end OfficeConnect.Reimbursement
