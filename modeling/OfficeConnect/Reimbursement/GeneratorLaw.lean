import OfficeConnect.Reimbursement.Generator

/-!
# What one pass of the generator does

A pass reads the claim's tables and writes only its items; it adds files, joins and snapshots and
takes none away.  The files are the system's own, so what counts as the claimant's evidence stays as
it was, and the store of a pass is the one `generateClaimDocuments` makes of the codes it rendered.
-/

namespace OfficeConnect.Reimbursement

open Lib Workflow

/-! ## The claimant's files -/

/-- The live files the claimant supplied. -/
def Archive.uploads (a : Archive) : List (ℕ × ReimbAttachment × Attachment) :=
  a.filed.filter fun f => f.2.2.origin = .uploaded

/-- What an archive grows by: a document of the system joined to the claim. -/
structure MoreFiled (a a' : Archive) : Prop where
  store : ∃ items, a'.store = { a.store with items := items }
  uploads : a'.uploads = a.uploads
  one : OneActive a.snapshots → OneActive a'.snapshots
  aged : Aged a.snapshots a'.snapshots

theorem MoreFiled.refl (a : Archive) : MoreFiled a a where
  store := ⟨a.store.items, rfl⟩
  uploads := rfl
  one := id
  aged := Aged.refl _

theorem MoreFiled.trans {a b c : Archive} (hab : MoreFiled a b) (hbc : MoreFiled b c) : MoreFiled a c where
  store := by
    obtain ⟨items, hitems⟩ := hab.store
    obtain ⟨items', hitems'⟩ := hbc.store
    exact ⟨items', by rw [hitems', hitems]⟩
  uploads := hbc.uploads.trans hab.uploads
  one := fun h => hbc.one (hab.one h)
  aged := hab.aged.trans hbc.aged

section Uploads

variable {a a' : Archive} {claimId itemId : ℕ}

theorem evidenceCounts_eq (a : Archive) (itemId : ℕ) :
    a.evidenceCounts itemId =
      (let files := (a.uploads.filter fun f => f.2.1.checklistItemId = some itemId).map (·.2.2)
       { usable := (files.filter (·.scanStatus ≠ .infected)).length
         pending := (files.filter (·.scanStatus = .pending)).length
         infected := (files.filter (·.scanStatus = .infected)).length }) := by
  simp only [Archive.evidenceCounts, Archive.uploads, List.filter_filter, Bool.decide_and]

theorem evidenceCounts_congr (h : a'.uploads = a.uploads) : a'.evidenceCounts = a.evidenceCounts := by
  funext itemId
  rw [evidenceCounts_eq, evidenceCounts_eq, h]

theorem counting_congr (env : Env) (h : a'.uploads = a.uploads) : env.counting a' = env.counting a := by
  rw [Env.counting, Env.counting, evidenceCounts_congr h]

theorem evidenceManifest_congr (h : a'.uploads = a.uploads) (plan : List ItemPlan) :
    evidenceManifest a' claimId plan = evidenceManifest a claimId plan := by
  have hfiles : ∀ b : Archive, (b.filed.filter fun f => f.2.1.claimId = claimId ∧
      f.2.1.checklistItemId ≠ none ∧ f.2.2.origin = .uploaded) =
      b.uploads.filter fun f => f.2.1.claimId = claimId ∧ f.2.1.checklistItemId ≠ none := by
    intro b
    rw [Archive.uploads, List.filter_filter]
    refine List.filter_congr fun f _ => ?_
    simp only [Bool.decide_and, Bool.and_assoc]
  unfold evidenceManifest
  rw [hfiles, hfiles, h]

/-- The live file of a join row. -/
def joined (files : List Attachment) (r : ℕ × ReimbAttachment) :
    Option (ℕ × ReimbAttachment × Attachment) :=
  (files[r.2.attachmentId]?).bind fun file =>
    if ¬ r.2.deleted ∧ ¬ file.deleted then some (r.1, r.2, file) else none

/-- The live file of a join row, if the claimant supplied it. -/
def joinedUpload (files : List Attachment) (r : ℕ × ReimbAttachment) :
    Option (ℕ × ReimbAttachment × Attachment) :=
  (joined files r).filter fun f => f.2.2.origin = .uploaded

theorem uploads_eq (a : Archive) :
    a.uploads = (a.joins.zipIdx.map Prod.swap).filterMap (joinedUpload a.files) :=
  List.filter_filterMap ..

theorem joinedUpload_eq_some {files : List Attachment} {r : ℕ × ReimbAttachment}
    {f : ℕ × ReimbAttachment × Attachment} :
    joinedUpload files r = some f ↔ f.1 = r.1 ∧ f.2.1 = r.2 ∧
      files[r.2.attachmentId]? = some f.2.2 ∧ r.2.deleted = false ∧ f.2.2.deleted = false ∧
      f.2.2.origin = .uploaded := by
  obtain ⟨n, join, file⟩ := f
  simp only [joinedUpload, joined, Option.filter_eq_some_iff, Option.bind_eq_some_iff,
    Bool.not_eq_true, Option.ite_none_right_eq_some, Option.some.injEq, Prod.mk.injEq,
    decide_eq_true_eq]
  constructor
  · rintro ⟨⟨file', hfile, hlive, rfl, rfl, rfl⟩, horigin⟩
    exact ⟨rfl, rfl, hfile, hlive.1, hlive.2, horigin⟩
  · rintro ⟨rfl, rfl, hfile, hjoin, hlive, horigin⟩
    exact ⟨⟨file, hfile, ⟨hjoin, hlive⟩, rfl, rfl, rfl⟩, horigin⟩

/-- One more file of the system changes no upload. -/
theorem joinedUpload_concat {files : List Attachment} {file : Attachment}
    (horigin : file.origin = .generated) (r : ℕ × ReimbAttachment) :
    joinedUpload (files ++ [file]) r = joinedUpload files r := by
  ext f
  rw [joinedUpload_eq_some, joinedUpload_eq_some]
  refine and_congr_right fun _ => and_congr_right fun _ => ?_
  constructor
  · rintro ⟨hfile, hlive⟩
    refine ⟨?_, hlive⟩
    rcases getElem?_concat_eq_some hfile with hold | hnew
    · exact hold
    · rw [hnew.2, horigin] at hlive
      exact absurd hlive.2.2 (by decide)
  · rintro ⟨hfile, hlive⟩
    have hlt := (List.getElem?_eq_some_iff.1 hfile).1
    exact ⟨by rw [List.getElem?_append_left hlt, hfile], hlive⟩

/-- A generated file joined to the claim is none of the claimant's. -/
theorem uploads_concat {join : ReimbAttachment} {file : Attachment}
    (hid : join.attachmentId = a.files.length) (horigin : file.origin = .generated)
    (hfiles : a'.files = a.files ++ [file]) (hjoins : a'.joins = a.joins ++ [join]) :
    a'.uploads = a.uploads := by
  have hplaces : a'.joins.zipIdx.map Prod.swap =
      a.joins.zipIdx.map Prod.swap ++ [(a.joins.length, join)] := by
    rw [hjoins, List.zipIdx_append, List.map_append]
    simp
  have hnew : joinedUpload a.files (a.joins.length, join) = none := by
    rw [Option.eq_none_iff_forall_ne_some]
    intro f hf
    have hfile := (joinedUpload_eq_some.1 hf).2.2.1
    rw [hid, List.getElem?_eq_none le_rfl] at hfile
    cases hfile
  rw [uploads_eq, uploads_eq, hplaces, hfiles, List.filterMap_append,
    List.filterMap_congr fun r _ => joinedUpload_concat horigin r,
    List.filterMap_cons_none (by rw [joinedUpload_concat horigin, hnew]), List.filterMap_nil,
    List.append_nil]

end Uploads

/-! ## Filing a document -/

theorem modify_materializeItem (items : List ChecklistItem) (existing : Option (ℕ × ChecklistItem))
    (claimId : ℕ) (row : CatalogRow) :
    (materializeItem items existing claimId row id).modify ((existing.map (·.1)).getD items.length)
        (fun i => { i with status := .generated }) =
      materializeItem items existing claimId row fun _ => .generated := by
  cases existing with
  | none => exact modify_length_append ..
  | some r =>
      simp only [materializeItem, Option.map_some, Option.getD_some, List.modify_modify_eq]
      rfl

section Filing

variable {p : Pass} {s : Sheet} {data : Upload} {fingerprint : String} {a a' : Archive} {id : ℕ}
  {itemId : Option ℕ}

/-- The file of a generated document. -/
def Pass.fileRow (p : Pass) (s : Sheet) (data : Upload) : Attachment :=
  ({ filename := filename p.claimId p.claim s.suffix p.stamp
     holderKind := some holderKind
     holderId := some p.claimId
     retentionClass := retentionClass
     origin := .generated
     actorId := p.actorUserId } : Deposit).row data

/-- What filing a document does to the archive. -/
structure Filed (p : Pass) (s : Sheet) (data : Upload) (fingerprint : String) (a : Archive) (id : ℕ)
    (a' : Archive) : Prop where
  allowed : data.allowed = true
  id_eq : id = a.files.length
  store : ∃ items, a'.store = { a.store with items := items }
  files : a'.files = a.files ++ [p.fileRow s data]
  joins : ∃ join : ReimbAttachment, join.claimId = p.claimId ∧ join.attachmentId = id ∧
    join.deleted = false ∧ a'.joins = a.joins ++ [join]
  snapshots : freezeSnapshot p.env.utcNow (p.freeze s id data fingerprint) a.snapshots =
    .ok a'.snapshots

theorem deposit_filed (h : p.deposit s itemId data fingerprint a = .ok (id, a')) :
    Filed p s data fingerprint a id a' ∧ a'.store = a.store := by
  simp only [Pass.deposit, storeGeneratedDocument, uploadAttachment, bind_eq_ok, pure_eq_ok,
    refuse_eq_ok, Prod.exists, Prod.mk.injEq] at h
  obtain ⟨_, _, ⟨_, _, ⟨_, hallowed, rfl, rfl⟩, rfl, rfl⟩, snapshots, hfreeze, rfl, rfl⟩ := h
  exact ⟨⟨by simpa using hallowed, rfl, ⟨_, rfl⟩, rfl, ⟨_, rfl, rfl, rfl, rfl⟩, hfreeze⟩, rfl⟩

theorem materializeGeneratedItem_store {env : Env} {claimId : ℕ} {claim : Claim} {code : String}
    {σ : Store} {r : ℕ × Store} (h : materializeGeneratedItem env claimId claim code σ = .ok r) :
    ∃ items, r.2 = { σ with items := items } := by
  simp only [materializeGeneratedItem, bind_eq_ok, pure_eq_ok] at h
  obtain ⟨_, _, _, _, _, _, rfl⟩ := h
  exact ⟨_, rfl⟩

theorem file_filed (h : p.file s data fingerprint a = .ok (id, a')) :
    Filed p s data fingerprint a id a' := by
  unfold Pass.file at h
  cases hitem : s.item with
  | none =>
      rw [hitem] at h
      exact (deposit_filed h).1
  | some code =>
      rw [hitem] at h
      simp only [bind_eq_ok, pure_eq_ok, Prod.exists, Prod.mk.injEq] at h
      obtain ⟨item, σ, hitem, _, b, hdeposit, rfl, rfl⟩ := h
      obtain ⟨items, hσ⟩ := materializeGeneratedItem_store hitem
      obtain ⟨hfiled, hstore⟩ := deposit_filed hdeposit
      refine ⟨hfiled.allowed, hfiled.id_eq, ?_, hfiled.files, hfiled.joins, hfiled.snapshots⟩
      have hb : b.store = { a.store with items := items } := hstore.trans hσ
      change ∃ items, markItemGenerated _ _ _ _ b.store = _
      rw [hb]
      exact ⟨_, rfl⟩

theorem Filed.grown (h : Filed p s data fingerprint a id a') : MoreFiled a a' where
  store := h.store
  uploads := by
    obtain ⟨join, -, hid, -, hjoins⟩ := h.joins
    exact uploads_concat (hid.trans h.id_eq) rfl h.files hjoins
  one := fun hone => hone.freeze h.snapshots
  aged := aged_freeze h.snapshots

/-- Filing a form writes the store as `markGenerated` does. -/
theorem file_store {code : String} (hclaim : a.store.claims[p.claimId]? = some p.claim)
    (hitem : s.item = some code) (h : p.file s data fingerprint a = .ok (id, a')) :
    markGenerated (p.env.counting a) p.claimId code a.store = .ok a'.store := by
  simp only [Pass.file, hitem, bind_eq_ok, pure_eq_ok, Prod.exists, Prod.mk.injEq] at h
  obtain ⟨item, σ, hmaterialize, _, b, hdeposit, rfl, rfl⟩ := h
  obtain ⟨hfiled, hstore⟩ := deposit_filed hdeposit
  have hcounting : p.env.counting b = p.env.counting a := by
    refine counting_congr p.env ?_
    exact hfiled.grown.uploads
  simp only [materializeGeneratedItem, bind_eq_ok, pure_eq_ok, found_eq_ok, refuse_eq_ok,
    Prod.mk.injEq] at hmaterialize
  obtain ⟨row?, hrow?, row, rfl, _, hevidence, rfl, rfl⟩ := hmaterialize
  have hfind : (activeCatalog (p.env.counting a) p.claim.kind).find? (·.code = code) = some row := by
    rw [← List.head?_filter, scalarOneOrNone_eq_some.1 hrow?]
    rfl
  simp only [markGenerated, lockedClaim, hclaim, found_some, ok_bind, hfind,
    refuse_of_not _ hevidence, hcounting, hstore, markItemGenerated, modify_materializeItem]
  rfl

end Filing

/-! ## The three outcomes -/

section Issuing

variable {p : Pass} {s : Sheet} {context : Except Raised Context}
  {print : String → Context → Context} {a a' : Archive} {r : GeneratedDocument}

/-- What the pipeline does with one document. -/
inductive Issued (p : Pass) (s : Sheet) (context : Except Raised Context)
    (print : String → Context → Context) (a : Archive) : GeneratedDocument → Archive → Prop
  | failed (detail : String) : Issued p s context print a (s.failed detail) a
  | unchanged (c : Context) (n : ℕ) (copy : DocumentSnapshot) (hcontext : context = .ok c)
      (hcopy : findActive a.snapshots (copyKey p.claimId s.documentKey) = .ok (some (n, copy)))
      (hcurrent : p.current (p.press.fingerprint (comparableContext c)) copy = true) :
      Issued p s context print a (s.unchanged copy) a
  | generated (c : Context) (data : Upload) (id : ℕ) (a' : Archive) (hcontext : context = .ok c)
      (hrender : p.press.render s.documentKey
        (print (p.press.fingerprint (comparableContext c)) c) = .pdf data)
      (hfile : p.file s data (p.press.fingerprint (comparableContext c)) a = .ok (id, a')) :
      Issued p s context print a (s.generated id data) a'

theorem issue_cases (h : p.issue s context print a = .ok (r, a')) : Issued p s context print a r a' := by
  unfold Pass.issue at h
  cases context with
  | error e =>
      obtain ⟨rfl, rfl⟩ := by simpa using h
      exact .failed _
  | ok c =>
      simp only [bind_eq_ok] at h
      obtain ⟨existing, hfind, h⟩ := h
      split at h
      · rename_i copy hcopy
        obtain ⟨rfl, hcurrent⟩ := Option.filter_eq_some_iff.1 hcopy
        obtain ⟨rfl, rfl⟩ := by simpa using h
        exact .unchanged c copy.1 copy.2 rfl hfind hcurrent
      · split at h
        · cases h
        · obtain ⟨rfl, rfl⟩ := by simpa using h
          exact .failed _
        · rename_i data hrender
          simp only [bind_eq_ok, pure_eq_ok, Prod.exists, Prod.mk.injEq] at h
          obtain ⟨id, b, hfile, rfl, rfl⟩ := h
          exact .generated c data id b rfl hrender hfile

theorem Issued.grown (h : Issued p s context print a r a') : MoreFiled a a' := by
  cases h with
  | failed detail => exact .refl a
  | unchanged c n copy _ _ _ => exact .refl a
  | generated c data id a' _ _ hfile => exact (file_filed hfile).grown

/-- The other documents keep their live copies. -/
theorem Issued.find_other (h : Issued p s context print a r a') (hone : OneActive a.snapshots)
    {k : CopyKey} (hk : k ≠ copyKey p.claimId s.documentKey) :
    findActive a'.snapshots k = findActive a.snapshots k := by
  cases h with
  | failed detail => rfl
  | unchanged c n copy _ _ _ => rfl
  | generated c data id a' _ _ hfile => exact hone.find_freeze_other (file_filed hfile).snapshots hk

/-- The live copy of a document, printed from data of this fingerprint. -/
structure Holds (p : Pass) (documentKey fingerprint : String) (copy : ℕ × DocumentSnapshot)
    (a : Archive) : Prop where
  find : findActive a.snapshots (copyKey p.claimId documentKey) = .ok (some copy)
  current : p.current fingerprint copy.2 = true

/-- A document with a current live copy is not printed again. -/
theorem Holds.issue {c : Context} {copy : ℕ × DocumentSnapshot}
    (h : Holds p s.documentKey (p.press.fingerprint (comparableContext c)) copy a) :
    p.issue s (.ok c) print a = .ok (s.unchanged copy.2, a) := by
  simp only [Pass.issue, h.find, ok_bind, Option.filter_some, h.current, if_true]
  rfl

theorem Holds.kept {documentKey fingerprint : String} {copy : ℕ × DocumentSnapshot}
    (h : Holds p documentKey fingerprint copy a)
    (hfind : findActive a'.snapshots (copyKey p.claimId documentKey) =
      findActive a.snapshots (copyKey p.claimId documentKey)) :
    Holds p documentKey fingerprint copy a' := ⟨hfind.trans h.find, h.current⟩

/-- What a document with this live copy is reported as when it is asked for again. -/
def GeneratedDocument.again (r : GeneratedDocument) : GeneratedDocument :=
  { r with outcome := .unchanged }

/-- A document that did not fail is reported from its live copy. -/
theorem Issued.holds (h : Issued p s context print a r a') (hone : OneActive a.snapshots)
    (hr : r.outcome ≠ .failed) :
    ∃ c copy, context = .ok c ∧
      Holds p s.documentKey (p.press.fingerprint (comparableContext c)) copy a' ∧
      r.again = s.unchanged copy.2 := by
  cases h with
  | failed detail => exact absurd rfl hr
  | unchanged c n copy hcontext hcopy hcurrent =>
      exact ⟨c, (n, copy), hcontext, ⟨hcopy, hcurrent⟩, rfl⟩
  | generated c data id a' hcontext _ hfile =>
      have hfind := hone.find_freeze_self (file_filed hfile).snapshots
      refine ⟨c, (_, _), hcontext, ⟨hfind, ?_⟩, rfl⟩
      simp [Pass.current, Pass.freeze, Freeze.row]

theorem Issued.documentKey (h : Issued p s context print a r a') : r.documentKey = s.documentKey := by
  cases h <;> rfl

end Issuing

/-! ## A pass -/

section Passing

variable {p : Pass} {bound : List TemplateMap} {results : List GeneratedDocument} {a a' : Archive}
  {b : TemplateMap} {sections : List PacketSection} {r : GeneratedDocument}

/-- The context of a form reads the tables a pass does not write. -/
theorem formContext_congr (p : Pass) (b : TemplateMap) {σ : Store} (items : List ChecklistItem) :
    p.formContext b { σ with items := items } = p.formContext b σ := rfl

theorem MoreFiled.formContext (h : MoreFiled a a') (p : Pass) (b : TemplateMap) :
    p.formContext b a'.store = p.formContext b a.store := by
  obtain ⟨items, hstore⟩ := h.store
  rw [hstore, formContext_congr]

theorem generateForms_cons :
    generateForms p (b :: bound) a = .ok (results, a') ↔ ∃ r rest a₁,
      generateOne p b a = .ok (r, a₁) ∧ generateForms p bound a₁ = .ok (rest, a') ∧
        results = r :: rest := by
  simp only [generateForms, bind_eq_ok, pure_eq_ok, Prod.exists, Prod.mk.injEq]
  constructor
  · rintro ⟨r, a₁, hone, rest, a₂, hrest, rfl, rfl⟩
    exact ⟨r, rest, a₁, hone, hrest, rfl⟩
  · rintro ⟨r, rest, a₁, hone, hrest, rfl⟩
    exact ⟨r, a₁, hone, rest, a', hrest, rfl, rfl⟩

theorem run_eq_ok :
    p.run bound a = .ok (results, a') ↔ ∃ forms packet a₁,
      generateForms p bound a = .ok (forms, a₁) ∧
      generatePacket p (bound.map (TemplateMap.section forms)) a₁ = .ok (packet, a') ∧
        results = forms ++ [packet] := by
  simp only [Pass.run, bind_eq_ok, pure_eq_ok, Prod.exists, Prod.mk.injEq]
  constructor
  · rintro ⟨forms, a₁, hforms, packet, a₂, hpacket, rfl, rfl⟩
    exact ⟨forms, packet, a₁, hforms, hpacket, rfl⟩
  · rintro ⟨forms, packet, a₁, hforms, hpacket, rfl⟩
    exact ⟨forms, a₁, hforms, packet, a', hpacket, rfl, rfl⟩

theorem generateForms_grown (h : generateForms p bound a = .ok (results, a')) : MoreFiled a a' := by
  induction bound generalizing a results with
  | nil =>
      obtain ⟨rfl, rfl⟩ := by simpa [generateForms] using h
      exact .refl a
  | cons b bound ih =>
      obtain ⟨r, rest, a₁, hone, hrest, rfl⟩ := generateForms_cons.1 h
      exact (issue_cases hone).grown.trans (ih hrest)

theorem run_grown (h : p.run bound a = .ok (results, a')) : MoreFiled a a' := by
  obtain ⟨forms, packet, a₁, hforms, hpacket, -⟩ := run_eq_ok.1 h
  exact (generateForms_grown hforms).trans (issue_cases hpacket).grown

/-- The codes of the documents a pass rendered. -/
def renderedCodes (results : List GeneratedDocument) : List String :=
  (results.filter (·.outcome = .generated)).map (·.checklistCode)

theorem generateOne_store (hclaim : a.store.claims[p.claimId]? = some p.claim)
    (h : generateOne p b a = .ok (r, a')) :
    (renderedCodes [r]).foldlM (fun σ code => markGenerated (p.env.counting a) p.claimId code σ)
      a.store = .ok a'.store := by
  cases issue_cases h with
  | failed detail => rfl
  | unchanged c n copy _ _ _ => rfl
  | generated c data id a' _ _ hfile =>
      change (markGenerated (p.env.counting a) p.claimId b.checklistCode a.store >>= pure) = _
      rw [file_store hclaim rfl hfile]
      rfl

theorem MoreFiled.claims (h : MoreFiled a a') : a'.store.claims = a.store.claims := by
  obtain ⟨items, hstore⟩ := h.store
  rw [hstore]

/-- The forms of a pass leave the store that `generateClaimDocuments` makes of their codes. -/
theorem generateForms_store (hclaim : a.store.claims[p.claimId]? = some p.claim)
    (h : generateForms p bound a = .ok (results, a')) :
    generateClaimDocuments (p.env.counting a) p.claimId (renderedCodes results) a.store =
      .ok a'.store := by
  have hfold : (renderedCodes results).foldlM
      (fun σ code => markGenerated (p.env.counting a) p.claimId code σ) a.store = .ok a'.store := by
    induction bound generalizing a results with
    | nil =>
        obtain ⟨rfl, rfl⟩ := by simpa [generateForms] using h
        rfl
    | cons b bound ih =>
        obtain ⟨r, rest, a₁, hone, hrest, rfl⟩ := generateForms_cons.1 h
        have hgrown := (issue_cases hone).grown
        have hcodes : renderedCodes (r :: rest) = renderedCodes [r] ++ renderedCodes rest := by
          rw [renderedCodes, renderedCodes, renderedCodes, ← List.map_append, ← List.filter_append]
          rfl
        rw [hcodes, List.foldlM_append, generateOne_store hclaim hone, ok_bind,
          ← counting_congr p.env hgrown.uploads]
        exact ih (by rw [hgrown.claims, hclaim]) hrest
  simp only [generateClaimDocuments, lockedClaim, hclaim, found_some, ok_bind, hfold]

theorem packet_store (h : generatePacket p sections a = .ok (r, a')) : a'.store = a.store := by
  cases issue_cases h with
  | failed detail => rfl
  | unchanged c n copy _ _ _ => rfl
  | generated c data id a' _ _ hfile => exact (deposit_filed hfile).2

/-- The store of a pass is the one `generateClaimDocuments` makes of the forms it rendered. -/
theorem run_store (hclaim : a.store.claims[p.claimId]? = some p.claim)
    (h : p.run bound a = .ok (results, a')) :
    generateClaimDocuments (p.env.counting a) p.claimId (renderedCodes results.dropLast) a.store =
      .ok a'.store := by
  obtain ⟨forms, packet, a₁, hforms, hpacket, rfl⟩ := run_eq_ok.1 h
  rw [List.dropLast_concat, packet_store hpacket]
  exact generateForms_store hclaim hforms

theorem generateClaimDocuments_grown {room : PrintRoom} {claimId : ℕ} {actor : Option ℕ}
    {now : Option Time}
    (h : a.generateClaimDocuments room claimId actor now = .ok (results, a')) : MoreFiled a a' := by
  simp only [Archive.generateClaimDocuments, bind_eq_ok] at h
  obtain ⟨claim, -, hrun⟩ := h
  exact run_grown hrun

end Passing

end OfficeConnect.Reimbursement
