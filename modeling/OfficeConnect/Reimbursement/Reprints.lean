import OfficeConnect.Reimbursement.GeneratorLaw
import OfficeConnect.Lib.Run

/-!
# Asking for the documents again

The worker retries a pass that reports a failure, and a claimant may ask twice.  An attempt brings its
own clock and its own engine; the data is what it was.  A form that has been filed is not printed
again, whatever becomes of the others, and a pass in which nothing failed is the last one of its day
that writes anything.
-/

namespace OfficeConnect.Reimbursement

open Lib Workflow

/-! ## Attempts -/

def Env.clock (env : Env) (t : Time) : Env :=
  { env with directory := { env.directory with utcNow := t } }

/-- When the pass runs, what the engine does this time, and who asked. -/
structure Attempt where
  now : Time
  render : String → Context → Rendering
  actor : Option ℕ := none
  stamp : Option Time := none

/-- The Manila date the pass prints under. -/
def Attempt.day (t : Attempt) : Day := manilaDate (t.stamp.getD t.now)

def PrintRoom.attempt (room : PrintRoom) (t : Attempt) : PrintRoom :=
  { room with
    env := room.env.clock t.now
    press := { room.press with render := t.render } }

def PrintRoom.reprint (room : PrintRoom) (claimId : ℕ) (t : Attempt) (a : Archive) :
    Except Raised (List GeneratedDocument × Archive) :=
  a.generateClaimDocuments (room.attempt t) claimId t.actor t.stamp

/-- The retries of a task: an attempt that raises is rolled back. -/
def PrintRoom.retries (room : PrintRoom) (claimId : ℕ) (a : Archive) (ts : List Attempt) : Archive :=
  Lib.run (fun t a => Prod.snd <$> room.reprint claimId t a) a ts

/-- No form takes the packet's key, and forms under one key print one title and number. -/
def Coherent (bound : List TemplateMap) : Prop :=
  (∀ b ∈ bound, b.documentKey ≠ packetKey) ∧
    ∀ b ∈ bound, ∀ b' ∈ bound, b.documentKey = b'.documentKey →
      b.title = b'.title ∧ b.formNo = b'.formNo

instance (bound : List TemplateMap) : Decidable (Coherent bound) :=
  inferInstanceAs (Decidable (_ ∧ _))

/-- The bindings the module is seeded with (`REIMB_TEMPLATE_MAPS`). -/
def reimbTemplateMaps : List TemplateMap := [
  { claimKind := some .reimbursement, checklistCode := "IOT-45", documentKey := "reimb.iot45"
    title := "Itinerary of Travel", formNo := some "GAM Vol. II, Appendix 45", sort := 1 },
  { claimKind := some .reimbursement, checklistCode := "AR-01", documentKey := "reimb.ar01"
    title := "Accomplishment Report", sort := 2 },
  { claimKind := some .reimbursement, checklistCode := "DV-32", documentKey := "reimb.dv32"
    title := "Disbursement Voucher", formNo := some "GAM Vol. II, Appendix 32", sort := 3 },
  { claimKind := some .liquidation, checklistCode := "LR-44", documentKey := "reimb.lr44"
    title := "Liquidation Report", formNo := some "GAM Vol. II, Appendix 44", sort := 1 }]

theorem coherent_reimbTemplateMaps (kind : Kind) : Coherent (bindings reimbTemplateMaps kind) := by
  cases kind with
  | reimbursement => decide +kernel
  | liquidation => decide +kernel

/-! ## Two passes over the same data -/

/-- The passes differ in clock, engine and actor only. -/
structure Pass.Again (p q : Pass) : Prop where
  env : ∃ t, q.env = p.env.clock t
  page : q.page = p.page
  fingerprint : q.press.fingerprint = p.press.fingerprint
  claimId : q.claimId = p.claimId
  claim : q.claim = p.claim

section

variable {p q : Pass} {b b' : TemplateMap} {bound : List TemplateMap} {σ : Store} {c c' : Context}
  {a a' : Archive} {r : GeneratedDocument} {forms results : List GeneratedDocument} {s : Sheet}
  {fingerprint : String} {sections : List PacketSection}

/-- What is hashed of a form is the same, for every form of the key. -/
theorem Pass.Again.formContext (h : p.Again q) (hkey : b'.documentKey = b.documentKey)
    (htitle : b'.title = b.title) (hform : b'.formNo = b.formNo)
    (hc : p.formContext b σ = .ok c) :
    ∃ c', q.formContext b' σ = .ok c' ∧ comparableContext c' = comparableContext c := by
  simp only [Pass.formContext, buildDocumentContext, bind_eq_ok, pure_eq_ok, found_eq_ok] at hc ⊢
  obtain ⟨totals, htotals, rfl⟩ := hc
  rw [h.claim, h.claimId, h.page, hkey, htitle, hform]
  exact ⟨_, ⟨totals, htotals, rfl⟩, rfl⟩

theorem Pass.Again.holds {documentKey fingerprint : String} {copy : ℕ × DocumentSnapshot}
    (h : p.Again q) (hcopy : Holds p documentKey fingerprint copy a) :
    Holds q documentKey fingerprint copy a where
  find := by rw [h.claimId, hcopy.find]
  current := by
    have hcurrent := hcopy.current
    unfold Pass.current at hcurrent ⊢
    rw [h.claim]
    exact hcurrent

/-! ## Forms -/

/-- The form's live copy was printed from its present data, and the result reports it. -/
def Printed (p : Pass) (b : TemplateMap) (r : GeneratedDocument) (a : Archive) : Prop :=
  ∃ c copy, p.formContext b a.store = .ok c ∧
    Holds p b.documentKey (p.press.fingerprint (comparableContext c)) copy a ∧
    r.again = b.sheet.unchanged copy.2

theorem generateOne_printed (h : generateOne p b a = .ok (r, a')) (hone : OneActive a.snapshots)
    (hr : r.outcome ≠ .failed) : Printed p b r a' := by
  have hissued := issue_cases h
  obtain ⟨c, copy, hc, hholds, hsame⟩ := hissued.holds hone hr
  exact ⟨c, copy, by rw [hissued.grown.formContext, hc], hholds, hsame⟩

/-- A form that is up to date is reported and left alone, by every pass over the same data. -/
theorem Printed.generateOne (h : Printed p b r a) (hpq : p.Again q) :
    generateOne q b a = .ok (r.again, a) := by
  obtain ⟨c, copy, hc, hholds, hsame⟩ := h
  obtain ⟨c', hc', hcomparable⟩ := hpq.formContext rfl rfl rfl hc
  rw [hsame, OfficeConnect.Reimbursement.generateOne, hc']
  refine Holds.issue ?_
  rw [hcomparable, hpq.fingerprint]
  exact hpq.holds hholds

theorem Pass.Again.refl (p : Pass) : p.Again p := ⟨⟨_, rfl⟩, rfl, rfl, rfl, rfl⟩

/-- Another form of a coherent set leaves it so. -/
theorem Printed.kept (h : Printed p b r a) (hone : OneActive a.snapshots)
    (hcoherent : b.documentKey = b'.documentKey → b.title = b'.title ∧ b.formNo = b'.formNo)
    {r' : GeneratedDocument} (hother : OfficeConnect.Reimbursement.generateOne p b' a = .ok (r', a')) :
    Printed p b r a' := by
  by_cases hkey : b.documentKey = b'.documentKey
  · obtain ⟨htitle, hform⟩ := hcoherent hkey
    obtain ⟨c, copy, hc, hholds, hsame⟩ := h
    obtain ⟨c', hc', hcomparable⟩ :=
      (Pass.Again.refl p).formContext hkey.symm htitle.symm hform.symm hc
    have hunchanged : OfficeConnect.Reimbursement.generateOne p b' a =
        .ok (b'.sheet.unchanged copy.2, a) := by
      rw [OfficeConnect.Reimbursement.generateOne, hc']
      refine Holds.issue ?_
      rw [hcomparable]
      change Holds p b'.documentKey _ copy a
      rw [← hkey]
      exact hholds
    rw [hunchanged] at hother
    obtain ⟨-, rfl⟩ := Prod.mk.inj (Except.ok.inj hother)
    exact ⟨c, copy, hc, hholds, hsame⟩
  · have hissued := issue_cases hother
    obtain ⟨c, copy, hc, hholds, hsame⟩ := h
    refine ⟨c, copy, by rw [hissued.grown.formContext, hc], hholds.kept ?_, hsame⟩
    refine hissued.find_other hone fun he => hkey ?_
    simpa [copyKey, TemplateMap.sheet] using he

theorem Printed.forms_kept (h : Printed p b r a) (hone : OneActive a.snapshots)
    (hcoherent : ∀ b' ∈ bound, b.documentKey = b'.documentKey →
      b.title = b'.title ∧ b.formNo = b'.formNo)
    (hforms : generateForms p bound a = .ok (forms, a')) : Printed p b r a' := by
  induction bound generalizing a forms with
  | nil =>
      obtain ⟨-, rfl⟩ := Prod.mk.inj (Except.ok.inj hforms)
      exact h
  | cons b' bound ih =>
      obtain ⟨r', rest, a₁, hfirst, hrest, rfl⟩ := generateForms_cons.1 hforms
      have hkept := h.kept hone (hcoherent b' (by simp)) hfirst
      exact ih hkept ((issue_cases hfirst).grown.one hone)
        (fun b'' hb'' => hcoherent b'' (by simp [hb''])) hrest

/-- After the forms of a pass, each that did not fail is up to date. -/
theorem forms_printed (hone : OneActive a.snapshots) (hbound : Coherent bound)
    (hforms : generateForms p bound a = .ok (forms, a')) :
    List.Forall₂ (fun b r => r.outcome ≠ .failed → Printed p b r a') bound forms := by
  induction bound generalizing a forms with
  | nil =>
      obtain ⟨rfl, -⟩ := Prod.mk.inj (Except.ok.inj hforms)
      exact .nil
  | cons b bound ih =>
      obtain ⟨r, rest, a₁, hfirst, hrest, rfl⟩ := generateForms_cons.1 hforms
      have hone₁ := (issue_cases hfirst).grown.one hone
      have hrestbound : Coherent bound :=
        ⟨fun b' hb' => hbound.1 b' (by simp [hb']),
          fun b' hb' b'' hb'' => hbound.2 b' (by simp [hb']) b'' (by simp [hb''])⟩
      refine .cons (fun hr => ?_) (ih hone₁ hrestbound hrest)
      refine (generateOne_printed hfirst hone hr).forms_kept hone₁ (fun b' hb' => ?_) hrest
      exact hbound.2 b (by simp) b' (by simp [hb'])

/-- Forms that are up to date are all left alone. -/
theorem generateForms_printed (hforms : List.Forall₂ (fun b r => Printed p b r a) bound forms)
    (hpq : p.Again q) :
    generateForms q bound a = .ok (forms.map GeneratedDocument.again, a) := by
  induction hforms with
  | nil => rfl
  | cons hfirst _ ih => exact generateForms_cons.2 ⟨_, _, a, hfirst.generateOne hpq, ih, rfl⟩

/-! ## The packet -/

theorem buildPlan_day {env : Env} {i : ℕ} {claim : Claim} {t t' : Time}
    (hday : manilaDate t' = manilaDate t) : buildPlan env σ i claim t' = buildPlan env σ i claim t := by
  unfold buildPlan buildClaimFacts
  rw [hday]

/-- The packet's own block reads the store, the claimant's files and the date. -/
theorem packetBlock_congr {env : Env} {i : ℕ} {claim : Claim} {t t' u : Time}
    (hstore : a'.store = a.store) (huploads : a'.uploads = a.uploads)
    (hday : manilaDate t' = manilaDate t) :
    packetBlock (env.clock u) a' i claim sections t' = packetBlock env a i claim sections t := by
  have hplan : buildPlan ((env.clock u).counting a') a'.store i claim t' =
      buildPlan (env.counting a) a.store i claim t := by
    rw [hstore, buildPlan_day hday, ← counting_congr env huploads]
    rfl
  simp only [packetBlock, hplan, evidenceManifest_congr huploads]

theorem Pass.Again.packetContext (h : p.Again q) (hday : manilaDate q.stamp = manilaDate p.stamp)
    (hstore : a'.store = a.store) (huploads : a'.uploads = a.uploads)
    (hc : p.packetContext sections a = .ok c) :
    ∃ c', q.packetContext sections a' = .ok c' ∧ comparableContext c' = comparableContext c := by
  obtain ⟨u, henv⟩ := h.env
  simp only [Pass.packetContext, buildPacketContext, buildDocumentContext, bind_eq_ok, pure_eq_ok,
    found_eq_ok] at hc ⊢
  obtain ⟨_, ⟨totals, htotals, rfl⟩, rfl⟩ := hc
  rw [h.claim, h.claimId, h.page, henv, packetBlock_congr hstore huploads hday, hstore]
  exact ⟨_, ⟨_, ⟨totals, htotals, rfl⟩, rfl⟩, rfl⟩

/-- The packet's live copy was printed from the present data with these sections. -/
def Bound (p : Pass) (sections : List PacketSection) (r : GeneratedDocument) (a : Archive) : Prop :=
  ∃ c copy, p.packetContext sections a = .ok c ∧
    Holds p packetKey (p.press.fingerprint (comparableContext c)) copy a ∧
    r.again = packetSheet.unchanged copy.2

theorem Bound.generatePacket (h : Bound p sections r a) (hpq : p.Again q)
    (hday : manilaDate q.stamp = manilaDate p.stamp) :
    generatePacket q sections a = .ok (r.again, a) := by
  obtain ⟨c, copy, hc, hholds, hsame⟩ := h
  obtain ⟨c', hc', hcomparable⟩ := hpq.packetContext hday rfl rfl hc
  rw [hsame, OfficeConnect.Reimbursement.generatePacket, hc']
  refine Holds.issue ?_
  rw [hcomparable, hpq.fingerprint]
  exact hpq.holds hholds

theorem generatePacket_bound (h : generatePacket p sections a = .ok (r, a'))
    (hone : OneActive a.snapshots) (hr : r.outcome ≠ .failed) : Bound p sections r a' := by
  have hissued := issue_cases h
  obtain ⟨c, copy, hc, hholds, hsame⟩ := hissued.holds hone hr
  obtain ⟨c', hc', hcomparable⟩ :=
    (Pass.Again.refl p).packetContext rfl (packet_store h) hissued.grown.uploads hc
  exact ⟨c', copy, hc', hcomparable ▸ hholds, hsame⟩

/-- The packet is filed under a key of its own. -/
theorem Printed.packet_kept (h : Printed p b r a) (hone : OneActive a.snapshots)
    (hkey : b.documentKey ≠ packetKey) {r' : GeneratedDocument}
    (hpacket : OfficeConnect.Reimbursement.generatePacket p sections a = .ok (r', a')) :
    Printed p b r a' := by
  have hissued := issue_cases hpacket
  obtain ⟨c, copy, hc, hholds, hsame⟩ := h
  refine ⟨c, copy, by rw [hissued.grown.formContext, hc], hholds.kept ?_, hsame⟩
  refine hissued.find_other hone fun he => hkey ?_
  simpa [copyKey, packetSheet] using he

/-- The cover lists the same hashes. -/
theorem section_again (b : TemplateMap) :
    TemplateMap.section (forms.map GeneratedDocument.again) b = TemplateMap.section forms b := by
  have hfind : ((forms.map GeneratedDocument.again).reverse.find?
      (·.documentKey = b.documentKey)).bind (·.contentSha256) =
      (forms.reverse.find? (·.documentKey = b.documentKey)).bind (·.contentSha256) := by
    rw [← List.map_reverse, List.find?_map, Option.bind_map]
    rfl
  simp only [TemplateMap.section, hfind]

/-! ## A pass in which nothing failed -/

/-- After a pass in which nothing failed, a pass of the same day writes nothing. -/
theorem run_again (hone : OneActive a.snapshots) (hbound : Coherent bound)
    (h : p.run bound a = .ok (results, a')) (hok : ∀ r ∈ results, r.outcome ≠ .failed)
    (hpq : p.Again q) (hday : manilaDate q.stamp = manilaDate p.stamp) :
    q.run bound a' = .ok (results.map GeneratedDocument.again, a') := by
  obtain ⟨forms, packet, a₁, hforms, hpacket, rfl⟩ := run_eq_ok.1 h
  have hone₁ := (generateForms_grown hforms).one hone
  have hprinted : List.Forall₂ (fun b r => Printed p b r a') bound forms := by
    have hall := forms_printed hone hbound hforms
    refine List.forall₂_iff_get.2 ⟨hall.length_eq, fun n hn hn' => ?_⟩
    have hr : (forms.get ⟨n, hn'⟩).outcome ≠ .failed :=
      hok _ (List.mem_append_left _ (List.get_mem ..))
    refine ((List.forall₂_iff_get.1 hall).2 n hn hn' hr).packet_kept hone₁ ?_ hpacket
    exact hbound.1 _ (List.get_mem ..)
  have hpacket' := (generatePacket_bound hpacket hone₁ (hok packet (by simp))).generatePacket hpq hday
  refine run_eq_ok.2 ⟨_, packet.again, a', generateForms_printed hprinted hpq, ?_, ?_⟩
  · rw [List.map_congr_left fun b _ => section_again b]
    exact hpacket'
  · simp

end

/-! ## A small print room -/

/-- Two bound forms, both on the catalog, and an engine to be brought along. -/
def printRoom : PrintRoom where
  env := { office with
    catalog := [
      { id := 1, code := "IOT-45", label := "Itinerary of Travel", evidence := .generatedDoc
        requiredRule := fun _ => { required := true } },
      { id := 2, code := "DV-32", label := "Disbursement Voucher", evidence := .generatedDoc
        requiredRule := fun _ => { required := true } }] }
  page := {}
  press := {
    fingerprint := fun c => c.doc.key ++ "/" ++ toString c.claim.id
    render := fun _ _ => .unknownDocument }
  templates := [
    { checklistCode := "IOT-45", documentKey := "reimb.iot45", title := "Itinerary of Travel" },
    { checklistCode := "DV-32", documentKey := "reimb.dv32", title := "Disbursement Voucher"
      sort := 1 }]

/-- One draft whose amounts have been worked out. -/
def pricedDraft : Archive where
  store := {
    claims := [{
      kind := .reimbursement
      claimantId := 1
      totals := some {
        perDiem := 220000, transport := 0, other := 0, grand := 220000, advance := 0
        toReimburse := 220000, toRefund := 0, computedAt := 1767225600, days := [] } }] }

/-- An attempt whose engine prints everything. -/
def firstTry : Attempt where
  now := 1767225600
  render := fun key _ => .pdf { sha256 := key, byteSize := 5000 }

/-- An attempt an hour later whose engine is down. -/
def secondTry : Attempt where
  now := 1767229200
  render := fun _ _ => .renderFailed "no fonts"

/-! ## Retries -/

section

variable {room : PrintRoom} {claimId : ℕ} {a a' : Archive} {t t' : Attempt}
  {results : List GeneratedDocument}

theorem reprint_eq_ok : room.reprint claimId t a = .ok (results, a') ↔
    ∃ claim, a.store.claims[claimId]? = some claim ∧
      ((room.attempt t).pass claimId claim t.actor t.stamp).run
        (bindings room.templates claim.kind) a = .ok (results, a') := by
  simp only [PrintRoom.reprint, Archive.generateClaimDocuments, lockedClaim, bind_eq_ok, found_eq_ok]
  rfl

theorem attempt_again (claim : Claim) (actor actor' : Option ℕ) :
    ((room.attempt t).pass claimId claim actor t.stamp).Again
      ((room.attempt t').pass claimId claim actor' t'.stamp) :=
  ⟨⟨t'.now, rfl⟩, rfl, rfl, rfl, rfl⟩

/-- A pass in which nothing failed is the last one of its day that writes: every later attempt,
whatever its engine does, reports each document as it is and leaves the archive alone. -/
theorem settled_retries (room : PrintRoom) (claimId : ℕ) (a a' : Archive) (t : Attempt)
    (results : List GeneratedDocument) (hone : OneActive a.snapshots)
    (hcoherent : ∀ claim ∈ a.store.claims[claimId]?, Coherent (bindings room.templates claim.kind))
    (hpass : room.reprint claimId t a = .ok (results, a'))
    (hok : ∀ r ∈ results, r.outcome ≠ .failed) (ts : List Attempt) (hday : ∀ u ∈ ts, u.day = t.day) :
    room.retries claimId a' ts = a' ∧
      ∀ u ∈ ts, room.reprint claimId u a' = .ok (results.map GeneratedDocument.again, a') := by
  have hagain : ∀ u ∈ ts, room.reprint claimId u a' =
      .ok (results.map GeneratedDocument.again, a') := by
    intro u hu
    obtain ⟨claim, hclaim, hrun⟩ := reprint_eq_ok.1 hpass
    refine reprint_eq_ok.2 ⟨claim, by rw [(run_grown hrun).claims, hclaim], ?_⟩
    exact run_again hone (hcoherent claim hclaim) hrun hok (attempt_again claim _ _) (hday u hu)
  refine ⟨?_, hagain⟩
  unfold PrintRoom.retries
  induction ts with
  | nil => rfl
  | cons u ts ih =>
      have hstep : Prod.snd <$> room.reprint claimId u a' = .ok a' := by
        rw [hagain u (by simp)]
        rfl
      rw [run_cons, commit_of_ok hstep]
      exact ih (fun v hv => hday v (by simp [hv])) fun v hv => hagain v (by simp [hv])

theorem firstTry_settles : ∃ results a', printRoom.reprint 0 firstTry pricedDraft = .ok (results, a') ∧
    printRoom.retries 0 a' [secondTry] = a' := by
  obtain ⟨⟨results, a'⟩, hpass, hok⟩ := exists_eq_ok
    (x := printRoom.reprint 0 firstTry pricedDraft)
    (fun r => decide (∀ d ∈ r.1, d.outcome ≠ .failed)) (by decide +kernel)
  refine ⟨results, a', hpass, ?_⟩
  exact (settled_retries printRoom 0 pricedDraft a' firstTry results (by decide)
    (by decide +kernel) hpass (of_decide_eq_true hok) [secondTry] (by decide +kernel)).1

/-! ## Each form is filed once -/

/-- The copies of one document of the claim, live and retired. -/
def Archive.filings (a : Archive) (claimId : ℕ) (documentKey : String) : ℕ :=
  a.snapshots.countP fun row =>
    (row.subjectKind, row.subjectId, row.documentKey) = copyKey claimId documentKey

theorem countP_supersede (f : CopyKey → Bool) (rows : List DocumentSnapshot)
    (previous : Option (ℕ × DocumentSnapshot)) :
    (supersedePrevious rows previous).countP (fun row =>
        f (row.subjectKind, row.subjectId, row.documentKey)) =
      rows.countP fun row => f (row.subjectKind, row.subjectId, row.documentKey) := by
  have hcols : (supersedePrevious rows previous).map
      (fun row => (row.subjectKind, row.subjectId, row.documentKey)) =
      rows.map fun row => (row.subjectKind, row.subjectId, row.documentKey) := by
    cases previous with
    | none => rfl
    | some previous =>
        exact map_modify_of_eq (f := DocumentSnapshot.supersede) (fun _ => rfl) previous.1 rows
  have hcount := congrArg (List.countP f) hcols
  rwa [List.countP_map, List.countP_map] at hcount

/-- A freeze adds one copy of its document and none of the others. -/
theorem filings_freeze {p : Pass} {s : Sheet} {id : ℕ} {data : Upload} {fingerprint : String}
    (h : freezeSnapshot p.env.utcNow (p.freeze s id data fingerprint) a.snapshots =
      .ok a'.snapshots) (documentKey : String) :
    a'.filings p.claimId documentKey = a.filings p.claimId documentKey +
      if documentKey = s.documentKey then 1 else 0 := by
  obtain ⟨previous, -, hrows⟩ := freezeSnapshot_eq_ok.1 h
  unfold Archive.filings
  rw [hrows, List.countP_append,
    countP_supersede (fun k => decide (k = copyKey p.claimId documentKey)), List.countP_singleton]
  simp [Freeze.row, Pass.freeze, copyKey, eq_comm]

variable {p q : Pass} {b b' : TemplateMap} {bound rest : List TemplateMap} {a₀ : Archive}
  {forms : List GeneratedDocument} {r : GeneratedDocument}

theorem Pass.Again.printed (h : p.Again q) (hb : Printed p b r a) : Printed q b r a := by
  obtain ⟨c, copy, hc, hholds, hsame⟩ := hb
  obtain ⟨c', hc', hcomparable⟩ := h.formContext rfl rfl rfl hc
  refine ⟨c', copy, hc', ?_, hsame⟩
  rw [hcomparable, h.fingerprint]
  exact h.holds hholds

theorem Pass.Again.symm (h : p.Again q) : q.Again p where
  env := by
    obtain ⟨t, ht⟩ := h.env
    exact ⟨p.env.utcNow, by rw [ht]; rfl⟩
  page := h.page.symm
  fingerprint := h.fingerprint.symm
  claimId := h.claimId.symm
  claim := h.claim.symm

/-- A form under the same key is up to date with it. -/
theorem Printed.of_key (h : Printed p b r a) (hkey : b'.documentKey = b.documentKey)
    (htitle : b'.title = b.title) (hform : b'.formNo = b.formNo) : ∃ r', Printed p b' r' a := by
  obtain ⟨c, copy, hc, hholds, -⟩ := h
  obtain ⟨c', hc', hcomparable⟩ := (Pass.Again.refl p).formContext hkey htitle hform hc
  refine ⟨b'.sheet.unchanged copy.2, c', copy, hc', ?_, rfl⟩
  rw [hcomparable, hkey]
  exact hholds

/-- Since `a₀` each form was filed at most once, and a filed one is up to date. -/
structure FiledOnce (p : Pass) (bound : List TemplateMap) (a₀ a : Archive) : Prop where
  grown : MoreFiled a₀ a
  one : OneActive a.snapshots
  count : ∀ b ∈ bound,
    a.filings p.claimId b.documentKey = a₀.filings p.claimId b.documentKey ∨
      a.filings p.claimId b.documentKey = a₀.filings p.claimId b.documentKey + 1 ∧
        ∃ r, Printed p b r a

theorem Issued.filings {p : Pass} {s : Sheet} {context : Except Raised Context}
    {print : String → Context → Context} {documentKey : String}
    (h : Issued p s context print a r a') (hkey : documentKey ≠ s.documentKey) :
    a'.filings p.claimId documentKey = a.filings p.claimId documentKey := by
  cases h with
  | failed detail => rfl
  | unchanged c n copy _ _ _ => rfl
  | generated c data id a' _ _ hfile =>
      rw [filings_freeze (file_filed hfile).snapshots, if_neg hkey, Nat.add_zero]

/-- One form of a pass over the same data. -/
theorem FiledOnce.form (h : FiledOnce p bound a₀ a) (hbound : Coherent bound) (hb : b ∈ bound)
    (hpq : p.Again q) (hone : generateOne q b a = .ok (r, a')) : FiledOnce p bound a₀ a' := by
  have hissued := issue_cases hone
  refine ⟨h.grown.trans hissued.grown, hissued.grown.one h.one, fun b' hb' => ?_⟩
  by_cases hkey : b'.documentKey = b.documentKey
  · obtain ⟨htitle, hform⟩ := hbound.2 b' hb' b hb hkey
    rcases h.count b' hb' with hsame | ⟨hmore, r', hprinted⟩
    · -- not filed so far: this pass may file it, and then it is up to date
      by_cases hgenerated : r.outcome = .generated
      · right
        have hprinted := generateOne_printed hone h.one (by rw [hgenerated]; decide)
        refine ⟨?_, (hpq.symm.printed hprinted).of_key hkey htitle hform⟩
        cases hissued with
        | failed detail => cases hgenerated
        | unchanged c n copy _ _ _ => cases hgenerated
        | generated c data id a' _ _ hfile =>
            have hcount := filings_freeze (file_filed hfile).snapshots b'.documentKey
            rw [hpq.claimId] at hcount
            rw [hcount, hsame]
            exact congrArg _ (if_pos hkey)
      · left
        cases hissued with
        | failed detail => exact hsame
        | unchanged c n copy _ _ _ => exact hsame
        | generated c data id a' _ _ hfile => exact absurd rfl hgenerated
    · -- filed already: the pass leaves it alone
      obtain ⟨r'', hagain⟩ := hprinted.of_key hkey.symm htitle.symm hform.symm
      rw [hagain.generateOne hpq] at hone
      obtain ⟨-, rfl⟩ := Prod.mk.inj (Except.ok.inj hone)
      exact .inr ⟨hmore, r', hprinted⟩
  · have hfilings := hissued.filings hkey
    rw [hpq.claimId] at hfilings
    rw [hfilings]
    refine (h.count b' hb').imp_right fun hmore => ⟨hmore.1, ?_⟩
    obtain ⟨r', hprinted⟩ := hmore.2
    have hkept := (hpq.printed hprinted).kept h.one (fun he => absurd he hkey) hone
    exact ⟨r', hpq.symm.printed hkept⟩

theorem FiledOnce.all_forms (h : FiledOnce p bound a₀ a) (hbound : Coherent bound)
    (hrest : ∀ b ∈ rest, b ∈ bound) (hpq : p.Again q)
    (hforms : generateForms q rest a = .ok (forms, a')) : FiledOnce p bound a₀ a' := by
  induction rest generalizing a forms with
  | nil =>
      obtain ⟨-, rfl⟩ := Prod.mk.inj (Except.ok.inj hforms)
      exact h
  | cons b rest ih =>
      obtain ⟨r, later, a₁, hfirst, hlater, rfl⟩ := generateForms_cons.1 hforms
      exact ih (h.form hbound (hrest b (by simp)) hpq hfirst)
        (fun b' hb' => hrest b' (by simp [hb'])) hlater

/-- One pass over the same data. -/
theorem FiledOnce.run (h : FiledOnce p bound a₀ a) (hbound : Coherent bound) (hpq : p.Again q)
    (hrun : q.run bound a = .ok (results, a')) : FiledOnce p bound a₀ a' := by
  obtain ⟨forms, packet, a₁, hforms, hpacket, rfl⟩ := run_eq_ok.1 hrun
  have h₁ := h.all_forms hbound (fun b hb => hb) hpq hforms
  have hissued := issue_cases hpacket
  refine ⟨h₁.grown.trans hissued.grown, hissued.grown.one h₁.one, fun b hb => ?_⟩
  have hfilings := hissued.filings (hbound.1 b hb)
  rw [hpq.claimId] at hfilings
  rw [hfilings]
  refine (h₁.count b hb).imp_right fun hmore => ⟨hmore.1, ?_⟩
  obtain ⟨r, hprinted⟩ := hmore.2
  have hkept := (hpq.printed hprinted).packet_kept h₁.one (hbound.1 b hb) hpacket
  exact ⟨r, hpq.symm.printed hkept⟩

/-- A pass over the same data leaves a form that is up to date as it is. -/
theorem Printed.run_kept (h : Printed p b r a) (hone : OneActive a.snapshots)
    (hbound : Coherent bound) (hb : b ∈ bound) (hpq : p.Again q)
    (hrun : q.run bound a = .ok (results, a')) : Printed p b r a' := by
  obtain ⟨forms, packet, a₁, hforms, hpacket, -⟩ := run_eq_ok.1 hrun
  have hkept := (hpq.printed h).forms_kept hone (fun b' hb' => hbound.2 b hb b' hb') hforms
  exact hpq.symm.printed
    (hkept.packet_kept ((generateForms_grown hforms).one hone) (hbound.1 b hb) hpacket)

theorem retries_append (room : PrintRoom) (claimId : ℕ) (a : Archive) (ts us : List Attempt) :
    room.retries claimId a (ts ++ us) = room.retries claimId (room.retries claimId a ts) us :=
  run_append ..

/-- What every attempt that returns keeps is kept by the retries. -/
theorem retries_keep {I : Archive → Prop}
    (hstep : ∀ u a results a', I a → room.reprint claimId u a = .ok (results, a') → I a')
    (ha : I a) (ts : List Attempt) : I (room.retries claimId a ts) := by
  refine run_invariant (P := fun _ _ => True) (fun a u a' _ hI hok => ?_) ts a ha
    (conforms_of_forall (P := fun _ => True) (fun _ _ => trivial) a)
  obtain ⟨⟨results, a''⟩, hpass, rfl⟩ := map_eq_ok.1 hok
  exact hstep u a results a'' hI hpass

/-- The pass an attempt makes, beside the pass of the room itself. -/
theorem room_again (claim : Claim) (u : Attempt) :
    (room.pass claimId claim none none).Again
      ((room.attempt u).pass claimId claim u.actor u.stamp) :=
  ⟨⟨u.now, rfl⟩, rfl, rfl, rfl, rfl⟩

/-- A form that an attempt reported as filed is up to date from then on. -/
theorem retries_printed {claim : Claim} (hclaim : a.store.claims[claimId]? = some claim)
    (hone : OneActive a.snapshots) (hbound : Coherent (bindings room.templates claim.kind))
    (hb : b ∈ bindings room.templates claim.kind)
    (hprinted : Printed (room.pass claimId claim none none) b r a) (ts : List Attempt) :
    Printed (room.pass claimId claim none none) b r (room.retries claimId a ts) := by
  have hkeep : MoreFiled a (room.retries claimId a ts) ∧
      Printed (room.pass claimId claim none none) b r (room.retries claimId a ts) := by
    refine retries_keep (I := fun x => MoreFiled a x ∧
      Printed (room.pass claimId claim none none) b r x) (fun u x results x' hI hpass => ?_)
      ⟨MoreFiled.refl a, hprinted⟩ ts
    obtain ⟨claim', hclaim', hrun⟩ := reprint_eq_ok.1 hpass
    rw [hI.1.claims, hclaim] at hclaim'
    obtain rfl := Option.some.inj hclaim'
    exact ⟨hI.1.trans (run_grown hrun),
      hI.2.run_kept (hI.1.one hone) hbound hb (room_again claim u) hrun⟩
  exact hkeep.2

theorem retries_filed_once {claim : Claim} (hclaim : a.store.claims[claimId]? = some claim)
    (hone : OneActive a.snapshots) (hbound : Coherent (bindings room.templates claim.kind))
    (ts : List Attempt) :
    FiledOnce (room.pass claimId claim none none) (bindings room.templates claim.kind) a
      (room.retries claimId a ts) := by
  refine retries_keep (I := fun x => FiledOnce (room.pass claimId claim none none)
    (bindings room.templates claim.kind) a x) (fun u x results x' hI hpass => ?_)
    ⟨MoreFiled.refl a, hone, fun b _ => .inl rfl⟩ ts
  obtain ⟨claim', hclaim', hrun⟩ := reprint_eq_ok.1 hpass
  rw [hI.grown.claims, hclaim] at hclaim'
  obtain rfl := Option.some.inj hclaim'
  exact hI.run hbound (room_again claim u) hrun

/-- The result of a form that did not fail, right after its pass. -/
theorem run_printed (hone : OneActive a.snapshots) (hbound : Coherent bound)
    (hrun : p.run bound a = .ok (results, a')) (hr : r ∈ results) (hkey : r.documentKey ≠ packetKey)
    (hok : r.outcome ≠ .failed) : ∃ b ∈ bound, b.documentKey = r.documentKey ∧ Printed p b r a' := by
  obtain ⟨forms, packet, a₁, hforms, hpacket, rfl⟩ := run_eq_ok.1 hrun
  have hform : r ∈ forms := by
    rcases List.mem_append.1 hr with hform | hlast
    · exact hform
    · rw [List.mem_singleton.1 hlast, (issue_cases hpacket).documentKey] at hkey
      exact absurd rfl hkey
  have hall := forms_printed hone hbound hforms
  obtain ⟨n, hn, rfl⟩ := List.mem_iff_getElem.1 hform
  have hlen : n < bound.length := by rw [hall.length_eq]; exact hn
  have hprinted := (List.forall₂_iff_get.1 hall).2 n hlen hn hok
  have hb : bound[n] ∈ bound := List.getElem_mem hlen
  refine ⟨bound[n], hb, ?_, hprinted.packet_kept ((generateForms_grown hforms).one hone)
    (hbound.1 _ hb) hpacket⟩
  obtain ⟨_, copy, _, _, hsame⟩ := hprinted
  exact (congrArg GeneratedDocument.documentKey hsame).symm

/-- Over any retries each form is filed at most once, and a form that some attempt reported as filed
is the live copy it reported ever after. -/
theorem retries_file_once (room : PrintRoom) (claimId : ℕ) (claim : Claim) (a : Archive)
    (hclaim : a.store.claims[claimId]? = some claim) (hone : OneActive a.snapshots)
    (hcoherent : Coherent (bindings room.templates claim.kind)) (ts : List Attempt) :
    (∀ b ∈ bindings room.templates claim.kind,
      (room.retries claimId a ts).filings claimId b.documentKey ≤
        a.filings claimId b.documentKey + 1) ∧
    ∀ done t rest, ts = done ++ t :: rest → ∀ results a',
      room.reprint claimId t (room.retries claimId a done) = .ok (results, a') →
      ∀ r ∈ results, r.documentKey ≠ packetKey → r.outcome ≠ .failed → ∃ copy,
        findActive (room.retries claimId a ts).snapshots (copyKey claimId r.documentKey) =
          .ok (some copy) ∧ r.attachmentId = some copy.2.attachmentId ∧
          r.contentSha256 = some copy.2.contentSha256 := by
  constructor
  · intro b hb
    rcases (retries_filed_once hclaim hone hcoherent ts).count b hb with hsame | hmore
    · exact hsame.le.trans (Nat.le_succ _)
    · exact hmore.1.le
  · rintro done t rest rfl results a' hpass r hr hkey hok
    have hdone := retries_filed_once hclaim hone hcoherent done
    obtain ⟨claim', hclaim', hrun⟩ := reprint_eq_ok.1 hpass
    rw [hdone.grown.claims, hclaim] at hclaim'
    obtain rfl := Option.some.inj hclaim'
    obtain ⟨b, hb, hbkey, hprinted⟩ := run_printed hdone.one hcoherent hrun hr hkey hok
    have hnext : room.retries claimId a (done ++ t :: rest) = room.retries claimId a' rest := by
      have hstep : Prod.snd <$> room.reprint claimId t (room.retries claimId a done) = .ok a' := by
        rw [hpass]
        rfl
      rw [retries_append, PrintRoom.retries, run_cons, commit_of_ok hstep]
      rfl
    have hgrown := hdone.grown.trans (run_grown hrun)
    have hlast := retries_printed (by rw [hgrown.claims, hclaim]) (hgrown.one hone) hcoherent hb
      ((room_again claim t).symm.printed hprinted) rest
    obtain ⟨_, copy, _, hholds, hsame⟩ := hlast
    refine ⟨copy, ?_, congrArg GeneratedDocument.attachmentId hsame,
      congrArg GeneratedDocument.contentSha256 hsame⟩
    rw [hnext, ← hbkey]
    exact hholds.find

theorem secondTry_files_nothing : bindings printRoom.templates .reimbursement ≠ [] ∧
    ∀ b ∈ bindings printRoom.templates .reimbursement,
      (printRoom.retries 0 pricedDraft [secondTry, firstTry, secondTry]).filings 0 b.documentKey ≤
        1 :=
  ⟨by decide, (retries_file_once printRoom 0 _ pricedDraft rfl (by decide) (by decide +kernel)
    [secondTry, firstTry, secondTry]).1⟩

end

end OfficeConnect.Reimbursement
