import OfficeConnect.Core.Base
import OfficeConnect.Lib.Rows

/-!
# Frozen document snapshots

A snapshot says that one PDF was the official copy of one document of one subject.  Freezing a copy
supersedes its predecessor and voiding retires the live copies of a subject; no row is deleted.  The
id of a row is its position.
-/

namespace OfficeConnect

open Lib

inductive SnapshotStatus where
  | active | superseded | voided
deriving DecidableEq, Repr

/-- Both hashes are kept: `contentSha256` of the PDF bytes, `sourceFingerprint` of the context. -/
structure DocumentSnapshot where
  subjectKind : String
  subjectId : ℕ
  documentKey : String
  attachmentId : ℕ
  contentSha256 : String
  sourceFingerprint : String
  revisionNo : Option ℕ := none
  isDraft : Bool := false
  status : SnapshotStatus := .active
  voidedAt : Option Time := none
  voidedBy : Option ℕ := none
  voidReason : Option String := none
  generatedBy : Option ℕ := none
  generatedAt : Time
deriving DecidableEq, Repr

/-- One document of one subject: the subject's kind, its id, and the document key. -/
abbrev CopyKey := String × ℕ × String

/-- The document a live copy is the official copy of. -/
def DocumentSnapshot.live (row : DocumentSnapshot) : Option CopyKey :=
  if row.status = .active then some (row.subjectKind, row.subjectId, row.documentKey) else none

/-! ## The service -/

def scalarOneOrNone {α : Type} : List α → Except Raised (Option α)
  | [] => .ok none
  | [a] => .ok (some a)
  | _ => .error .multipleResultsFound

/-- The live official copy of one document, with its id. -/
def findActive (rows : List DocumentSnapshot) (k : CopyKey) :
    Except Raised (Option (ℕ × DocumentSnapshot)) :=
  scalarOneOrNone ((rows.zipIdx.map Prod.swap).filter fun r => r.2.live = some k)

/-- What `freeze_snapshot` is called with. -/
structure Freeze where
  subjectKind : String
  subjectId : ℕ
  documentKey : String
  attachmentId : ℕ
  contentSha256 : String
  sourceFingerprint : String
  revisionNo : Option ℕ := none
  isDraft : Bool := false
  actorId : Option ℕ := none
  now : Option Time := none
deriving DecidableEq, Repr

def Freeze.key (r : Freeze) : CopyKey := (r.subjectKind, r.subjectId, r.documentKey)

/-- The row a freeze inserts. -/
def Freeze.row (r : Freeze) (utcNow : Time) : DocumentSnapshot :=
  { subjectKind := r.subjectKind
    subjectId := r.subjectId
    documentKey := r.documentKey
    attachmentId := r.attachmentId
    contentSha256 := r.contentSha256
    sourceFingerprint := r.sourceFingerprint
    revisionNo := r.revisionNo
    isDraft := r.isDraft
    generatedBy := r.actorId
    generatedAt := r.now.getD utcNow }

def DocumentSnapshot.supersede (row : DocumentSnapshot) : DocumentSnapshot :=
  { row with status := .superseded }

/-- Retire the predecessor, if there is one. -/
def supersedePrevious (rows : List DocumentSnapshot) :
    Option (ℕ × DocumentSnapshot) → List DocumentSnapshot
  | some previous => rows.modify previous.1 DocumentSnapshot.supersede
  | none => rows

/-- Record a rendered PDF as the official copy, superseding any predecessor. -/
def freezeSnapshot (utcNow : Time) (r : Freeze) (rows : List DocumentSnapshot) :
    Except Raised (List DocumentSnapshot) := do
  let previous ← findActive rows r.key
  return supersedePrevious rows previous ++ [r.row utcNow]

/-- What `void_snapshots` is called with; no `documentKey` means every document of the subject. -/
structure Voiding where
  subjectKind : String
  subjectId : ℕ
  reason : String
  documentKey : Option String := none
  actorId : Option ℕ := none
  now : Option Time := none
deriving DecidableEq, Repr

/-- The live copies a voiding is about. -/
def Voiding.covers (r : Voiding) (row : DocumentSnapshot) : Prop :=
  row.subjectKind = r.subjectKind ∧ row.subjectId = r.subjectId ∧ row.status = .active ∧
    ∀ key ∈ r.documentKey, row.documentKey = key

instance (r : Voiding) (row : DocumentSnapshot) : Decidable (r.covers row) :=
  inferInstanceAs (Decidable (_ ∧ _ ∧ _ ∧ _))

def Voiding.retire (r : Voiding) (utcNow : Time) (row : DocumentSnapshot) : DocumentSnapshot :=
  { row with
    status := .voided
    voidedAt := some (r.now.getD utcNow)
    voidedBy := r.actorId
    voidReason := some r.reason }

/-- Invalidate live copies whose inputs changed. -/
def voidSnapshots (utcNow : Time) (r : Voiding) (rows : List DocumentSnapshot) :
    List DocumentSnapshot :=
  rows.map fun row => if r.covers row then r.retire utcNow row else row

/-! ## At most one live copy -/

/-- Each document of each subject has at most one live copy. -/
def OneActive (rows : List DocumentSnapshot) : Prop :=
  (rows.filterMap DocumentSnapshot.live).Nodup

instance (rows : List DocumentSnapshot) : Decidable (OneActive rows) :=
  inferInstanceAs (Decidable (List.Nodup _))

section Finding

variable {rows : List DocumentSnapshot} {k : CopyKey} {n : ℕ} {row : DocumentSnapshot}

theorem scalarOneOrNone_eq_none {α : Type} {l : List α} :
    scalarOneOrNone l = .ok none ↔ l = [] := by
  unfold scalarOneOrNone
  split
  · simp
  · simp
  · rename_i hnil hone
    simpa using hnil

theorem scalarOneOrNone_eq_some {α : Type} {l : List α} {a : α} :
    scalarOneOrNone l = .ok (some a) ↔ l = [a] := by
  unfold scalarOneOrNone
  split
  · simp
  · simp
  · rename_i hnil hone
    simpa using hone a

theorem eq_singleton_of_mem {α : Type} {l : List α} {a : α} (hmem : a ∈ l) (hnodup : l.Nodup)
    (hall : ∀ b ∈ l, b = a) : l = [a] := by
  match l, hmem, hnodup, hall with
  | [b], _, _, hall => rw [hall b (by simp)]
  | b :: c :: l, _, hnodup, hall =>
      have hsame : b = c := (hall b (by simp)).trans (hall c (by simp)).symm
      exact absurd hnodup (by simp [hsame])

theorem mem_live_rows :
    (n, row) ∈ (rows.zipIdx.map Prod.swap).filter (fun r => r.2.live = some k) ↔
      rows[n]? = some row ∧ row.live = some k := by
  simp only [List.mem_filter, List.mem_map, decide_eq_true_eq]
  constructor
  · rintro ⟨⟨⟨a, m⟩, hrow, hswap⟩, hlive⟩
    obtain ⟨rfl, rfl⟩ := Prod.mk.inj hswap
    exact ⟨List.mem_zipIdx_iff_getElem?.1 hrow, hlive⟩
  · rintro ⟨hrow, hlive⟩
    exact ⟨⟨(row, n), List.mem_zipIdx_iff_getElem?.2 hrow, rfl⟩, hlive⟩

theorem findActive_eq_some (h : findActive rows k = .ok (some (n, row))) :
    rows[n]? = some row ∧ row.live = some k :=
  mem_live_rows.1 (by rw [scalarOneOrNone_eq_some.1 h]; simp)

theorem findActive_eq_none :
    findActive rows k = .ok none ↔ ∀ row ∈ rows, row.live ≠ some k := by
  rw [findActive, scalarOneOrNone_eq_none, List.eq_nil_iff_forall_not_mem]
  constructor
  · intro h row hrow hlive
    obtain ⟨n, hn⟩ := List.mem_iff_getElem?.1 hrow
    exact h (n, row) (mem_live_rows.2 ⟨hn, hlive⟩)
  · rintro h ⟨n, row⟩ hr
    obtain ⟨hrow, hlive⟩ := mem_live_rows.1 hr
    exact h row (List.mem_of_getElem? hrow) hlive

/-- The query never sees two rows. -/
theorem OneActive.find (h : OneActive rows) (hrow : rows[n]? = some row)
    (hlive : row.live = some k) : findActive rows k = .ok (some (n, row)) := by
  refine scalarOneOrNone_eq_some.2 (eq_singleton_of_mem (mem_live_rows.2 ⟨hrow, hlive⟩) ?_ ?_)
  · refine (List.Nodup.map Prod.swap_injective ?_).filter _
    refine List.Nodup.of_map Prod.snd ?_
    rw [List.zipIdx_map_snd]
    exact List.nodup_range'
  · rintro ⟨m, row'⟩ hr
    obtain ⟨hrow', hlive'⟩ := mem_live_rows.1 hr
    obtain rfl := eq_of_nodup_filterMap h hrow' hrow hlive' hlive
    rw [hrow] at hrow'
    rw [Option.some.inj hrow']

/-- The query answers. -/
theorem OneActive.exists_find (h : OneActive rows) (k : CopyKey) :
    ∃ found, findActive rows k = .ok found := by
  by_cases hlive : ∃ row ∈ rows, row.live = some k
  · obtain ⟨row, hrow, hlive⟩ := hlive
    obtain ⟨n, hn⟩ := List.mem_iff_getElem?.1 hrow
    exact ⟨_, h.find hn hlive⟩
  · refine ⟨none, findActive_eq_none.2 fun row hrow hk => hlive ⟨row, hrow, hk⟩⟩

end Finding

/-! ## Freezing -/

section Freezing

variable {rows rows' : List DocumentSnapshot} {k : CopyKey} {r : Freeze} {t : Time}

theorem freezeSnapshot_eq_ok :
    freezeSnapshot t r rows = .ok rows' ↔
      ∃ previous, findActive rows r.key = .ok previous ∧
        rows' = supersedePrevious rows previous ++ [r.row t] := by
  simp only [freezeSnapshot, bind_eq_ok, pure_eq_ok, @eq_comm _ rows']

@[simp] theorem Freeze.live_row (r : Freeze) (t : Time) : (r.row t).live = some r.key := rfl

@[simp] theorem DocumentSnapshot.live_supersede (row : DocumentSnapshot) :
    row.supersede.live = none := rfl

/-- The rows beside the new one: each old row is superseded if it was the live copy, else kept. -/
theorem getElem?_freeze (h : freezeSnapshot t r rows = .ok rows') {n : ℕ} {row : DocumentSnapshot}
    (hrow : rows[n]? = some row) :
    rows'[n]? = some (if row.live = some r.key then row.supersede else row) := by
  obtain ⟨previous, hfind, rfl⟩ := freezeSnapshot_eq_ok.1 h
  obtain ⟨hn, -⟩ := List.getElem?_eq_some_iff.1 hrow
  cases previous with
  | none =>
      have hlive : row.live ≠ some r.key :=
        findActive_eq_none.1 hfind row (List.mem_of_getElem? hrow)
      rw [if_neg hlive, supersedePrevious, List.getElem?_append_left hn, hrow]
  | some previous =>
      obtain ⟨m, old⟩ := previous
      obtain ⟨hold, hlive⟩ := findActive_eq_some hfind
      rw [supersedePrevious, List.getElem?_append_left (by simpa using hn)]
      by_cases hm : m = n
      · subst hm
        rw [hrow] at hold
        obtain rfl := Option.some.inj hold
        rw [if_pos hlive, getElem?_modify_self _ hrow]
      · rw [List.getElem?_modify_ne _ _ hm, hrow, if_neg]
        intro hrowlive
        have hsingle := scalarOneOrNone_eq_some.1 hfind
        have hmem := mem_live_rows.2 ⟨hrow, hrowlive⟩
        rw [hsingle, List.mem_singleton] at hmem
        exact hm (congrArg Prod.fst hmem).symm

theorem length_freeze (h : freezeSnapshot t r rows = .ok rows') :
    rows'.length = rows.length + 1 := by
  obtain ⟨previous, -, rfl⟩ := freezeSnapshot_eq_ok.1 h
  cases previous <;> simp [supersedePrevious]

theorem getElem?_freeze_last (h : freezeSnapshot t r rows = .ok rows') :
    rows'[rows.length]? = some (r.row t) := by
  obtain ⟨previous, -, rfl⟩ := freezeSnapshot_eq_ok.1 h
  cases previous <;> simp [supersedePrevious]

theorem OneActive.freeze (hone : OneActive rows) (h : freezeSnapshot t r rows = .ok rows') :
    OneActive rows' := by
  obtain ⟨previous, hfind, rfl⟩ := freezeSnapshot_eq_ok.1 h
  have hkept : ∀ row ∈ supersedePrevious rows previous, row.live ≠ some r.key := by
    intro row hrow hlive
    obtain ⟨n, hn⟩ := List.mem_iff_getElem?.1 hrow
    have hold : ∃ old, rows[n]? = some old := by
      have hlt : n < rows.length := by
        obtain ⟨hlt, -⟩ := List.getElem?_eq_some_iff.1 hn
        cases previous <;> simpa [supersedePrevious] using hlt
      exact ⟨rows[n], List.getElem?_eq_getElem hlt⟩
    obtain ⟨old, hold⟩ := hold
    have hnew := getElem?_freeze h hold
    rw [List.getElem?_append_left (List.getElem?_eq_some_iff.1 hn).1, hn] at hnew
    obtain rfl := Option.some.inj hnew
    split_ifs at hlive with hkey
    · cases hlive
    · exact hkey hlive
  have hsub : ((supersedePrevious rows previous).filterMap DocumentSnapshot.live).Nodup := by
    cases previous with
    | none => exact hone
    | some previous => exact (filterMap_modify_sublist _ _ fun _ _ => rfl).nodup hone
  rw [OneActive, List.filterMap_append, List.filterMap_cons_some (r.live_row t),
    List.filterMap_nil, List.nodup_append]
  refine ⟨hsub, by simp, ?_⟩
  rintro a ha b hb rfl
  obtain ⟨row, hrow, hlive⟩ := List.mem_filterMap.1 ha
  rw [List.mem_singleton.1 hb] at hlive
  exact hkept row hrow hlive

/-- The new row is the live copy. -/
theorem OneActive.find_freeze_self (hone : OneActive rows) (h : freezeSnapshot t r rows = .ok rows') :
    findActive rows' r.key = .ok (some (rows.length, r.row t)) :=
  (hone.freeze h).find (getElem?_freeze_last h) (r.live_row t)

/-- The other documents keep their live copies. -/
theorem OneActive.find_freeze_other (hone : OneActive rows)
    (h : freezeSnapshot t r rows = .ok rows') (hk : k ≠ r.key) :
    findActive rows' k = findActive rows k := by
  obtain ⟨found, hfound⟩ := hone.exists_find k
  rw [hfound]
  cases found with
  | some copy =>
      obtain ⟨n, row⟩ := copy
      obtain ⟨hrow, hlive⟩ := findActive_eq_some hfound
      have hkept := getElem?_freeze h hrow
      rw [if_neg (by rw [hlive]; exact fun he => hk (Option.some.inj he))] at hkept
      exact (hone.freeze h).find hkept hlive
  | none =>
      refine findActive_eq_none.2 fun row hrow hlive => ?_
      obtain ⟨n, hn⟩ := List.mem_iff_getElem?.1 hrow
      by_cases hlt : n < rows.length
      · have hnew := getElem?_freeze h (List.getElem?_eq_getElem hlt)
        rw [hn] at hnew
        obtain rfl := Option.some.inj hnew
        split_ifs at hlive
        · cases hlive
        · exact findActive_eq_none.1 hfound _ (List.getElem_mem hlt) hlive
      · obtain ⟨hlt', -⟩ := List.getElem?_eq_some_iff.1 hn
        have hlast : n = rows.length := by
          have := length_freeze h
          omega
        rw [hlast, getElem?_freeze_last h] at hn
        obtain rfl := Option.some.inj hn
        exact hk (Option.some.inj hlive).symm

end Freezing

/-! ## Voiding -/

section Voiding

variable {rows : List DocumentSnapshot} {r : Voiding} {t : Time}

theorem getElem?_void {n : ℕ} {row : DocumentSnapshot} (hrow : rows[n]? = some row) :
    (voidSnapshots t r rows)[n]? = some (if r.covers row then r.retire t row else row) := by
  rw [voidSnapshots, List.getElem?_map, hrow, Option.map_some]

theorem live_void (row : DocumentSnapshot) :
    (if r.covers row then r.retire t row else row).live = none ∨
      (if r.covers row then r.retire t row else row) = row := by
  split_ifs
  · exact .inl rfl
  · exact .inr rfl

theorem OneActive.void (h : OneActive rows) : OneActive (voidSnapshots t r rows) := by
  have hsub : ∀ l : List DocumentSnapshot,
      ((voidSnapshots t r l).filterMap DocumentSnapshot.live).Sublist
        (l.filterMap DocumentSnapshot.live) := by
    intro l
    induction l with
    | nil => exact .refl _
    | cons row l ih =>
        rw [voidSnapshots, List.map_cons]
        rcases @live_void r t row with hnone | hsame
        · rw [List.filterMap_cons_none hnone, List.filterMap_cons]
          split
          · exact ih
          · exact ih.cons _
        · rw [hsame, List.filterMap_cons, List.filterMap_cons]
          split
          · exact ih
          · exact ih.cons_cons _
  exact (hsub rows).nodup h

/-- A voiding of every document of a subject leaves it no live copy. -/
theorem void_subject (hkey : r.documentKey = none) (key : String) :
    ∀ row ∈ voidSnapshots t r rows, row.live ≠ some (r.subjectKind, r.subjectId, key) := by
  intro row hrow hlive
  obtain ⟨old, -, rfl⟩ := List.mem_map.1 hrow
  split_ifs at hlive with hcovers
  · cases hlive
  · unfold DocumentSnapshot.live at hlive
    split_ifs at hlive with hactive
    simp only [Option.some.injEq, Prod.mk.injEq] at hlive
    exact hcovers ⟨hlive.1, hlive.2.1, hactive, by simp [hkey]⟩

end Voiding

/-! ## The life of a row -/

/-- Every row is still there with what it asserts, and a retired row is as it was. -/
def Aged (before after : List DocumentSnapshot) : Prop :=
  ∀ (n : ℕ) (row : DocumentSnapshot), before[n]? = some row → ∃ row', after[n]? = some row' ∧
    row'.contentSha256 = row.contentSha256 ∧ row'.sourceFingerprint = row.sourceFingerprint ∧
    row'.attachmentId = row.attachmentId ∧ (row.status ≠ .active → row' = row)

theorem Aged.refl (rows : List DocumentSnapshot) : Aged rows rows :=
  fun _ row hrow => ⟨row, hrow, rfl, rfl, rfl, fun _ => rfl⟩

theorem Aged.trans {a b c : List DocumentSnapshot} (hab : Aged a b) (hbc : Aged b c) :
    Aged a c := by
  intro n row hrow
  obtain ⟨mid, hmid, hsha, hprint, hfile, hkept⟩ := hab n row hrow
  obtain ⟨last, hlast, hsha', hprint', hfile', hkept'⟩ := hbc n mid hmid
  refine ⟨last, hlast, hsha'.trans hsha, hprint'.trans hprint, hfile'.trans hfile, ?_⟩
  intro hretired
  have hmidrow := hkept hretired
  exact (hkept' (hmidrow ▸ hretired)).trans hmidrow

theorem aged_freeze {rows rows' : List DocumentSnapshot} {r : Freeze} {t : Time}
    (h : freezeSnapshot t r rows = .ok rows') : Aged rows rows' := by
  intro n row hrow
  refine ⟨_, getElem?_freeze h hrow, ?_⟩
  split_ifs with hlive
  · refine ⟨rfl, rfl, rfl, fun hretired => ?_⟩
    rw [DocumentSnapshot.live, if_neg hretired] at hlive
    cases hlive
  · exact ⟨rfl, rfl, rfl, fun _ => rfl⟩

theorem aged_void {rows : List DocumentSnapshot} {r : Voiding} {t : Time} :
    Aged rows (voidSnapshots t r rows) := by
  intro n row hrow
  refine ⟨_, getElem?_void hrow, ?_⟩
  split_ifs with hcovers
  · exact ⟨rfl, rfl, rfl, fun hretired => absurd hcovers.2.2.1 hretired⟩
  · exact ⟨rfl, rfl, rfl, fun _ => rfl⟩

end OfficeConnect
