import OfficeConnect.Ingest.Accepted
import OfficeConnect.Ingest.StaffRows

/-!
# When the database takes a feed

The writes of a prepared feed go through exactly when each of its rows fits the columns and no live
row outside it has the code, the number or the address it is written under.  Addresses are the
delicate part: the flush checks them row by row, so a row may take over the address of another row
of the feed only if that one was written before.
-/

namespace OfficeConnect.Ingest

open Lib

variable {plat : Platform} {db db' : Db} {units : List OrgUnit} {staff staff' : List Staff}

/-! ## Units -/

section Units

variable {spec : UnitSpec} {specs : List UnitSpec} {row : OrgUnit} {known : String → Prop}

/-- The columns take the spec, and the only live row of the code is the one written over. -/
structure UnitFits (plat : Platform) (units : List OrgUnit) (spec : UnitSpec) : Prop where
  code : plat.storable "code" spec.code
  name : ∀ name ∈ spec.name, plat.storable "name" name
  sortOrder : int4 spec.sortOrder
  own : ∀ u ∈ units, u.deletedAt = none → u.code = spec.code → unitOf units spec.code = some u

theorem codeTaken_iff (h : db.UnitsKeyed) (hcode : row.code = spec.code)
    (hid : row.id = (idOf db.units spec.code).getD db.nextUnitId) :
    ¬ codeTaken db.units row ↔
      ∀ u ∈ db.units, u.deletedAt = none → u.code = spec.code → unitOf db.units spec.code = some u := by
  rw [codeTaken, hcode]
  push Not
  refine forall_congr' fun u => forall_congr' fun hu => ?_
  cases hold : unitOf db.units spec.code with
  | none =>
      have hother := lastWith_eq_none.1 hold u hu
      exact ⟨fun _ _ hsame => absurd hsame hother, fun _ _ _ hsame => hother hsame⟩
  | some old =>
      have hmem : old ∈ db.units := (mem_of_lastWith hold).1
      have hrow : row.id = old.id := by simpa [idOf, hold] using hid
      rw [hrow]
      constructor
      · intro hfree hlive hsame
        by_contra hne
        refine hfree (fun heq => hne ?_) hlive hsame
        rw [List.inj_on_of_nodup_map h.nodup hu hmem heq]
      · intro hown hne hlive hsame
        exact hne (Option.some.inj (hown hlive hsame) ▸ rfl)

theorem exists_upsertUnit_iff (h : db.UnitsKeyed)
    (hcomplete : (spec.kind.bind OrgUnitKind.ofText?).isSome ∧ spec.name.isSome)
    (hresolves : ∀ p ∈ spec.parentCode, (idOf db.units p).isSome) :
    (∃ db', upsertUnit plat db spec = .ok db') ↔ UnitFits plat db.units spec := by
  simp only [upsertUnit_eq_ok]
  constructor
  · rintro ⟨_, row, hrow, hstores, hfree, -⟩
    obtain ⟨hwritten, hid, -⟩ := unitRow_eq_ok.1 hrow
    refine ⟨hwritten.code ▸ hstores.1, fun name hname => ?_, hwritten.sortOrder ▸ hstores.2.2,
      (codeTaken_iff h hwritten.code hid).1 hfree⟩
    rw [← Option.some.inj (hwritten.name.symm.trans hname)]
    exact hstores.2.1
  · intro hfits
    obtain ⟨kind, hkind⟩ := Option.isSome_iff_exists.1 hcomplete.1
    obtain ⟨name, hname⟩ := Option.isSome_iff_exists.1 hcomplete.2
    have hrow : ∃ row, unitRow db spec = .ok row := by
      simpa [unitRow, notNull, hkind, hname, parentId_eq_ok] using hresolves
    obtain ⟨row, hrow⟩ := hrow
    obtain ⟨hwritten, hid, -⟩ := unitRow_eq_ok.1 hrow
    refine ⟨_, row, hrow, ⟨?_, hfits.name _ hwritten.name, ?_⟩, ?_, rfl⟩
    · exact hwritten.code ▸ hfits.code
    · exact hwritten.sortOrder ▸ hfits.sortOrder
    · exact (codeTaken_iff h hwritten.code hid).2 hfits.own

/-- A write under another code does not change whether a unit fits. -/
theorem unitFits_of_upserted {units' : List OrgUnit}
    (h : Upserted OrgUnit.code OrgUnit.id units row units')
    (hids : (units.map OrgUnit.id).Nodup) (hne : spec.code ≠ row.code) :
    UnitFits plat units' spec ↔ UnitFits plat units spec := by
  have hown : (∀ u ∈ units', u.deletedAt = none → u.code = spec.code →
      unitOf units' spec.code = some u) ↔ ∀ u ∈ units, u.deletedAt = none → u.code = spec.code →
        unitOf units spec.code = some u := by
    have hlast : unitOf units' spec.code = unitOf units spec.code := h.lastWith_of_ne hids hne
    rw [hlast]
    have hmem : ∀ u, u.code = spec.code → (u ∈ units' ↔ u ∈ units) := fun u hu =>
      h.mem_of_key_ne hids (hu ▸ hne)
    exact ⟨fun hown u hu hlive hcode => hown u ((hmem u hcode).2 hu) hlive hcode,
      fun hown u hu hlive hcode => hown u ((hmem u hcode).1 hu) hlive hcode⟩
  exact ⟨fun hfits => ⟨hfits.code, hfits.name, hfits.sortOrder, hown.1 hfits.own⟩,
    fun hfits => ⟨hfits.code, hfits.name, hfits.sortOrder, hown.2 hfits.own⟩⟩

/-- The unit pass goes through exactly when every unit fits. -/
theorem exists_unitPass_iff (h : db.UnitsKeyed) (hcodes : (specs.map (·.code)).Nodup)
    (hcomplete : ∀ spec ∈ specs, (spec.kind.bind OrgUnitKind.ofText?).isSome ∧ spec.name.isSome)
    (hfirst : ParentsFirst known specs) (hknown : ∀ p, known p → (idOf db.units p).isSome) :
    (∃ placed, writeAll (upsertUnit plat) specs db = .ok placed) ↔
      ∀ spec ∈ specs, UnitFits plat db.units spec := by
  induction specs generalizing db known with
  | nil => simp [writeAll]
  | cons spec specs ih =>
      obtain ⟨hcompleteHead, hcomplete⟩ := List.forall_mem_cons.1 hcomplete
      obtain ⟨hparents, hfirst⟩ := hfirst
      rw [List.map_cons, List.nodup_cons] at hcodes
      have hhead : (∃ mid, upsertUnit plat db spec = .ok mid) ↔ UnitFits plat db.units spec :=
        exists_upsertUnit_iff h hcompleteHead fun p hp => hknown p (hparents p hp)
      have hrest : ∀ mid, upsertUnit plat db spec = .ok mid →
          ((∃ placed, writeAll (upsertUnit plat) specs mid = .ok placed) ↔
            ∀ s ∈ specs, UnitFits plat db.units s) := by
        intro mid hmid
        obtain ⟨row, hrow, -, -, rfl⟩ := upsertUnit_eq_ok.1 hmid
        obtain ⟨hwritten, hid, -⟩ := unitRow_eq_ok.1 hrow
        obtain ⟨hup, hkeyed⟩ := h.put (hwritten.code ▸ hid)
        rw [ih hkeyed hcodes.2 hcomplete hfirst]
        · refine forall_congr' fun s => forall_congr' fun hs => ?_
          refine unitFits_of_upserted hup h.nodup fun heq => hcodes.1 ?_
          rw [← hwritten.code, ← heq]
          exact List.mem_map_of_mem hs
        · rintro p (hp | rfl)
          · obtain ⟨i, hi⟩ := Option.isSome_iff_exists.1 (hknown p hp)
            obtain ⟨u, hu, -⟩ := idOf_eq_some.1 hi
            have hkept : idOf (db.putUnit row).units p = some u.id := hup.lastWith_id h.nodup hu
            rw [hkept]
            rfl
          · have hself : unitOf (db.putUnit row).units row.code = some row :=
              hup.lastWith_self h.nodup
            rw [← hwritten.code, idOf, hself]
            rfl
      simp only [writeAll_cons, List.forall_mem_cons]
      rw [exists_comm, ← hhead]
      constructor
      · rintro ⟨mid, placed, hmid, hpass⟩
        exact ⟨⟨mid, hmid⟩, (hrest mid hmid).1 ⟨placed, hpass⟩⟩
      · rintro ⟨⟨mid, hmid⟩, hfits⟩
        obtain ⟨placed, hpass⟩ := (hrest mid hmid).2 hfits
        exact ⟨mid, placed, hmid, hpass⟩

end Units

/-! ## One staff row -/

section Staff

variable {spec d : StaffSpec} {specs done rest : List StaffSpec} {row : Staff}

def StaffSpec.texts (spec : StaffSpec) : List (String × Option String) :=
  [("employee_no", some spec.employeeNo), ("given_name", spec.givenName),
    ("middle_name", spec.middleName), ("surname", spec.surname), ("full_name", spec.fullName),
    ("email", spec.email), ("position_title", spec.positionTitle),
    ("plantilla_item_no", spec.plantillaItemNo)]

/-- The columns take the spec, and the only live row of the number is the one written over. -/
structure StaffFits (plat : Platform) (staff : List Staff) (spec : StaffSpec) : Prop where
  status : ∀ status ∈ spec.employmentStatus, (EmploymentStatus.ofText? status).isSome
  texts : ∀ entry ∈ spec.texts, ∀ x ∈ entry.2, plat.storable entry.1 x
  own : ∀ s ∈ staff, s.deletedAt = none → s.employeeNo = spec.employeeNo →
    staffOf staff spec.employeeNo = some s

/-- A live row with the address of the spec is its own row or that of a spec written before. -/
def OwnAddress (staff : List Staff) (done : List StaffSpec) (spec : StaffSpec) : Prop :=
  ∀ s ∈ staff, s.deletedAt = none → s.email ≠ none → s.email = spec.email →
    ∃ d ∈ spec :: done, staffOf staff d.employeeNo = some s

theorem StaffWritten.texts (h : StaffWritten units spec row) : row.texts = spec.texts := by
  rw [Staff.texts, StaffSpec.texts, h.employeeNo, h.givenName, h.middleName, h.surname, h.fullName,
    h.email, h.positionTitle, h.plantillaItemNo]

/-- A row is another than the one written exactly when the number does not name it. -/
theorem id_ne_iff (h : db.StaffKeyed) (hid : row.id = staffId db spec.employeeNo) {s : Staff}
    (hs : s ∈ db.staff) : s.id ≠ row.id ↔ staffOf db.staff spec.employeeNo ≠ some s := by
  rw [hid, staffId]
  cases hold : staffOf db.staff spec.employeeNo with
  | none => simpa using (h.bounded s hs).ne
  | some old =>
      simp only [Option.map_some, Option.getD_some, ne_eq, Option.some.injEq]
      refine not_congr ⟨fun heq => ?_, fun heq => heq ▸ rfl⟩
      exact (List.inj_on_of_nodup_map h.nodup hs (mem_of_lastWith hold).1 heq).symm

theorem numberTaken_iff (h : db.StaffKeyed) (hno : row.employeeNo = spec.employeeNo)
    (hid : row.id = staffId db spec.employeeNo) :
    ¬ numberTaken db.staff row ↔ ∀ s ∈ db.staff, s.deletedAt = none →
      s.employeeNo = spec.employeeNo → staffOf db.staff spec.employeeNo = some s := by
  rw [numberTaken, hno]
  push Not
  refine forall_congr' fun s => forall_congr' fun hs => ?_
  rw [id_ne_iff h hid hs]
  tauto

theorem emailTaken_iff (h : db.StaffKeyed) (hemail : row.email = spec.email)
    (hid : row.id = staffId db spec.employeeNo) :
    ¬ emailTaken db.staff row ↔ OwnAddress db.staff [] spec := by
  rw [emailTaken, hemail, OwnAddress]
  push Not
  refine forall_congr' fun s => forall_congr' fun hs => ?_
  rw [id_ne_iff h hid hs]
  simp only [List.mem_singleton, exists_eq_left]
  tauto

theorem employmentStatus_isOk {status : Option String} :
    (∃ s, employmentStatus status = .ok s) ↔
      ∀ text ∈ status, (EmploymentStatus.ofText? text).isSome := by
  cases status with
  | none => simp [employmentStatus]
  | some text => simp [employmentStatus, Option.isSome_iff_exists]

theorem exists_upsertStaff_iff (h : db.StaffKeyed)
    (hnames : spec.givenName.isSome ∧ spec.surname.isSome ∧ spec.fullName.isSome) :
    (∃ db', upsertStaff plat db spec = .ok db') ↔
      StaffFits plat db.staff spec ∧ OwnAddress db.staff [] spec := by
  simp only [upsertStaff_eq_ok]
  constructor
  · rintro ⟨_, row, hrow, hstores, hnumber, hemail, -⟩
    obtain ⟨hwritten, hid, -⟩ := staffRow_eq_ok.1 hrow
    refine ⟨⟨employmentStatus_isOk.1 ⟨_, hwritten.employmentStatus⟩, hwritten.texts ▸ hstores, ?_⟩, ?_⟩
    · exact (numberTaken_iff h hwritten.employeeNo hid).1 hnumber
    · exact (emailTaken_iff h hwritten.email hid).1 hemail
  · rintro ⟨hfits, haddress⟩
    obtain ⟨given, hgiven⟩ := Option.isSome_iff_exists.1 hnames.1
    obtain ⟨surname, hsurname⟩ := Option.isSome_iff_exists.1 hnames.2.1
    obtain ⟨full, hfull⟩ := Option.isSome_iff_exists.1 hnames.2.2
    obtain ⟨status, hstatus⟩ := employmentStatus_isOk.2 hfits.status
    have hrow : ∃ row, staffRow db spec = .ok row := by
      simp [staffRow, notNull, hgiven, hsurname, hfull, hstatus]
    obtain ⟨row, hrow⟩ := hrow
    obtain ⟨hwritten, hid, -⟩ := staffRow_eq_ok.1 hrow
    refine ⟨_, row, hrow, ?_, ?_, ?_, rfl⟩
    · rw [Platform.storesStaff, hwritten.texts]
      exact hfits.texts
    · exact (numberTaken_iff h hwritten.employeeNo hid).2 hfits.own
    · exact (emailTaken_iff h hwritten.email hid).2 haddress

/-! ## The staff pass -/

/-- Two people at two addresses. -/
def Apart (a b : StaffSpec) : Prop :=
  a.employeeNo ≠ b.employeeNo ∧ (a.email ≠ none → a.email ≠ b.email)

/-- Each address is free when its turn comes. -/
def InTurn (staff : List Staff) : List StaffSpec → List StaffSpec → Prop
  | _, [] => True
  | done, spec :: rest => OwnAddress staff done spec ∧ InTurn staff (done ++ [spec]) rest

theorem staffFits_of_upserted (h : Upserted Staff.employeeNo Staff.id staff row staff')
    (hids : (staff.map Staff.id).Nodup) (hne : spec.employeeNo ≠ row.employeeNo) :
    StaffFits plat staff' spec ↔ StaffFits plat staff spec := by
  have hown : (∀ s ∈ staff', s.deletedAt = none → s.employeeNo = spec.employeeNo →
      staffOf staff' spec.employeeNo = some s) ↔ ∀ s ∈ staff, s.deletedAt = none →
        s.employeeNo = spec.employeeNo → staffOf staff spec.employeeNo = some s := by
    have hlast : staffOf staff' spec.employeeNo = staffOf staff spec.employeeNo :=
      h.lastWith_of_ne hids hne
    rw [hlast]
    have hmem : ∀ s, s.employeeNo = spec.employeeNo → (s ∈ staff' ↔ s ∈ staff) := fun s hs =>
      h.mem_of_key_ne hids (hs ▸ hne)
    exact ⟨fun hown s hs hlive hno => hown s ((hmem s hno).2 hs) hlive hno,
      fun hown s hs hlive hno => hown s ((hmem s hno).1 hs) hlive hno⟩
  exact ⟨fun hfits => ⟨hfits.status, hfits.texts, hown.1 hfits.own⟩,
    fun hfits => ⟨hfits.status, hfits.texts, hown.2 hfits.own⟩⟩

/-- A row written over no longer holds its old address, and holds its new one against nobody else of
the feed. -/
theorem ownAddress_of_upserted (h : Upserted Staff.employeeNo Staff.id db.staff row staff')
    (hkeyed : db.StaffKeyed) (hno : row.employeeNo = d.employeeNo) (hemail : row.email = d.email)
    (hid : row.id = staffId db d.employeeNo) (hspec : Apart spec d)
    (hdone : ∀ e ∈ done, e.employeeNo ≠ d.employeeNo) :
    OwnAddress staff' done spec ↔ OwnAddress db.staff (d :: done) spec := by
  have hsame : ∀ e ∈ spec :: done, staffOf staff' e.employeeNo = staffOf db.staff e.employeeNo := by
    intro e he
    refine h.lastWith_of_ne hkeyed.nodup ?_
    rw [hno]
    rcases List.mem_cons.1 he with rfl | he
    · exact hspec.1
    · exact hdone e he
  constructor
  · intro hown s hs hlive hsome heq
    by_cases hold : staffOf db.staff d.employeeNo = some s
    · exact ⟨d, by simp, hold⟩
    · have hkept : s ∈ staff' := h.mem_iff.2 (.inr ⟨hs, (id_ne_iff hkeyed hid hs).2 hold⟩)
      obtain ⟨e, he, hrow⟩ := hown s hkept hlive hsome heq
      rw [hsame e he] at hrow
      exact ⟨e, List.cons_subset_cons spec (List.subset_cons_self d done) he, hrow⟩
  · intro hown s hs hlive hsome heq
    rcases h.mem_iff.1 hs with rfl | ⟨hs, hne⟩
    · exact absurd (heq.symm.trans hemail) (hspec.2 (heq ▸ hsome))
    · obtain ⟨e, he, hrow⟩ := hown s hs hlive hsome heq
      rcases List.mem_cons.1 ((List.Perm.swap d spec done).mem_iff.1 he) with rfl | he
      · exact absurd hrow ((id_ne_iff hkeyed hid hs).1 hne)
      · exact ⟨e, he, (hsame e he).trans hrow⟩

theorem inTurn_of_upserted (h : Upserted Staff.employeeNo Staff.id db.staff row staff')
    (hkeyed : db.StaffKeyed) (hno : row.employeeNo = d.employeeNo) (hemail : row.email = d.email)
    (hid : row.id = staffId db d.employeeNo) (hrest : ∀ spec ∈ done ++ rest, Apart spec d) :
    InTurn staff' done rest ↔ InTurn db.staff (d :: done) rest := by
  induction rest generalizing done with
  | nil => rfl
  | cons spec rest ih =>
      have hspec : Apart spec d := hrest spec (by simp)
      have hdone : ∀ e ∈ done, e.employeeNo ≠ d.employeeNo := fun e he =>
        (hrest e (List.mem_append_left _ he)).1
      rw [InTurn, InTurn, ownAddress_of_upserted h hkeyed hno hemail hid hspec hdone, ih]
      · rfl
      · simpa using hrest

/-- The staff pass goes through exactly when every row fits and every address is free in turn. -/
theorem exists_staffPass_iff (h : db.StaffKeyed)
    (hnames : ∀ spec ∈ specs, spec.givenName.isSome ∧ spec.surname.isSome ∧ spec.fullName.isSome)
    (hapart : specs.Pairwise fun a b => Apart b a) :
    (∃ written, writeAll (upsertStaff plat) specs db = .ok written) ↔
      (∀ spec ∈ specs, StaffFits plat db.staff spec) ∧ InTurn db.staff [] specs := by
  induction specs generalizing db with
  | nil => simp [writeAll, InTurn]
  | cons spec specs ih =>
      obtain ⟨hname, hnames⟩ := List.forall_mem_cons.1 hnames
      rw [List.pairwise_cons] at hapart
      have hhead := @exists_upsertStaff_iff plat db spec h hname
      have hrest : ∀ mid, upsertStaff plat db spec = .ok mid →
          ((∃ written, writeAll (upsertStaff plat) specs mid = .ok written) ↔
            (∀ s ∈ specs, StaffFits plat db.staff s) ∧ InTurn db.staff [spec] specs) := by
        intro mid hmid
        obtain ⟨row, hrow, -, -, -, rfl⟩ := upsertStaff_eq_ok.1 hmid
        obtain ⟨hwritten, hid, -⟩ := staffRow_eq_ok.1 hrow
        obtain ⟨hup, hkeyed⟩ := h.put (hwritten.employeeNo ▸ hid)
        rw [ih hkeyed hnames hapart.2]
        refine and_congr ?_ ?_
        · refine forall_congr' fun s => forall_congr' fun hs => ?_
          exact staffFits_of_upserted hup h.nodup (hwritten.employeeNo ▸ (hapart.1 s hs).1)
        · exact inTurn_of_upserted hup h hwritten.employeeNo hwritten.email hid
            (by simpa using hapart.1)
      simp only [writeAll_cons, List.forall_mem_cons, InTurn, List.nil_append]
      rw [exists_comm]
      constructor
      · rintro ⟨mid, written, hmid, hpass⟩
        obtain ⟨hfits, haddress⟩ := hhead.1 ⟨mid, hmid⟩
        obtain ⟨hfitsRest, hturn⟩ := (hrest mid hmid).1 ⟨written, hpass⟩
        exact ⟨⟨hfits, hfitsRest⟩, haddress, hturn⟩
      · rintro ⟨⟨hfits, hfitsRest⟩, haddress, hturn⟩
        obtain ⟨mid, hmid⟩ := hhead.2 ⟨hfits, haddress⟩
        obtain ⟨written, hpass⟩ := (hrest mid hmid).2 ⟨hfitsRest, hturn⟩
        exact ⟨mid, written, hmid, hpass⟩

/-! ## The order of the flush -/

/-- A live row with the address of the spec is its own row, or that of a spec of the feed which the
flush writes before: rows that exist go first, by their ids. -/
def AddressFree (staff : List Staff) (specs : List StaffSpec) (spec : StaffSpec) : Prop :=
  ∀ s ∈ staff, s.deletedAt = none → s.email ≠ none → s.email = spec.email →
    staffOf staff spec.employeeNo = some s ∨ ∃ d ∈ specs, staffOf staff d.employeeNo = some s ∧
      ∀ old ∈ staffOf staff spec.employeeNo, s.id < old.id

/-- The flush writes the row of `a` before the row of `b`, or `b` has none. -/
def Before (staff : List Staff) (a b : StaffSpec) : Prop :=
  ∀ y ∈ staffOf staff b.employeeNo, ∃ x ∈ staffOf staff a.employeeNo, x.id < y.id

/-- The rows the flush writes over, each with its spec, in the order of the feed. -/
def updates (staff : List Staff) (specs : List StaffSpec) : List (Staff × StaffSpec) :=
  specs.filterMap fun spec => (staffOf staff spec.employeeNo).map (·, spec)

/-- The specs of people without a row. -/
def inserts (staff : List Staff) (specs : List StaffSpec) : List StaffSpec :=
  specs.filter fun spec => (staffOf staff spec.employeeNo).isNone

/-- The updates in the order of the flush. -/
def sortedUpdates (staff : List Staff) (specs : List StaffSpec) : List (Staff × StaffSpec) :=
  (updates staff specs).insertionSort fun a b => a.1.id ≤ b.1.id

theorem staffOrder_eq :
    staffOrder staff specs = (sortedUpdates staff specs).map (·.2) ++ inserts staff specs := rfl

theorem mem_updates {a : Staff × StaffSpec} :
    a ∈ updates staff specs ↔ a.2 ∈ specs ∧ staffOf staff a.2.employeeNo = some a.1 := by
  obtain ⟨x, spec⟩ := a
  simp only [updates, List.mem_filterMap, Option.map_eq_some_iff, Prod.mk.injEq]
  constructor
  · rintro ⟨_, hspec, _, hx, rfl, rfl⟩
    exact ⟨hspec, hx⟩
  · rintro ⟨hspec, hx⟩
    exact ⟨spec, hspec, x, hx, rfl, rfl⟩

theorem sortedUpdates_perm : (sortedUpdates staff specs).Perm (updates staff specs) :=
  List.perm_insertionSort ..

theorem staffOrder_perm : (staffOrder staff specs).Perm specs := by
  have hupdates : (updates staff specs).map (·.2) =
      specs.filter fun spec => (staffOf staff spec.employeeNo).isSome := by
    rw [updates, List.map_filterMap, ← List.filterMap_eq_filter]
    refine List.filterMap_congr fun spec _ => ?_
    cases h : staffOf staff spec.employeeNo <;> simp [Option.guard, h]
  have hinserts : inserts staff specs =
      specs.filter fun spec => !(staffOf staff spec.employeeNo).isSome := by
    refine List.filter_congr fun spec _ => ?_
    cases staffOf staff spec.employeeNo <;> rfl
  rw [staffOrder_eq]
  refine ((sortedUpdates_perm.map _).append_right _).trans ?_
  rw [hupdates, hinserts]
  exact List.filter_append_perm _ specs

/-- Two updates are of two people. -/
theorem sortedUpdates_apart (hnumbers : (specs.map (·.employeeNo)).Nodup) :
    (sortedUpdates staff specs).Pairwise fun a b => a.2.employeeNo ≠ b.2.employeeNo := by
  refine sortedUpdates_perm.symm.pairwise ?_ fun h => h.symm
  refine List.pairwise_filterMap.2 ((List.pairwise_map.1 hnumbers).imp ?_)
  rintro a b hne x hx y hy
  obtain ⟨_, -, rfl⟩ := Option.map_eq_some_iff.1 hx
  obtain ⟨_, -, rfl⟩ := Option.map_eq_some_iff.1 hy
  exact hne

theorem sortedUpdates_lt (hids : (staff.map Staff.id).Nodup)
    (hnumbers : (specs.map (·.employeeNo)).Nodup) :
    (sortedUpdates staff specs).Pairwise fun a b => a.1.id < b.1.id := by
  have hsorted : (sortedUpdates staff specs).Pairwise fun a b => a.1.id ≤ b.1.id :=
    List.pairwise_insertionSort ..
  refine (hsorted.and (sortedUpdates_apart hnumbers)).imp_of_mem ?_
  rintro a b ha hb ⟨hle, hne⟩
  refine lt_of_le_of_ne hle fun heq => hne ?_
  obtain ⟨hmemA, hnoA⟩ := mem_of_lastWith (mem_updates.1 (sortedUpdates_perm.mem_iff.1 ha)).2
  obtain ⟨hmemB, hnoB⟩ := mem_of_lastWith (mem_updates.1 (sortedUpdates_perm.mem_iff.1 hb)).2
  rw [← hnoA, ← hnoB, List.inj_on_of_nodup_map hids hmemA hmemB heq]

theorem staffOrder_before (hids : (staff.map Staff.id).Nodup)
    (hnumbers : (specs.map (·.employeeNo)).Nodup) :
    (staffOrder staff specs).Pairwise (Before staff) := by
  have hinsert : ∀ a, ∀ b ∈ inserts staff specs, Before staff a b := by
    intro a b hb y hy
    rw [inserts, List.mem_filter, Option.isNone_iff_eq_none] at hb
    exact nomatch hb.2.symm.trans hy
  rw [staffOrder_eq]
  refine List.pairwise_append.2 ⟨?_, ?_, fun a _ b hb => hinsert a b hb⟩
  · rw [List.pairwise_map]
    refine (sortedUpdates_lt hids hnumbers).imp_of_mem ?_
    intro a b ha hb hlt y hy
    have hrowA := (mem_updates.1 (sortedUpdates_perm.mem_iff.1 ha)).2
    have hrowB := (mem_updates.1 (sortedUpdates_perm.mem_iff.1 hb)).2
    rw [← Option.some.inj (hrowB.symm.trans hy)]
    exact ⟨a.1, hrowA, hlt⟩
  · exact List.pairwise_of_forall_mem_list fun a _ b hb => hinsert a b hb

/-- In the order of the flush, free in turn is free of the rows that stay. -/
theorem inTurn_iff (hbefore : (done ++ rest).Pairwise (Before staff)) :
    InTurn staff done rest ↔ ∀ spec ∈ rest, AddressFree staff (done ++ rest) spec := by
  induction rest generalizing done with
  | nil => simp [InTurn]
  | cons spec rest ih =>
      have hdone : ∀ d ∈ done, Before staff d spec := fun d hd =>
        (List.pairwise_append.1 hbefore).2.2 d hd spec List.mem_cons_self
      have hlater : ∀ d ∈ rest, Before staff spec d :=
        (List.pairwise_cons.1 (List.pairwise_append.1 hbefore).2.1).1
      have hhead : OwnAddress staff done spec ↔ AddressFree staff (done ++ spec :: rest) spec := by
        refine forall₂_congr fun s hs => forall₃_congr fun hlive hsome heq => ?_
        constructor
        · rintro ⟨d, hd, hrow⟩
          rcases List.mem_cons.1 hd with rfl | hd
          · exact .inl hrow
          · refine .inr ⟨d, List.mem_append_left _ hd, hrow, fun old hold => ?_⟩
            obtain ⟨x, hx, hlt⟩ := hdone d hd old hold
            rwa [Option.some.inj (hrow.symm.trans hx)]
        · rintro (hrow | ⟨d, hd, hrow, hlt⟩)
          · exact ⟨spec, List.mem_cons_self, hrow⟩
          · rcases List.mem_append.1 hd with hd | hd
            · exact ⟨d, List.mem_cons_of_mem _ hd, hrow⟩
            · rcases List.mem_cons.1 hd with rfl | hd
              · exact ⟨d, List.mem_cons_self, hrow⟩
              · obtain ⟨x, hx, hlt'⟩ := hlater d hd s hrow
                exact absurd (hlt x hx) hlt'.asymm
      rw [InTurn, List.forall_mem_cons, hhead, ih (by simpa using hbefore)]
      simp

end Staff

/-! ## A prepared feed -/

section Prepared

variable {lower : String → String} {feed : Feed} {specs : List UnitSpec} {staffSpecs : List StaffSpec}

/-- Every staff row fits and its address is free. -/
def StaffTaken (plat : Platform) (staff : List Staff) (specs : List StaffSpec) : Prop :=
  ∀ spec ∈ specs, StaffFits plat staff spec ∧ AddressFree staff specs spec

theorem Apart.symm {a b : StaffSpec} (h : Apart a b) : Apart b a :=
  ⟨h.1.symm, fun hsome heq => h.2 (heq ▸ hsome) heq.symm⟩

/-- A full name is given or derived. -/
theorem fullName_isSome {raw : RawStaff} {emp : String} {spec : StaffSpec}
    (h : readStaffSpec raw emp = .ok spec) (hgiven : spec.givenName.isSome)
    (hsurname : spec.surname.isSome) : spec.fullName.isSome := by
  simp only [readStaffSpec, bind_eq_ok, pure_eq_ok] at h
  obtain ⟨given, -, surname, -, _, -, fullName, -, _, -, _, -, _, -, _, -, _, -, _, -, rfl⟩ := h
  obtain ⟨g, hg⟩ := Option.isSome_iff_exists.1 hgiven
  obtain ⟨n, hn⟩ := Option.isSome_iff_exists.1 hsurname
  simp only at hg hn
  cases fullName <;> simp [derivedName, hg, hn]

theorem Prepared.fullNames (h : Prepared lower units feed specs staffSpecs) :
    ∀ spec ∈ staffSpecs, spec.givenName.isSome ∧ spec.surname.isSome ∧ spec.fullName.isSome := by
  intro spec hspec
  obtain ⟨hgiven, hsurname⟩ := h.names spec hspec
  obtain ⟨raw, -, -, hread⟩ := exists_left_of_mem h.staffRead hspec
  exact ⟨hgiven, hsurname, fullName_isSome hread hgiven hsurname⟩

theorem Prepared.apart (h : Prepared lower units feed specs staffSpecs) :
    staffSpecs.Pairwise Apart := by
  have hnumbers := List.pairwise_map.1 h.numbers
  have hemails := List.pairwise_filterMap.1 h.emails
  refine (hnumbers.and hemails).imp ?_
  rintro a b ⟨hno, hemail⟩
  refine ⟨hno, fun hsome heq => ?_⟩
  obtain ⟨e, he⟩ := Option.ne_none_iff_exists'.1 hsome
  exact hemail (lower e) (by simp [he]) (lower e) (by simp [← heq, he]) rfl

theorem Prepared.exists_unitPass_iff (h : Prepared lower db.units feed specs staffSpecs)
    (hkeyed : db.UnitsKeyed) :
    (∃ placed, writeAll (upsertUnit plat) (topologicalOrder specs) db = .ok placed) ↔
      ∀ spec ∈ specs, UnitFits plat db.units spec := by
  have hperm := topologicalOrder_perm h.loopless
  rw [Ingest.exists_unitPass_iff hkeyed ((hperm.map UnitSpec.code).nodup_iff.2 h.codes)
    (fun spec hspec => h.complete spec (hperm.mem_iff.1 hspec))
    (topologicalRounds_parentsFirst fun spec hspec p hp => (h.resolves hspec hp).symm)]
  · exact forall_congr' fun spec => imp_congr hperm.mem_iff Iff.rfl
  · intro p hp
    rwa [idOf, Option.isSome_map]

theorem Prepared.exists_staffPass_iff (h : Prepared lower units feed specs staffSpecs)
    (hkeyed : db.StaffKeyed) :
    (∃ written, writeAll (upsertStaff plat) (staffOrder db.staff staffSpecs) db = .ok written) ↔
      StaffTaken plat db.staff staffSpecs := by
  have hperm : (staffOrder db.staff staffSpecs).Perm staffSpecs := staffOrder_perm
  have hturn : InTurn db.staff [] (staffOrder db.staff staffSpecs) ↔
      ∀ spec ∈ staffOrder db.staff staffSpecs,
        AddressFree db.staff ([] ++ staffOrder db.staff staffSpecs) spec :=
    inTurn_iff (staffOrder_before hkeyed.nodup h.numbers)
  have hapart : (staffOrder db.staff staffSpecs).Pairwise fun a b => Apart b a :=
    (hperm.symm.pairwise h.apart fun hab => hab.symm).imp fun hab => hab.symm
  rw [Ingest.exists_staffPass_iff hkeyed
    (fun spec hspec => h.fullNames spec (hperm.mem_iff.1 hspec)) hapart, hturn, ← forall₂_and]
  refine forall_congr' fun spec => imp_congr hperm.mem_iff (and_congr_right fun _ => ?_)
  simp only [AddressFree, List.nil_append, hperm.mem_iff]

end Prepared

end OfficeConnect.Ingest
