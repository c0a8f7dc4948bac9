import OfficeConnect.Ingest.Units

/-!
# What the staff pass leaves

The staff flush is a run of upserts by employee number: which row each spec is written as, and what
every row of the table then is.
-/

namespace OfficeConnect.Ingest

open Lib

variable {plat : Platform} {db db' : Db} {spec : StaffSpec} {specs : List StaffSpec}
  {row row' : Staff} {units : List OrgUnit}

/-! ## One row -/

/-- The id is the primary key, handed out by the sequence. -/
structure Db.StaffKeyed (db : Db) : Prop where
  nodup : (db.staff.map Staff.id).Nodup
  bounded : ∀ s ∈ db.staff, s.id < db.nextStaffId

/-- The row a staff spec is written as. -/
structure StaffWritten (units : List OrgUnit) (spec : StaffSpec) (row : Staff) : Prop where
  employeeNo : row.employeeNo = spec.employeeNo
  givenName : spec.givenName = some row.givenName
  middleName : row.middleName = spec.middleName
  surname : spec.surname = some row.surname
  fullName : spec.fullName = some row.fullName
  email : row.email = spec.email
  positionTitle : row.positionTitle = spec.positionTitle
  plantillaItemNo : row.plantillaItemNo = spec.plantillaItemNo
  employmentStatus : employmentStatus spec.employmentStatus = .ok row.employmentStatus
  divisionId : row.divisionId = spec.divisionCode.bind (idOf units)
  sectionId : row.sectionId = spec.sectionCode.bind (idOf units)
  live : row.deletedAt = none

/-- The id a number's row has or gets. -/
def staffId (db : Db) (employeeNo : String) : ℕ :=
  ((staffOf db.staff employeeNo).map (·.id)).getD db.nextStaffId

/-- Who deleted the row, unless it is restored. -/
def keptDeletedBy (old : Option Staff) : Option ℕ :=
  old.bind fun s => if s.deletedAt.isSome then none else s.deletedBy

/-- A spec is written as one row, but for the id and who deleted it. -/
theorem StaffWritten.eq (h : StaffWritten units spec row) (h' : StaffWritten units spec row')
    (hid : row'.id = row.id) (hby : row'.deletedBy = row.deletedBy) : row' = row := by
  have hgiven := Option.some.inj (h'.givenName.symm.trans h.givenName)
  have hsurname := Option.some.inj (h'.surname.symm.trans h.surname)
  have hfull := Option.some.inj (h'.fullName.symm.trans h.fullName)
  have hstatus := Except.ok.inj (h'.employmentStatus.symm.trans h.employmentStatus)
  have hno := h'.employeeNo.trans h.employeeNo.symm
  have hmiddle := h'.middleName.trans h.middleName.symm
  have hemail := h'.email.trans h.email.symm
  have hposition := h'.positionTitle.trans h.positionTitle.symm
  have hplantilla := h'.plantillaItemNo.trans h.plantillaItemNo.symm
  have hdivision := h'.divisionId.trans h.divisionId.symm
  have hsection := h'.sectionId.trans h.sectionId.symm
  have hlive := h'.live.trans h.live.symm
  cases row
  cases row'
  simp only at *
  subst_vars
  rfl

theorem bind_idOf (x : Option String) : (x.bind (unitOf units)).map (·.id) = x.bind (idOf units) := by
  cases x <;> rfl

theorem staffRow_eq_ok : staffRow db spec = .ok row ↔ StaffWritten db.units spec row ∧
    row.id = staffId db spec.employeeNo ∧
    row.deletedBy = keptDeletedBy (staffOf db.staff spec.employeeNo) := by
  simp only [staffRow, bind_eq_ok, notNull, found_eq_ok, pure_eq_ok, bind_idOf]
  constructor
  · rintro ⟨given, hgiven, surname, hsurname, full, hfull, status, hstatus, rfl⟩
    exact ⟨⟨rfl, hgiven, rfl, hsurname, hfull, rfl, rfl, rfl, hstatus, rfl, rfl, rfl⟩, rfl, rfl⟩
  · rintro ⟨h, hid, hby⟩
    refine ⟨row.givenName, h.givenName, row.surname, h.surname, row.fullName, h.fullName,
      row.employmentStatus, h.employmentStatus, ?_⟩
    refine h.eq ?_ hid.symm hby.symm
    exact ⟨rfl, h.givenName, rfl, h.surname, h.fullName, rfl, rfl, rfl, h.employmentStatus, rfl, rfl,
      rfl⟩

/-- Everything a written staff row met. -/
theorem upsertStaff_eq_ok : upsertStaff plat db spec = .ok db' ↔
    ∃ row, staffRow db spec = .ok row ∧ plat.storesStaff row ∧ ¬ numberTaken db.staff row ∧
      ¬ emailTaken db.staff row ∧ db.putStaff row = db' := by
  simp [upsertStaff]

/-- A write is an upsert by employee number. -/
theorem Db.StaffKeyed.put (h : db.StaffKeyed) (hid : row.id = staffId db row.employeeNo) :
    Upserted Staff.employeeNo Staff.id db.staff row (db.putStaff row).staff ∧
      (db.putStaff row).StaffKeyed := by
  unfold Db.putStaff
  cases hold : staffOf db.staff row.employeeNo with
  | none =>
      have hnew : row.id = db.nextStaffId := by simpa [staffId, hold] using hid
      have hup : Upserted Staff.employeeNo Staff.id db.staff row (db.staff ++ [row]) :=
        .insert hold fun s hs => hnew ▸ (h.bounded s hs).ne
      refine ⟨hup, hup.nodup h.nodup, fun s hs => ?_⟩
      rcases hup.mem_iff.1 hs with rfl | ⟨hs, -⟩
      · exact hnew ▸ Nat.lt_succ_self _
      · exact (h.bounded s hs).trans (Nat.lt_succ_self _)
  | some old =>
      have hsame : row.id = old.id := by simpa [staffId, hold] using hid
      have hup : Upserted Staff.employeeNo Staff.id db.staff row
          (overwrite Staff.id db.staff row) := .update old hold hsame
      refine ⟨hup, hup.nodup h.nodup, fun s hs => ?_⟩
      rcases hup.mem_iff.1 hs with rfl | ⟨hs, -⟩
      · exact hsame ▸ h.bounded old (mem_of_lastWith hold).1
      · exact h.bounded s hs

/-- The tables a staff write leaves alone. -/
structure SameUnits (db db' : Db) : Prop where
  units : db'.units = db.units
  users : db'.users = db.users
  nextUnitId : db'.nextUnitId = db.nextUnitId

theorem sameUnits_putStaff (db : Db) (row : Staff) : SameUnits db (db.putStaff row) := by
  unfold Db.putStaff
  split <;> exact ⟨rfl, rfl, rfl⟩

theorem SameUnits.trans {db'' : Db} (h : SameUnits db db') (h' : SameUnits db' db'') :
    SameUnits db db'' :=
  ⟨h'.units.trans h.units, h'.users.trans h.users, h'.nextUnitId.trans h.nextUnitId⟩

/-- The tables after a unit pass have the staff keyed as before. -/
theorem SameStaff.keyed (h : SameStaff db db') (hstaff : db.StaffKeyed) : db'.StaffKeyed := by
  refine ⟨h.staff ▸ hstaff.nodup, ?_⟩
  rw [h.staff, h.nextStaffId]
  exact hstaff.bounded

/-! ## A pass -/

/-- What a pass over the specs leaves: the rows they were written as, and those it went by. -/
structure StaffPassed (db : Db) (specs : List StaffSpec) (rows : List Staff) (db' : Db) : Prop where
  written : List.Forall₂ (StaffWritten db.units) specs rows
  upserted : UpsertedAll Staff.employeeNo Staff.id db.staff rows db'.staff
  keyed : db'.StaffKeyed
  same : SameUnits db db'

theorem staffPassed (h : db.StaffKeyed)
    (hpass : writeAll (upsertStaff plat) specs db = .ok db') :
    ∃ rows, StaffPassed db specs rows db' := by
  induction specs generalizing db with
  | nil =>
      cases hpass
      exact ⟨[], .nil, .nil _, h, ⟨rfl, rfl, rfl⟩⟩
  | cons spec specs ih =>
      obtain ⟨mid, hwrite, hpass⟩ := writeAll_cons.1 hpass
      obtain ⟨row, hrow, -, -, -, rfl⟩ := upsertStaff_eq_ok.1 hwrite
      obtain ⟨hwritten, hid, -⟩ := staffRow_eq_ok.1 hrow
      rw [← hwritten.employeeNo] at hid
      obtain ⟨hup, hkeyed⟩ := h.put hid
      obtain ⟨rows, hrest⟩ := ih hkeyed hpass
      have hsame := sameUnits_putStaff db row
      have hrestWritten := hrest.written
      rw [hsame.units] at hrestWritten
      exact ⟨row :: rows, .cons hwritten hrestWritten, .cons hup hrest.upserted, hrest.keyed,
        hsame.trans hrest.same⟩

theorem numbers_of_written {rows : List Staff}
    (h : List.Forall₂ (StaffWritten units) specs rows) :
    rows.map Staff.employeeNo = specs.map StaffSpec.employeeNo := by
  induction h with
  | nil => rfl
  | cons hrow _ ih => rw [List.map_cons, List.map_cons, hrow.employeeNo, ih]

end OfficeConnect.Ingest
