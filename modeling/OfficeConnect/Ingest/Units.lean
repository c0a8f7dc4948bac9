import OfficeConnect.Ingest.Service

/-!
# What the unit pass leaves

The unit pass is a run of upserts by code: which row each spec is written as, and what every row
of the table then is.
-/

namespace OfficeConnect.Ingest

open Lib

variable {plat : Platform} {db db' : Db} {spec : UnitSpec} {specs : List UnitSpec} {code : String}
  {row : OrgUnit} {units units' : List OrgUnit}

/-! ## One unit -/

/-- The id is the primary key, handed out by the sequence. -/
structure Db.UnitsKeyed (db : Db) : Prop where
  nodup : (db.units.map OrgUnit.id).Nodup
  bounded : ∀ u ∈ db.units, u.id < db.nextUnitId

/-- The id of the row of a code. -/
def idOf (units : List OrgUnit) (code : String) : Option ℕ := (unitOf units code).map (·.id)

theorem idOf_eq_some {i : ℕ} : idOf units code = some i ↔ ∃ u, unitOf units code = some u ∧ u.id = i :=
  Option.map_eq_some_iff

/-- The row a spec is written as. -/
structure Written (units : List OrgUnit) (spec : UnitSpec) (row : OrgUnit) : Prop where
  code : row.code = spec.code
  name : spec.name = some row.name
  kind : spec.kind.bind OrgUnitKind.ofText? = some row.kind
  parent : row.parentOrgUnitId = spec.parentCode.bind (idOf units)
  resolves : ∀ parent ∈ spec.parentCode, (idOf units parent).isSome
  sortOrder : row.sortOrder = spec.sortOrder
  isActive : row.isActive = spec.isActive
  live : row.deletedAt = none

theorem parentId_eq_ok {parentCode : Option String} {parent : Option ℕ} :
    parentId units parentCode = .ok parent ↔
      parent = parentCode.bind (idOf units) ∧ ∀ p ∈ parentCode, (idOf units p).isSome := by
  cases parentCode with
  | none => simpa [parentId] using eq_comm
  | some p =>
      cases hunit : unitOf units p with
      | none => simp [parentId, idOf, hunit]
      | some u => simpa [parentId, idOf, hunit] using eq_comm

/-- A spec is written as one row, but for the id and who deleted it. -/
theorem Written.eq {row' : OrgUnit} (h : Written units spec row) (h' : Written units spec row')
    (hid : row'.id = row.id) (hby : row'.deletedBy = row.deletedBy) : row' = row := by
  have hname := Option.some.inj (h'.name.symm.trans h.name)
  have hkind := Option.some.inj (h'.kind.symm.trans h.kind)
  have hcode := h'.code.trans h.code.symm
  have hparent := h'.parent.trans h.parent.symm
  have hsort := h'.sortOrder.trans h.sortOrder.symm
  have hactive := h'.isActive.trans h.isActive.symm
  have hlive := h'.live.trans h.live.symm
  cases row
  cases row'
  simp only at *
  subst_vars
  rfl

theorem unitRow_eq_ok : unitRow db spec = .ok row ↔
    Written db.units spec row ∧ row.id = (idOf db.units spec.code).getD db.nextUnitId ∧
      row.deletedBy = (unitOf db.units spec.code).bind fun u =>
        if u.deletedAt.isSome then none else u.deletedBy := by
  simp only [unitRow, bind_eq_ok, notNull, found_eq_ok, pure_eq_ok]
  constructor
  · rintro ⟨parent, hparent, name, hname, kind, hkind, rfl⟩
    obtain ⟨rfl, hresolves⟩ := parentId_eq_ok.1 hparent
    exact ⟨⟨rfl, hname, hkind, rfl, hresolves, rfl, rfl, rfl⟩, rfl, rfl⟩
  · rintro ⟨h, hid, hby⟩
    refine ⟨_, parentId_eq_ok.2 ⟨rfl, h.resolves⟩, row.name, h.name, row.kind, h.kind, ?_⟩
    refine h.eq ?_ hid.symm hby.symm
    exact ⟨rfl, h.name, h.kind, rfl, h.resolves, rfl, rfl, rfl⟩

/-- Everything a written unit met. -/
theorem upsertUnit_eq_ok : upsertUnit plat db spec = .ok db' ↔
    ∃ row, unitRow db spec = .ok row ∧ plat.storesUnit row ∧ ¬ codeTaken db.units row ∧
      db.putUnit row = db' := by
  simp [upsertUnit]

/-- A write is an upsert by code. -/
theorem Db.UnitsKeyed.put (h : db.UnitsKeyed)
    (hid : row.id = (idOf db.units row.code).getD db.nextUnitId) :
    Upserted OrgUnit.code OrgUnit.id db.units row (db.putUnit row).units ∧
      (db.putUnit row).UnitsKeyed := by
  unfold Db.putUnit
  cases hold : unitOf db.units row.code with
  | none =>
      have hnew : row.id = db.nextUnitId := by simpa [idOf, hold] using hid
      have hup : Upserted OrgUnit.code OrgUnit.id db.units row (db.units ++ [row]) :=
        .insert hold fun u hu => hnew ▸ (h.bounded u hu).ne
      refine ⟨hup, hup.nodup h.nodup, fun u hu => ?_⟩
      rcases hup.mem_iff.1 hu with rfl | ⟨hu, -⟩
      · exact hnew ▸ Nat.lt_succ_self _
      · exact (h.bounded u hu).trans (Nat.lt_succ_self _)
  | some old =>
      have hsame : row.id = old.id := by simpa [idOf, hold] using hid
      have hup : Upserted OrgUnit.code OrgUnit.id db.units row (overwrite OrgUnit.id db.units row) :=
        .update old hold hsame
      refine ⟨hup, hup.nodup h.nodup, fun u hu => ?_⟩
      rcases hup.mem_iff.1 hu with rfl | ⟨hu, -⟩
      · exact hsame ▸ h.bounded old (mem_of_lastWith hold).1
      · exact h.bounded u hu

/-- The tables a unit write leaves alone. -/
structure SameStaff (db db' : Db) : Prop where
  staff : db'.staff = db.staff
  users : db'.users = db.users
  nextStaffId : db'.nextStaffId = db.nextStaffId

theorem sameStaff_putUnit (db : Db) (row : OrgUnit) : SameStaff db (db.putUnit row) := by
  unfold Db.putUnit
  split <;> exact ⟨rfl, rfl, rfl⟩

/-! ## A pass -/

theorem writeAll_cons {ω : Type} {write : Db → ω → Except Raised Db} {w : ω} {ws : List ω} :
    writeAll write (w :: ws) db = .ok db' ↔
      ∃ mid, write db w = .ok mid ∧ writeAll write ws mid = .ok db' := by
  rw [writeAll]
  cases write db w with
  | error e => simp
  | ok mid => simp

theorem Written.of_ids (h : Written units spec row)
    (hids : ∀ p i, idOf units p = some i → idOf units' p = some i) : Written units' spec row where
  code := h.code
  name := h.name
  kind := h.kind
  sortOrder := h.sortOrder
  isActive := h.isActive
  live := h.live
  parent := by
    rw [h.parent]
    cases hparent : spec.parentCode with
    | none => rfl
    | some p =>
        obtain ⟨i, hi⟩ := Option.isSome_iff_exists.1 (h.resolves p hparent)
        rw [Option.bind_some, Option.bind_some, hi, hids p i hi]
  resolves p hp := by
    obtain ⟨i, hi⟩ := Option.isSome_iff_exists.1 (h.resolves p hp)
    rw [hids p i hi]
    rfl

/-- What a pass over the specs leaves: the rows they were written as, and those it went by. -/
structure UnitsWritten (db : Db) (specs : List UnitSpec) (rows : List OrgUnit) (db' : Db) : Prop where
  written : List.Forall₂ (Written db'.units) specs rows
  upserted : UpsertedAll OrgUnit.code OrgUnit.id db.units rows db'.units
  keyed : db'.UnitsKeyed
  same : SameStaff db db'

theorem unitsWritten (h : db.UnitsKeyed)
    (hpass : writeAll (upsertUnit plat) specs db = .ok db') :
    ∃ rows, UnitsWritten db specs rows db' := by
  induction specs generalizing db with
  | nil =>
      cases hpass
      exact ⟨[], .nil, .nil _, h, ⟨rfl, rfl, rfl⟩⟩
  | cons spec specs ih =>
      obtain ⟨mid, hwrite, hpass⟩ := writeAll_cons.1 hpass
      obtain ⟨row, hrow, -, -, rfl⟩ := upsertUnit_eq_ok.1 hwrite
      obtain ⟨hwritten, hid, -⟩ := unitRow_eq_ok.1 hrow
      rw [← hwritten.code] at hid
      obtain ⟨hup, hkeyed⟩ := h.put hid
      obtain ⟨rows, hrest⟩ := ih hkeyed hpass
      have hall := UpsertedAll.cons hup hrest.upserted
      refine ⟨row :: rows, .cons (hwritten.of_ids ?_) hrest.written, hall, hrest.keyed, ?_⟩
      · intro p i hi
        obtain ⟨u, hu, rfl⟩ := idOf_eq_some.1 hi
        exact hall.lastWith_id h.nodup hu
      · have hsame := sameStaff_putUnit db row
        exact ⟨hrest.same.staff.trans hsame.staff, hrest.same.users.trans hsame.users,
          hrest.same.nextStaffId.trans hsame.nextStaffId⟩

theorem codes_of_written {rows : List OrgUnit} (h : List.Forall₂ (Written units) specs rows) :
    rows.map OrgUnit.code = specs.map UnitSpec.code := by
  induction h with
  | nil => rfl
  | cons hrow _ ih => rw [List.map_cons, List.map_cons, hrow.code, ih]

end OfficeConnect.Ingest
