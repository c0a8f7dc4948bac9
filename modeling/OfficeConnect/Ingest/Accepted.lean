import OfficeConnect.Ingest.Order
import OfficeConnect.Ingest.Reading
import OfficeConnect.Ingest.Units

/-!
# What an accepted feed is

The facts the in-memory checks establish about a feed, and the stages an accepted one goes through.
-/

namespace OfficeConnect.Ingest

open Lib

variable {plat : Platform} {c : Call} {db db' placed written : Db} {lower : String → String}
  {units : List OrgUnit} {specs : List UnitSpec} {staff : List StaffSpec} {feed : Feed}
  {result : IngestResult}

/-- A feed that passes the checks, with what it reads as. -/
structure Prepared (lower : String → String) (units : List OrgUnit) (feed : Feed)
    (specs : List UnitSpec) (staff : List StaffSpec) : Prop where
  unitsRead : List.Forall₂ (unitBatch lower).Reads feed.orgUnits specs
  codes : (specs.map (·.code)).Nodup
  complete : ∀ spec ∈ specs, (spec.kind.bind OrgUnitKind.ofText?).isSome ∧ spec.name.isSome
  parents : checkParents units specs = []
  ends : detectOrgCycles specs = []
  staffRead : List.Forall₂ (staffBatch lower).Reads feed.staff staff
  numbers : (staff.map (·.employeeNo)).Nodup
  names : ∀ spec ∈ staff, spec.givenName.isSome ∧ spec.surname.isSome
  emails : (seenEmails lower staff).Nodup
  orgFields : checkStaffUnits units specs staff = []

@[simp] theorem mapError_eq_ok {ε ε' α : Type} {x : Except ε α} {f : ε → ε'} {a : α} :
    x.mapError f = .ok a ↔ x = .ok a := by
  cases x <;> simp [Except.mapError]

theorem prepare_eq_ok :
    prepare lower units feed = .ok (specs, staff) ↔ Prepared lower units feed specs staff := by
  have hnil : (seenEmails lower []).Nodup := List.nodup_nil
  simp only [prepare, bind_eq_ok, mapError_eq_ok, refuse_eq_ok, pure_eq_ok, not_not,
    List.append_eq_nil_iff, Prod.exists, Prod.mk.injEq]
  constructor
  · rintro ⟨_, unitErrors, hunits, _, staffErrors, hstaff, -, hnone, rfl, rfl⟩
    obtain ⟨⟨⟨⟨rfl, hparents⟩, hends⟩, rfl⟩, hfields⟩ := hnone
    obtain ⟨hread, hcodes, hproblems⟩ := (Batch.read_eq_ok_nil (unitBatch_keepsKey lower)).1 hunits
    obtain ⟨hreadStaff, hnumbers, hstaffProblems⟩ :=
      (Batch.read_eq_ok_nil (staffBatch_keepsKey lower)).1 hstaff
    obtain ⟨hnames, hemails⟩ := (staffBatch_noProblems hnil).1 hstaffProblems
    refine ⟨hread, hcodes, fun spec hspec => ?_, hparents, hends, hreadStaff, hnumbers, hnames,
      hemails, hfields⟩
    exact specProblems_eq_nil.1 (unitBatch_noProblems.1 hproblems spec hspec)
  · intro h
    refine ⟨specs, [], ?_, staff, [], ?_, (), ⟨⟨⟨⟨rfl, h.parents⟩, h.ends⟩, rfl⟩, h.orgFields⟩, rfl,
      rfl⟩
    · refine (Batch.read_eq_ok_nil (unitBatch_keepsKey lower)).2 ⟨h.unitsRead, h.codes, ?_⟩
      exact unitBatch_noProblems.2 fun spec hspec => specProblems_eq_nil.2 (h.complete spec hspec)
    · refine (Batch.read_eq_ok_nil (staffBatch_keepsKey lower)).2 ⟨h.staffRead, h.numbers, ?_⟩
      exact (staffBatch_noProblems hnil).2 ⟨h.names, h.emails⟩

theorem Prepared.loopless (h : Prepared lower units feed specs staff) : Loopless specs :=
  ⟨h.codes, h.ends⟩

theorem checkParents_eq_nil : checkParents units specs = [] ↔ ∀ spec ∈ specs,
    ∀ p ∈ spec.parentCode, p ∈ specs.map (·.code) ∨ (unitOf units p).isSome := by
  rw [checkParents, List.filterMap_eq_nil_iff]
  refine forall₂_congr fun spec _ => ?_
  cases spec.parentCode with
  | none => simp
  | some p =>
      simp only [Option.mem_def, Option.some.injEq, forall_eq', ← specOf_isSome]
      cases hspec : specOf specs p <;> cases hunit : unitOf units p <;> simp [hspec, hunit]

/-- A parent is a unit of the feed or of the database. -/
theorem Prepared.resolves (h : Prepared lower units feed specs staff) {spec : UnitSpec}
    (hspec : spec ∈ specs) {p : String} (hp : p ∈ spec.parentCode) :
    p ∈ specs.map (·.code) ∨ (unitOf units p).isSome :=
  checkParents_eq_nil.1 h.parents spec hspec p hp

/-! ## The stages -/

/-- The tables after the prune. -/
def afterPrune (c : Call) (placed written : Db) (staff : List StaffSpec) : Db :=
  { written with
    staff := written.staff.map (softDelete (absentStaff c placed.staff staff) c.now c.actorId) }

theorem applyFeed_eq_ok :
    applyFeed plat c db specs staff = .ok (db', result) ↔ ∃ placed written,
      writeAll (upsertUnit plat) (topologicalOrder specs) db = .ok placed ∧
      writeAll (upsertStaff plat) (staffOrder placed.staff staff) placed = .ok written ∧
      ¬ (c.deactivateAbsent ∧ staff = []) ∧ afterPrune c placed written staff = db' ∧
      resultOf db specs staff (absentStaff c placed.staff staff) = result := by
  simp [applyFeed, afterPrune]

/-- An accepted call: the feed passed the checks and every write was made. -/
theorem ingestDirectory_eq_ok (h : (ingestDirectory plat c db).outcome = .ok result) :
    ∃ specs staff, Prepared plat.lower db.units c.feed specs staff ∧
      applyFeed plat c db specs staff = .ok ((ingestDirectory plat c db).db, result) := by
  unfold ingestDirectory at h ⊢
  cases hprepare : prepare plat.lower db.units c.feed with
  | error e => simp [hprepare] at h
  | ok read =>
      obtain ⟨specs, staff⟩ := read
      simp only [hprepare] at h
      refine ⟨specs, staff, prepare_eq_ok.1 hprepare, ?_⟩
      cases happly : applyFeed plat c db specs staff with
      | error e => simp [happly] at h
      | ok out =>
          simp only [happly] at h ⊢
          rw [← Except.ok.inj h]

end OfficeConnect.Ingest
