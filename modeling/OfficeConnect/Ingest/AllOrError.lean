import OfficeConnect.Ingest.Applied

/-!
# All or error

The checks are made in memory first, so that a bad feed flushes nothing.  They do not cover what the
conversions raise, what the columns and the unique indexes refuse at a flush, and the guard of the
prune, which comes after the units are written.  An ingest applies the whole feed or reports its
errors with the tables untouched exactly when none of these is reached.
-/

namespace OfficeConnect.Ingest

open Lib

variable {plat : Platform} {c : Call} {db db' placed written : Db} {lower : String → String}
  {units : List OrgUnit} {specs : List UnitSpec} {staff : List StaffSpec} {feed : Feed}

/-- The feed is applied whole, or its errors are raised and no row is touched. -/
def AllOrError (plat : Platform) (c : Call) (db : Db) : Prop :=
  (∃ result specs staff, (ingestDirectory plat c db).outcome = .ok result ∧
    Applied plat.lower c specs staff (ingestDirectory plat c db).db) ∨
  ∃ errors, (ingestDirectory plat c db).outcome = .error (.directoryIngest errors) ∧
    (ingestDirectory plat c db).db = db

/-- Every value converts, and a feed that passes the checks is one the database takes; one without
staff that asks for a prune changes no unit. -/
structure Ingestible (plat : Platform) (c : Call) (db : Db) : Prop where
  unitsConvert : (unitBatch plat.lower).Converts [] c.feed.orgUnits
  staffConvert : (staffBatch plat.lower).Converts [] c.feed.staff
  fits : ∀ specs staff, Prepared plat.lower db.units c.feed specs staff →
    (∀ spec ∈ specs, UnitFits plat db.units spec) ∧
      if c.deactivateAbsent ∧ staff = [] then UnitsUnchanged db.units specs
      else StaffTaken plat db.staff staff

/-! ## What reading raises -/

theorem exists_read_iff_converts {Raw Spec : Type} {b : Batch Raw Spec} (hkeeps : b.KeepsKey)
    {raws : List Raw} : (∃ out, b.read raws = .ok out) ↔ b.Converts [] raws :=
  Batch.exists_read_iff hkeeps rfl

/-- A feed that converts is read, or its errors are raised. -/
theorem prepare_of_converts (hunits : (unitBatch lower).Converts [] feed.orgUnits)
    (hstaff : (staffBatch lower).Converts [] feed.staff) :
    (∃ errors, prepare lower units feed = .error (.directoryIngest errors)) ∨
      ∃ specs staff, prepare lower units feed = .ok (specs, staff) := by
  obtain ⟨⟨specs, unitErrors⟩, hreadUnits⟩ :=
    (exists_read_iff_converts (unitBatch_keepsKey lower)).2 hunits
  obtain ⟨⟨staff, staffErrors⟩, hreadStaff⟩ :=
    (exists_read_iff_converts (staffBatch_keepsKey lower)).2 hstaff
  simp only [prepare, hreadUnits, hreadStaff, Except.mapError, ok_bind]
  by_cases hnone : unitErrors ++ checkParents units specs ++ detectOrgCycles specs ++ staffErrors ++
      checkStaffUnits units specs staff = []
  · rw [refuse_of_not _ (not_not.2 hnone)]
    exact .inr ⟨specs, staff, rfl⟩
  · rw [refuse_of _ hnone]
    exact .inl ⟨_, rfl⟩

/-- A feed that does not convert raises something else. -/
theorem prepare_of_not_converts (h : ¬ ((unitBatch lower).Converts [] feed.orgUnits ∧
    (staffBatch lower).Converts [] feed.staff)) :
    ∃ e, prepare lower units feed = .error (.conversion e) := by
  rw [← exists_read_iff_converts (unitBatch_keepsKey lower),
    ← exists_read_iff_converts (staffBatch_keepsKey lower)] at h
  cases hunits : (unitBatch lower).read feed.orgUnits with
  | error e => exact ⟨e, by simp [prepare, hunits, Except.mapError]⟩
  | ok out =>
      cases hstaff : (staffBatch lower).read feed.staff with
      | error e => exact ⟨e, by simp [prepare, hunits, hstaff, Except.mapError]⟩
      | ok out' => exact absurd ⟨⟨out, hunits⟩, out', hstaff⟩ h

/-! ## What writing raises -/

/-- An exception of another type. -/
def Foreign (e : Raised) : Prop := ∀ errors, e ≠ .directoryIngest errors

theorem upsertUnit_foreign (db : Db) (spec : UnitSpec) : Raises Foreign (upsertUnit plat db spec) := by
  have hparent : Raises Foreign (parentId db.units spec.parentCode) := by
    cases spec.parentCode <;> simp [parentId, Foreign]
  simp [upsertUnit, unitRow, notNull, hparent, Foreign]

theorem upsertStaff_foreign (db : Db) (spec : StaffSpec) :
    Raises Foreign (upsertStaff plat db spec) := by
  have hstatus : Raises Foreign (employmentStatus spec.employmentStatus) := by
    cases spec.employmentStatus <;> simp [employmentStatus, Foreign]
  simp [upsertStaff, staffRow, notNull, hstatus, Foreign]

theorem writeAll_foreign {ω : Type} {write : Db → ω → Except Raised Db}
    (hwrite : ∀ db w, Raises Foreign (write db w)) {ws : List ω} {e : Raised}
    (h : writeAll write ws db = .error (e, db')) : Foreign e := by
  induction ws generalizing db with
  | nil => cases h
  | cons w ws ih =>
      rw [writeAll] at h
      cases hw : write db w with
      | error e' =>
          rw [hw] at h
          cases h
          exact hwrite _ w e hw
      | ok mid =>
          rw [hw] at h
          exact ih h

/-! ## The outcome -/

theorem allOrError_of_ok (hunits : db.UnitsKeyed) (hstaff : db.StaffKeyed)
    (hprepared : Prepared plat.lower db.units c.feed specs staff) {result : IngestResult}
    (h : applyFeed plat c db specs staff = .ok (db', result)) : AllOrError plat c db := by
  have hrun : ingestDirectory plat c db = { db := db', outcome := .ok result } := by
    simp only [ingestDirectory, prepare_eq_ok.2 hprepared, h]
  rw [AllOrError, hrun]
  exact .inl ⟨result, specs, staff, rfl, applied_of_applyFeed hunits hstaff hprepared h⟩

theorem allOrError_of_error (hprepared : Prepared plat.lower db.units c.feed specs staff) {e : Raised}
    (h : applyFeed plat c db specs staff = .error (e, db')) :
    AllOrError plat c db ↔ ¬ Foreign e ∧ db' = db := by
  have hrun : ingestDirectory plat c db = { db := db', outcome := .error e } := by
    simp only [ingestDirectory, prepare_eq_ok.2 hprepared, h]
  rw [AllOrError, hrun]
  simp [Foreign]

/-- A prune without staff leaves the tables as they were exactly when the units were there. -/
theorem placed_eq_iff (hunits : db.UnitsKeyed)
    (hprepared : Prepared plat.lower db.units c.feed specs staff)
    (hplaced : writeAll (upsertUnit plat) (topologicalOrder specs) db = .ok placed) :
    placed = db ↔ UnitsUnchanged db.units specs := by
  have hperm := topologicalOrder_perm hprepared.loopless
  constructor
  · rintro rfl
    obtain ⟨rows, hrows⟩ := unitsWritten hunits hplaced
    exact (hrows.charted hunits hperm hprepared.codes).named
  · intro hsame
    refine unitPass_unchanged hunits (fun spec hspec => ?_) hplaced
    exact hsame spec (hperm.mem_iff.1 hspec)

theorem allOrError_prepared_iff (hunits : db.UnitsKeyed) (hstaff : db.StaffKeyed)
    (hprepared : Prepared plat.lower db.units c.feed specs staff) :
    AllOrError plat c db ↔ (∀ spec ∈ specs, UnitFits plat db.units spec) ∧
      if c.deactivateAbsent ∧ staff = [] then UnitsUnchanged db.units specs
      else StaffTaken plat db.staff staff := by
  rw [← hprepared.exists_unitPass_iff hunits]
  cases hplaced : writeAll (upsertUnit plat) (topologicalOrder specs) db with
  | error out =>
      obtain ⟨e, mid⟩ := out
      have hforeign : Foreign e := writeAll_foreign upsertUnit_foreign hplaced
      have happly : applyFeed plat c db specs staff = .error (e, mid) := by
        simp [applyFeed, hplaced]
      rw [allOrError_of_error hprepared happly]
      simp [hforeign]
  | ok placed =>
      obtain ⟨rows, hrows⟩ := unitsWritten hunits hplaced
      simp only [Except.ok.injEq, exists_eq', true_and]
      split_ifs with hempty
      · obtain ⟨hasked, rfl⟩ := hempty
        have happly : applyFeed plat c db specs [] =
            .error (.directoryIngest [.emptyPrune], placed) := by
          simp [applyFeed, hplaced, staffOrder, writeAll, refuse, hasked]
        rw [allOrError_of_error hprepared happly, placed_eq_iff hunits hprepared hplaced]
        simp [Foreign]
      · rw [← hrows.same.staff, ← hprepared.exists_staffPass_iff (hrows.same.keyed hstaff)]
        cases hwritten : writeAll (upsertStaff plat) (staffOrder placed.staff staff) placed with
        | error out =>
            obtain ⟨e, mid⟩ := out
            have hforeign : Foreign e := writeAll_foreign upsertStaff_foreign hwritten
            have happly : applyFeed plat c db specs staff = .error (e, mid) := by
              simp [applyFeed, hplaced, hwritten]
            rw [allOrError_of_error hprepared happly]
            simp [hforeign]
        | ok written =>
            have happly := applyFeed_eq_ok.2 ⟨placed, written, hplaced, hwritten, hempty, rfl, rfl⟩
            simp only [allOrError_of_ok hunits hstaff hprepared happly, true_iff]
            exact ⟨written, rfl⟩

/-- An ingest applies the whole feed or raises its errors before any row is touched exactly when
every value converts and the database takes every row the checks let through. -/
theorem allOrError_iff_ingestible (plat : Platform) (c : Call) (db : Db) (hunits : db.UnitsKeyed)
    (hstaff : db.StaffKeyed) : AllOrError plat c db ↔ Ingestible plat c db := by
  by_cases hconverts : (unitBatch plat.lower).Converts [] c.feed.orgUnits ∧
      (staffBatch plat.lower).Converts [] c.feed.staff
  · rcases @prepare_of_converts plat.lower db.units c.feed hconverts.1 hconverts.2 with
      ⟨errors, herrors⟩ | ⟨specs, staff, hread⟩
    · have hrun : ingestDirectory plat c db =
          { db := db, outcome := .error (.directoryIngest errors) } := by
        simp only [ingestDirectory, herrors]
      constructor
      · intro _
        refine ⟨hconverts.1, hconverts.2, fun specs staff hprepared => ?_⟩
        exact nomatch herrors.symm.trans (prepare_eq_ok.2 hprepared)
      · intro _
        rw [AllOrError, hrun]
        exact .inr ⟨errors, rfl, rfl⟩
    · have hprepared := prepare_eq_ok.1 hread
      rw [allOrError_prepared_iff hunits hstaff hprepared]
      constructor
      · intro hfits
        refine ⟨hconverts.1, hconverts.2, fun specs' staff' hprepared' => ?_⟩
        have hsame := Except.ok.inj (hread.symm.trans (prepare_eq_ok.2 hprepared'))
        obtain ⟨rfl, rfl⟩ := Prod.mk.inj hsame
        exact hfits
      · exact fun h => h.fits specs staff hprepared
  · obtain ⟨e, he⟩ := @prepare_of_not_converts plat.lower db.units c.feed hconverts
    have hrun : ingestDirectory plat c db = { db := db, outcome := .error (.conversion e) } := by
      simp only [ingestDirectory, he]
    refine iff_of_false ?_ fun h => hconverts ⟨h.unitsConvert, h.staffConvert⟩
    rw [AllOrError, hrun]
    simp

/-! ## A bureau -/

theorem bureauDb_staffKeyed : bureauDb.StaffKeyed := ⟨by decide, by decide⟩

/-- A new section is taken. -/
theorem new_section_ingestible :
    bureauDb.UnitsKeyed ∧ bureauDb.StaffKeyed ∧
      Ingestible plain (unitFeed "C" "Section C" "section" "B") bureauDb := by
  refine ⟨bureauDb_keyed, bureauDb_staffKeyed, ?_⟩
  refine (allOrError_iff_ingestible plain _ bureauDb bureauDb_keyed bureauDb_staffKeyed).1 ?_
  obtain ⟨result, hok, -⟩ := exists_eq_ok
    (x := (ingestDirectory plain (unitFeed "C" "Section C" "section" "B") bureauDb).outcome)
    (fun _ => true) (by decide +kernel)
  obtain ⟨specs, staff, hprepared, happly⟩ := ingestDirectory_eq_ok hok
  exact allOrError_of_ok bureauDb_keyed bureauDb_staffKeyed hprepared happly

/-- A sort order that is not a number. -/
def badSortOrder : Call where
  feed :=
    { orgUnits := [{ code := .str "C", name := .str "Section C", kind := .str "section"
                     sortOrder := .str "first" }] }

/-- A new section, and a prune without a staff feed. -/
def emptyPruneCall : Call :=
  { unitFeed "C" "Section C" "section" "B" with deactivateAbsent := true }

/-- The error of a conversion escapes. -/
def conversionEscapes : Except Raised IngestResult → Bool
  | .error (.conversion _) => true
  | _ => false

/-- A sort order that is a word escapes as the conversion's error, and the prune is refused when the
section has been written. -/
theorem not_allOrError :
    ¬ AllOrError plain badSortOrder bureauDb ∧ ¬ AllOrError plain emptyPruneCall bureauDb := by
  constructor
  · have hraised : conversionEscapes (ingestDirectory plain badSortOrder bureauDb).outcome = true := by
      decide +kernel
    rintro (⟨result, specs, staff, hok, -⟩ | ⟨errors, herrors, -⟩)
    · rw [hok] at hraised
      exact Bool.false_ne_true hraised
    · rw [herrors] at hraised
      exact Bool.false_ne_true hraised
  · have hraised : (ingestDirectory plain emptyPruneCall bureauDb).outcome.toOption.isNone := by
      decide +kernel
    have hwritten : (ingestDirectory plain emptyPruneCall bureauDb).db ≠ bureauDb := by
      decide +kernel
    rintro (⟨result, specs, staff, hok, -⟩ | ⟨errors, -, hsame⟩)
    · rw [hok] at hraised
      cases hraised
    · exact hwritten hsame

end OfficeConnect.Ingest
