import OfficeConnect.Ingest.Rerun

/-!
# The order of the rows of a feed

The checks do not depend on the order of the rows, the units are placed in an order of their own and
the staff rows that exist are written by id, so a permuted feed is taken when the feed is and leaves
the same tables, but for the ids that new staff rows get.
-/

namespace OfficeConnect.Ingest

open Lib

variable {plat : Platform} {c other : Call} {db db' placed mid written : Db}
  {lower : String → String} {units : List OrgUnit} {specs specs' : List UnitSpec}
  {staff staff' : List StaffSpec} {feed feed' : Feed} {result : IngestResult}

/-! ## The checks on a permuted feed -/

theorem specOf_perm (hcodes : (specs.map (·.code)).Nodup) (hperm : specs'.Perm specs) :
    specOf specs' = specOf specs := by
  funext code
  cases hspec : specOf specs code with
  | none =>
      rw [specOf_eq_none] at hspec ⊢
      rwa [(hperm.map UnitSpec.code).mem_iff]
  | some spec =>
      have hcode : spec.code = code := by simpa using List.find?_some hspec
      rw [← hcode]
      exact specOf_of_mem ((hperm.map UnitSpec.code).nodup_iff.2 hcodes)
        (hperm.mem_iff.2 (List.mem_of_find?_eq_some hspec))

theorem loops_congr (h : specOf specs' = specOf specs) (depth : ℕ) (seen : List String)
    (code : Option String) : loops specs' depth seen code = loops specs depth seen code := by
  induction depth generalizing seen code with
  | zero =>
      cases code with
      | none => simp only [loops]
      | some code => simp only [loops, h]
  | succ depth ih =>
      cases code with
      | none => simp only [loops]
      | some code => simp only [loops, h, ih]

theorem detectOrgCycles_eq_nil : detectOrgCycles specs = [] ↔
    ∀ spec ∈ specs, loops specs (maxTreeDepth + 1) [] (some spec.code) = false := by
  rw [detectOrgCycles, List.map_eq_nil_iff, List.filter_eq_nil_iff]
  simp only [Bool.not_eq_true]

/-- A permuted feed reads as permuted specs and passes the same checks. -/
theorem Prepared.of_perm (h : Prepared lower units feed specs staff)
    (hunits : feed'.orgUnits.Perm feed.orgUnits) (hstaff : feed'.staff.Perm feed.staff) :
    ∃ specs' staff', Prepared lower units feed' specs' staff' ∧ specs'.Perm specs ∧
      staff'.Perm staff := by
  obtain ⟨specs', hunitsRead, hspecs⟩ := List.perm_comp_forall₂ hunits h.unitsRead
  obtain ⟨staff', hstaffRead, hstaffSpecs⟩ := List.perm_comp_forall₂ hstaff h.staffRead
  have hspecOf := specOf_perm h.codes hspecs
  have hcodes := hspecs.map UnitSpec.code
  refine ⟨specs', staff', ⟨hunitsRead, hcodes.nodup_iff.2 h.codes, fun spec hspec => ?_, ?_, ?_,
    hstaffRead, (hstaffSpecs.map StaffSpec.employeeNo).nodup_iff.2 h.numbers, fun spec hspec => ?_,
    (hstaffSpecs.filterMap _).nodup_iff.2 h.emails, ?_⟩, hspecs, hstaffSpecs⟩
  · exact h.complete spec (hspecs.mem_iff.1 hspec)
  · refine checkParents_eq_nil.2 fun spec hspec p hp => ?_
    rw [hcodes.mem_iff]
    exact h.resolves (hspecs.mem_iff.1 hspec) hp
  · refine detectOrgCycles_eq_nil.2 fun spec hspec => ?_
    rw [loops_congr hspecOf]
    exact detectOrgCycles_eq_nil.1 h.ends spec (hspecs.mem_iff.1 hspec)
  · exact h.names spec (hstaffSpecs.mem_iff.1 hspec)
  · have hfields := List.flatMap_eq_nil_iff.1 h.orgFields
    refine List.flatMap_eq_nil_iff.2 fun spec hspec => ?_
    rw [← hfields spec (hstaffSpecs.mem_iff.1 hspec)]
    simp only [checkOrgField, kindByCode, hspecOf]

/-! ## The orders of the writes -/

theorem isReady_perm {remaining remaining' : List UnitSpec} (h : remaining'.Perm remaining) :
    isReady remaining' = isReady remaining := by
  funext spec
  unfold isReady
  cases spec.parentCode with
  | none => rfl
  | some p =>
      rw [Option.all_some, Option.all_some, Bool.eq_iff_iff, Option.isNone_iff_eq_none,
        Option.isNone_iff_eq_none, specOf_eq_none, specOf_eq_none, (h.map UnitSpec.code).mem_iff]

theorem topologicalRounds_congr {remaining remaining' : List UnitSpec} (rounds : ℕ)
    (hcodes : (remaining.map (·.code)).Nodup) (h : remaining'.Perm remaining) :
    topologicalRounds rounds remaining' = topologicalRounds rounds remaining := by
  induction rounds generalizing remaining remaining' with
  | zero => rfl
  | succ rounds ih =>
      have hsub : ∀ p : UnitSpec → Bool, ((remaining.filter p).map (·.code)).Nodup := fun p =>
        hcodes.sublist (List.filter_sublist.map _)
      rw [topologicalRounds, topologicalRounds, isReady_perm h, ih (hsub _) (h.filter _)]
      congr 1
      refine List.Perm.eq_of_pairwise ?_ (List.pairwise_insertionSort ..)
        (List.pairwise_insertionSort ..) ?_
      · intro a b ha hb hab hba
        have hmemA := h.mem_iff.1 (List.mem_of_mem_filter ((List.mem_insertionSort _).1 ha))
        have hmemB := List.mem_of_mem_filter ((List.mem_insertionSort _).1 hb)
        exact List.inj_on_of_nodup_map hcodes hmemA hmemB (String.le_antisymm hab hba)
      · exact (List.perm_insertionSort ..).trans ((h.filter _).trans (List.perm_insertionSort ..).symm)

theorem topologicalOrder_congr (hcodes : (specs.map (·.code)).Nodup) (h : specs'.Perm specs) :
    topologicalOrder specs' = topologicalOrder specs := by
  rw [topologicalOrder, topologicalOrder, h.length_eq]
  exact topologicalRounds_congr _ hcodes h

theorem sortedUpdates_congr {table : List Staff} (hids : (table.map Staff.id).Nodup)
    (hnumbers : (staff.map (·.employeeNo)).Nodup) (h : staff'.Perm staff) :
    sortedUpdates table staff' = sortedUpdates table staff := by
  have hnumbers' := (h.map StaffSpec.employeeNo).nodup_iff.2 hnumbers
  refine List.Perm.eq_of_pairwise (fun a b _ _ hab hba => absurd hab hba.asymm)
    (sortedUpdates_lt hids hnumbers') (sortedUpdates_lt hids hnumbers) ?_
  exact sortedUpdates_perm.trans ((h.filterMap _).trans sortedUpdates_perm.symm)

theorem writeAll_append {ω : Type} {write : Db → ω → Except Raised Db} {ws ws' : List ω} :
    writeAll write (ws ++ ws') db = .ok db' ↔
      ∃ mid, writeAll write ws db = .ok mid ∧ writeAll write ws' mid = .ok db' := by
  induction ws generalizing db with
  | nil => simp [writeAll]
  | cons w ws ih =>
      simp only [List.cons_append, writeAll_cons, ih]
      constructor
      · rintro ⟨next, hw, mid, hmid, hrest⟩
        exact ⟨mid, ⟨next, hw, hmid⟩, hrest⟩
      · rintro ⟨mid, ⟨next, hw, hmid⟩, hrest⟩
        exact ⟨next, hw, mid, hmid, hrest⟩

/-! ## Updates and inserts -/

/-- Updates keep the rows' ids and their order. -/
theorem updatePass_ids
    (hold : ∀ spec ∈ staff, (staffOf db.staff spec.employeeNo).isSome)
    (hkeyed : db.StaffKeyed) (h : writeAll (upsertStaff plat) staff db = .ok db') :
    db'.staff.map Staff.id = db.staff.map Staff.id ∧ db'.nextStaffId = db.nextStaffId := by
  induction staff generalizing db with
  | nil =>
      cases h
      exact ⟨rfl, rfl⟩
  | cons spec staff ih =>
      obtain ⟨hhead, hrest⟩ := List.forall_mem_cons.1 hold
      obtain ⟨mid, hmid, hpass⟩ := writeAll_cons.1 h
      obtain ⟨row, hrow, -, -, -, rfl⟩ := upsertStaff_eq_ok.1 hmid
      obtain ⟨hwritten, hid, -⟩ := staffRow_eq_ok.1 hrow
      obtain ⟨hup, hkeyed'⟩ := hkeyed.put (hwritten.employeeNo ▸ hid)
      obtain ⟨old, holdRow⟩ := Option.isSome_iff_exists.1 hhead
      have hput : db.putStaff row = { db with staff := overwrite Staff.id db.staff row } := by
        rw [Db.putStaff, hwritten.employeeNo, holdRow]
      have hstill : ∀ s ∈ staff, (staffOf (db.putStaff row).staff s.employeeNo).isSome := by
        intro s hs
        obtain ⟨x, hx⟩ := Option.isSome_iff_exists.1 (hrest s hs)
        have hkept : (staffOf (db.putStaff row).staff s.employeeNo).map Staff.id = some x.id :=
          hup.lastWith_id hkeyed.nodup hx
        rw [← Option.isSome_map, hkept]
        rfl
      obtain ⟨hids, hnext⟩ := ih hstill hkeyed' hpass
      rw [hids, hnext, hput]
      exact ⟨map_id_overwrite, rfl⟩

/-- Inserts append a row for each spec, under the next ids. -/
theorem insertPass (hnew : ∀ spec ∈ staff, staffOf db.staff spec.employeeNo = none)
    (hnumbers : (staff.map (·.employeeNo)).Nodup)
    (h : writeAll (upsertStaff plat) staff db = .ok db') :
    ∃ new, db' = { db with staff := db.staff ++ new, nextStaffId := db.nextStaffId + staff.length } ∧
      List.Forall₂ (fun spec row => StaffWritten db.units spec row ∧ row.deletedBy = none) staff
        new := by
  induction staff generalizing db with
  | nil =>
      cases h
      exact ⟨[], by simp, .nil⟩
  | cons spec staff ih =>
      obtain ⟨hnone, hrest⟩ := List.forall_mem_cons.1 hnew
      rw [List.map_cons, List.nodup_cons] at hnumbers
      obtain ⟨mid, hmid, hpass⟩ := writeAll_cons.1 h
      obtain ⟨row, hrow, -, -, -, rfl⟩ := upsertStaff_eq_ok.1 hmid
      obtain ⟨hwritten, -, hby⟩ := staffRow_eq_ok.1 hrow
      have hput : db.putStaff row =
          { db with staff := db.staff ++ [row], nextStaffId := db.nextStaffId + 1 } := by
        rw [Db.putStaff, hwritten.employeeNo, hnone]
      rw [hput] at hpass
      have hstill : ∀ s ∈ staff, staffOf (db.staff ++ [row]) s.employeeNo = none := by
        intro s hs
        have hne : row.employeeNo ≠ s.employeeNo := fun heq =>
          hnumbers.1 (hwritten.employeeNo ▸ heq ▸ List.mem_map_of_mem hs)
        rw [staffOf, lastWith_concat, if_neg hne]
        exact hrest s hs
      obtain ⟨new, rfl, hrows⟩ := ih hstill hnumbers.2 hpass
      refine ⟨row :: new, ?_, .cons ⟨hwritten, by rw [hby, hnone]; rfl⟩ hrows⟩
      simp only [List.append_assoc, List.singleton_append, List.length_cons, Db.mk.injEq, true_and]
      omega

/-! ## The permuted ingest -/

def eraseId (s : Staff) : Staff := { s with id := 0 }

/-- The same tables, but for the ids of the staff rows that were added to the ones before. -/
structure SameButNewIds (before db db' : Db) : Prop where
  units : db'.units = db.units
  users : db'.users = db.users
  nextUnitId : db'.nextUnitId = db.nextUnitId
  nextStaffId : db'.nextStaffId = db.nextStaffId
  staff : ∃ kept new new', kept.map Staff.id = before.staff.map Staff.id ∧
    db.staff = kept ++ new ∧ db'.staff = kept ++ new' ∧ (new'.map eraseId).Perm (new.map eraseId)

/-- The same report, in the order of the rows. -/
structure SameReport (r r' : IngestResult) : Prop where
  orgUnitsCreated : r'.orgUnitsCreated = r.orgUnitsCreated
  orgUnitsUpdated : r'.orgUnitsUpdated = r.orgUnitsUpdated
  orgUnitsRestored : r'.orgUnitsRestored = r.orgUnitsRestored
  staffCreated : r'.staffCreated.Perm r.staffCreated
  staffUpdated : r'.staffUpdated.Perm r.staffUpdated
  staffRestored : r'.staffRestored.Perm r.staffRestored
  staffDeactivated : r'.staffDeactivated = r.staffDeactivated
  deactivatedUserIds : r'.deactivatedUserIds = r.deactivatedUserIds

theorem StaffWritten.eraseId {spec : StaffSpec} {row : Staff} (h : StaffWritten units spec row) :
    StaffWritten units spec (eraseId row) :=
  ⟨h.employeeNo, h.givenName, h.middleName, h.surname, h.fullName, h.email, h.positionTitle,
    h.plantillaItemNo, h.employmentStatus, h.divisionId, h.sectionId, h.live⟩

/-- What is inserted under permuted specs is permuted, but for the ids. -/
theorem eraseId_perm {new new' : List Staff} {db db' : Db} (hunits : db'.units = db.units)
    (h : List.Forall₂ (fun spec row => StaffWritten db.units spec row ∧ row.deletedBy = none) staff
      new)
    (h' : List.Forall₂ (fun spec row => StaffWritten db'.units spec row ∧ row.deletedBy = none)
      staff' new') (hperm : staff'.Perm staff) : (new'.map eraseId).Perm (new.map eraseId) := by
  obtain ⟨moved, hmoved, hnew⟩ := List.perm_comp_forall₂ hperm h
  have hsame : new'.map eraseId = moved.map eraseId := by
    clear hnew h hperm
    induction hmoved generalizing new' with
    | nil =>
        cases h'
        rfl
    | cons hrow _ ih =>
        obtain - | ⟨hrow', hrest'⟩ := h'
        rw [List.map_cons, List.map_cons, ih hrest']
        congr 1
        rw [hunits] at hrow'
        exact hrow.1.eraseId.eq hrow'.1.eraseId rfl (hrow'.2.trans hrow.2.symm)
  rw [hsame]
  exact hnew.map eraseId

theorem absentStaff_perm {table : List Staff}
    (hasked : other.deactivateAbsent = c.deactivateAbsent) (hperm : staff'.Perm staff) :
    absentStaff other table staff' = absentStaff c table staff := by
  unfold absentStaff
  rw [hasked]
  refine List.filter_congr fun s _ => ?_
  rw [hperm.any_eq]

/-- The staff flush in two halves: the rows that exist, then a new row for each spec without one. -/
theorem staffFlush_halves (hkeyed : placed.StaffKeyed)
    (hnumbers : (staff.map (·.employeeNo)).Nodup)
    (h : writeAll (upsertStaff plat) (staffOrder placed.staff staff) placed = .ok written) :
    ∃ mid new, writeAll (upsertStaff plat) ((sortedUpdates placed.staff staff).map (·.2)) placed =
        .ok mid ∧ mid.staff.map Staff.id = placed.staff.map Staff.id ∧
      written = { mid with
        staff := mid.staff ++ new
        nextStaffId := mid.nextStaffId + (inserts placed.staff staff).length } ∧
      List.Forall₂ (fun spec row => StaffWritten mid.units spec row ∧ row.deletedBy = none)
        (inserts placed.staff staff) new := by
  rw [staffOrder_eq] at h
  obtain ⟨mid, hmid, hrest⟩ := writeAll_append.1 h
  have hrows : ∀ spec ∈ (sortedUpdates placed.staff staff).map (·.2),
      (staffOf placed.staff spec.employeeNo).isSome := by
    intro spec hspec
    obtain ⟨a, ha, rfl⟩ := List.mem_map.1 hspec
    exact Option.isSome_iff_exists.2 ⟨a.1, (mem_updates.1 (sortedUpdates_perm.mem_iff.1 ha)).2⟩
  obtain ⟨rows, hpassed⟩ := staffPassed hkeyed hmid
  have hnone : ∀ spec ∈ inserts placed.staff staff, staffOf mid.staff spec.employeeNo = none := by
    intro spec hspec
    rw [inserts, List.mem_filter, Option.isNone_iff_eq_none] at hspec
    have hsame : staffOf mid.staff spec.employeeNo = staffOf placed.staff spec.employeeNo := by
      refine hpassed.upserted.lastWith_of_not_mem hkeyed.nodup fun row hrow heq => ?_
      obtain ⟨d, hd, hwritten⟩ := exists_left_of_mem hpassed.written hrow
      have hsome := hrows d hd
      rw [← hwritten.employeeNo, heq, hspec.2] at hsome
      cases hsome
    rw [hsame, hspec.2]
  obtain ⟨new, hwritten, hnew⟩ :=
    insertPass hnone (hnumbers.sublist (List.filter_sublist.map _)) hrest
  exact ⟨mid, new, hmid, (updatePass_ids hrows hkeyed hmid).1, hwritten, hnew⟩

theorem resultOf_perm (hcodes : (specs.map (·.code)).Nodup) (hspecs : specs'.Perm specs)
    (hstaff : staff'.Perm staff) (absent : List Staff) :
    SameReport (resultOf db specs staff absent) (resultOf db specs' staff' absent) := by
  have horder := topologicalOrder_congr hcodes hspecs
  have hnumbers := hstaff.map StaffSpec.employeeNo
  refine ⟨?_, ?_, ?_, hnumbers.filter _, hnumbers.filter _, hnumbers.filter _, rfl, rfl⟩
  · simp only [resultOf, horder]
  · simp only [resultOf, horder]
  · simp only [resultOf, horder]

/-- No row that was inserted is pruned. -/
theorem softDelete_new (hflushed : StaffFlushed placed staff written) {new : List Staff}
    (hkept : ∃ kept, written.staff = kept ++ new)
    (hnumbers : (written.staff.map Staff.employeeNo).Nodup) {inserted : List StaffSpec}
    (hsub : ∀ spec ∈ inserted, spec ∈ staff)
    (hnew : List.Forall₂ (fun spec row => StaffWritten mid.units spec row ∧ row.deletedBy = none)
      inserted new) :
    new.map (softDelete (absentStaff c placed.staff staff) c.now c.actorId) = new := by
  obtain ⟨kept, hkept⟩ := hkept
  refine (List.map_congr_left fun row hrow => ?_).trans (List.map_id new)
  obtain ⟨spec, hspec, hwritten, -⟩ := exists_left_of_mem hnew hrow
  have hmem : row ∈ written.staff := hkept ▸ List.mem_append_right kept hrow
  have hlast : staffOf written.staff row.employeeNo = some row := lastWith_of_mem hnumbers hmem
  exact hflushed.softDelete_row (hsub spec hspec) (hwritten.employeeNo ▸ hlast)

/-- A permuted feed is applied as the feed is. -/
theorem applyFeed_perm (hunits : db.UnitsKeyed) (hstaff : db.StaffKeyed)
    (hnumbers : (db.staff.map Staff.employeeNo).Nodup)
    (hprepared : Prepared plat.lower db.units c.feed specs staff)
    (hprepared' : Prepared plat.lower db.units other.feed specs' staff')
    (hspecs : specs'.Perm specs) (hperm : staff'.Perm staff)
    (hasked : other.deactivateAbsent = c.deactivateAbsent) (hnow : other.now = c.now)
    (hactor : other.actorId = c.actorId) (h : applyFeed plat c db specs staff = .ok (db', result)) :
    ∃ db'' result', applyFeed plat other db specs' staff' = .ok (db'', result') ∧
      SameButNewIds db db' db'' ∧ SameReport result result' := by
  obtain ⟨hfits, htaken, hprune⟩ := (exists_applyFeed_iff hunits hstaff hprepared).1 ⟨_, h⟩
  have htaken' : StaffTaken plat db.staff staff' := by
    intro spec hspec
    obtain ⟨hspecFits, haddress⟩ := htaken spec (hperm.mem_iff.1 hspec)
    refine ⟨hspecFits, fun s hs hlive hsome heq => ?_⟩
    simp only [hperm.mem_iff]
    exact haddress s hs hlive hsome heq
  have hprune' : ¬ (other.deactivateAbsent ∧ staff' = []) := by
    rintro ⟨hother, rfl⟩
    exact hprune ⟨hasked ▸ hother, List.Perm.nil_eq hperm ▸ rfl⟩
  obtain ⟨⟨db'', result'⟩, h'⟩ := (exists_applyFeed_iff hunits hstaff hprepared').2
    ⟨fun spec hspec => hfits spec (hspecs.mem_iff.1 hspec), htaken', hprune'⟩
  refine ⟨db'', result', h', ?_⟩
  obtain ⟨placed, written, hplaced, hwritten, -, rfl, rfl⟩ := applyFeed_eq_ok.1 h
  obtain ⟨placed', written', hplaced', hwritten', -, rfl, rfl⟩ := applyFeed_eq_ok.1 h'
  rw [topologicalOrder_congr hprepared.codes hspecs] at hplaced'
  obtain rfl := Except.ok.inj (hplaced.symm.trans hplaced')
  obtain ⟨rows, hrows⟩ := unitsWritten hunits hplaced
  have hkeyed := hrows.same.keyed hstaff
  rw [← hrows.same.staff] at hnumbers
  have hflushed := staffFlushed hkeyed hprepared.numbers hwritten
  have hflushed' := staffFlushed hkeyed hprepared'.numbers hwritten'
  obtain ⟨mid, new, hmid, hids, hhalves, hnew⟩ :=
    staffFlush_halves hkeyed hprepared.numbers hwritten
  obtain ⟨mid', new', hmid', -, hhalves', hnew'⟩ :=
    staffFlush_halves hkeyed hprepared'.numbers hwritten'
  rw [sortedUpdates_congr hkeyed.nodup hprepared.numbers hperm] at hmid'
  obtain rfl := Except.ok.inj (hmid.symm.trans hmid')
  have habsent : absentStaff other placed.staff staff' = absentStaff c placed.staff staff :=
    absentStaff_perm hasked hperm
  have hinserts : (inserts placed.staff staff').Perm (inserts placed.staff staff) := hperm.filter _
  have hsub : ∀ spec ∈ inserts placed.staff staff, spec ∈ staff := fun _ hs =>
    List.mem_of_mem_filter hs
  have hsub' : ∀ spec ∈ inserts placed.staff staff', spec ∈ staff' := fun _ hs =>
    List.mem_of_mem_filter hs
  have hkeep : new.map (softDelete (absentStaff c placed.staff staff) c.now c.actorId) = new :=
    softDelete_new hflushed ⟨mid.staff, by rw [hhalves]⟩ (hflushed.numbers hnumbers) hsub hnew
  have hkeep' : new'.map (softDelete (absentStaff c placed.staff staff) c.now c.actorId) = new' := by
    have := @softDelete_new other _ _ _ _ hflushed' new' ⟨mid.staff, by rw [hhalves']⟩
      (hflushed'.numbers hnumbers) _ hsub' hnew'
    rwa [habsent, hnow, hactor] at this
  refine ⟨⟨?_, ?_, ?_, ?_, ?_⟩, ?_⟩
  · simp only [afterPrune, hhalves, hhalves']
  · simp only [afterPrune, hhalves, hhalves']
  · simp only [afterPrune, hhalves, hhalves']
  · simp only [afterPrune, hhalves, hhalves', hinserts.length_eq]
  · refine ⟨mid.staff.map (softDelete (absentStaff c placed.staff staff) c.now c.actorId), new, new',
      ?_, ?_, ?_, eraseId_perm rfl hnew hnew' hinserts⟩
    · rw [map_id_softDelete, hids, hrows.same.staff]
    · simp only [afterPrune, hhalves, List.map_append, hkeep]
    · simp only [afterPrune, hhalves', habsent, hnow, hactor, List.map_append, hkeep']
  · rw [habsent]
    exact resultOf_perm hprepared.codes hspecs hperm _

/-- Ingesting an accepted feed again changes nothing, and any order of its rows is accepted too and
gives the same tables but for the ids of new staff rows. -/
theorem ingest_idempotent_orderless (plat : Platform) (c : Call) (db : Db) (hunits : db.UnitsKeyed)
    (hstaff : db.StaffKeyed) (hcodes : (db.units.map OrgUnit.code).Nodup)
    (hnumbers : (db.staff.map Staff.employeeNo).Nodup) {result : IngestResult}
    (hok : (ingestDirectory plat c db).outcome = .ok result) :
    (∀ again : Call, again.feed = c.feed → again.deactivateAbsent = c.deactivateAbsent →
      ∃ result', (ingestDirectory plat again (ingestDirectory plat c db).db).outcome = .ok result' ∧
        (ingestDirectory plat again (ingestDirectory plat c db).db).db =
          (ingestDirectory plat c db).db) ∧
    ∀ other : Call, other.feed.orgUnits.Perm c.feed.orgUnits → other.feed.staff.Perm c.feed.staff →
      other.deactivateAbsent = c.deactivateAbsent → other.now = c.now → other.actorId = c.actorId →
      ∃ result', (ingestDirectory plat other db).outcome = .ok result' ∧
        SameButNewIds db (ingestDirectory plat c db).db (ingestDirectory plat other db).db ∧
        SameReport result result' := by
  obtain ⟨specs, staff, hprepared, happly⟩ := ingestDirectory_eq_ok hok
  constructor
  · intro again hfeed hasked
    have hsettled := settled_of_applyFeed hunits hstaff hcodes hnumbers hprepared happly
    obtain ⟨result', hrun⟩ := hsettled.reingest hfeed hasked
    rw [hrun]
    exact ⟨result', rfl, rfl⟩
  · intro other hunitsPerm hstaffPerm hasked hnow hactor
    obtain ⟨specs', staff', hprepared', hspecs, hperm⟩ := hprepared.of_perm hunitsPerm hstaffPerm
    obtain ⟨db'', result', happly', htables, hreport⟩ := applyFeed_perm hunits hstaff hnumbers
      hprepared hprepared' hspecs hperm hasked hnow hactor happly
    have hrun : ingestDirectory plat other db = { db := db'', outcome := .ok result' } := by
      simp only [ingestDirectory, prepare_eq_ok.2 hprepared', happly']
    rw [hrun]
    exact ⟨result', rfl, htables, hreport⟩

/-! ## A roster -/

/-- The bureau with two people. -/
def rosterDb : Db :=
  { bureauDb with
    staff :=
      [{ id := 1, employeeNo := "E1", givenName := "Ana", middleName := none, surname := "Reyes"
         fullName := "Ana Reyes", email := some "ana@example.com", positionTitle := none
         plantillaItemNo := none, employmentStatus := none, divisionId := some 2
         sectionId := none },
       { id := 2, employeeNo := "E9", givenName := "Ben", middleName := none, surname := "Cruz"
         fullName := "Ben Cruz", email := none, positionTitle := none, plantillaItemNo := none
         employmentStatus := none, divisionId := none, sectionId := none }]
    nextStaffId := 3 }

/-- A new section, two new people who work there, and a prune. -/
def rosterCall : Call where
  deactivateAbsent := true
  feed :=
    { orgUnits :=
        [{ code := .str "C", name := .str "Section C", kind := .str "section"
           parentCode := .str "B" },
         { code := .str "B", name := .str "Division B", kind := .str "division" }]
      staff :=
        [{ employeeNo := .str "E3", givenName := .str "Caro", surname := .str "Diaz"
           sectionCode := .str "C" },
         { employeeNo := .str "E2", givenName := .str "Dan", surname := .str "Lim"
           sectionCode := .str "C" },
         { employeeNo := .str "E1", givenName := .str "Ana", surname := .str "Reyes"
           divisionCode := .str "B" }] }

/-- The same feed from the bottom up. -/
def reversedRoster : Call :=
  { rosterCall with
    feed :=
      { orgUnits := rosterCall.feed.orgUnits.reverse
        staff := rosterCall.feed.staff.reverse } }

theorem roster_again_reversed :
    (∃ result, (ingestDirectory plain rosterCall (ingestDirectory plain rosterCall rosterDb).db).outcome
        = .ok result ∧
      (ingestDirectory plain rosterCall (ingestDirectory plain rosterCall rosterDb).db).db =
        (ingestDirectory plain rosterCall rosterDb).db) ∧
    ∃ result, (ingestDirectory plain reversedRoster rosterDb).outcome = .ok result ∧
      SameButNewIds rosterDb (ingestDirectory plain rosterCall rosterDb).db
        (ingestDirectory plain reversedRoster rosterDb).db := by
  obtain ⟨result, hok, -⟩ := exists_eq_ok
    (x := (ingestDirectory plain rosterCall rosterDb).outcome) (fun _ => true) (by decide +kernel)
  have hkeyed : rosterDb.UnitsKeyed := ⟨by decide, by decide⟩
  have hstaff : rosterDb.StaffKeyed := ⟨by decide, by decide⟩
  obtain ⟨hagain, hother⟩ := ingest_idempotent_orderless plain rosterCall rosterDb hkeyed hstaff
    (by decide) (by decide) hok
  refine ⟨hagain rosterCall rfl rfl, ?_⟩
  obtain ⟨result', hok', htables, -⟩ := hother reversedRoster (List.reverse_perm _)
    (List.reverse_perm _) rfl rfl rfl
  exact ⟨result', hok', htables⟩

end OfficeConnect.Ingest
