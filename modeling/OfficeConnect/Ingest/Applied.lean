import OfficeConnect.Ingest.Fit
import OfficeConnect.Ingest.Forest

/-!
# What an accepted feed leaves

The whole feed is in the tables: every spec is the row of its key, and after a prune nobody else is
live.  A row that is already what its spec says is written over with itself.
-/

namespace OfficeConnect.Ingest

open Lib

variable {plat : Platform} {c : Call} {db db' placed written : Db} {specs : List UnitSpec}
  {staff : List StaffSpec} {rows : List Staff} {s : Staff} {no : String}

/-! ## The prune -/

theorem mem_absentStaff {table : List Staff} : s ∈ absentStaff c table staff ↔
    staffOf table s.employeeNo = some s ∧ c.deactivateAbsent ∧ s.deletedAt = none ∧
      s.employeeNo ∉ staff.map (·.employeeNo) := by
  simp only [absentStaff, List.mem_filter, List.mem_filterMap, List.mem_eraseDups, List.mem_map,
    List.any_eq_true, decide_eq_true_eq]
  constructor
  · rintro ⟨⟨no, -, hrow⟩, hasked, hlive, hnone⟩
    obtain rfl := (mem_of_lastWith hrow).2
    exact ⟨hrow, hasked, hlive, hnone⟩
  · rintro ⟨hrow, hasked, hlive, hnone⟩
    exact ⟨⟨s.employeeNo, ⟨s, (mem_of_lastWith hrow).1, rfl⟩, hrow⟩, hasked, hlive, hnone⟩

theorem softDelete_employeeNo (absent : List Staff) (now : Time) (actorId : Option ℕ) (s : Staff) :
    (softDelete absent now actorId s).employeeNo = s.employeeNo := by
  unfold softDelete
  split_ifs <;> rfl

theorem map_id_softDelete (absent table : List Staff) (now : Time) (actorId : Option ℕ) :
    (table.map (softDelete absent now actorId)).map Staff.id = table.map Staff.id := by
  rw [List.map_map]
  refine List.map_congr_left fun s _ => ?_
  simp only [Function.comp, softDelete]
  split_ifs <;> rfl

theorem softDelete_of_not_mem {absent : List Staff} {now : Time} {actorId : Option ℕ}
    (h : ∀ a ∈ absent, a.id ≠ s.id) : softDelete absent now actorId s = s := by
  unfold softDelete
  rw [if_neg]
  simpa using h

theorem softDelete_of_mem {absent : List Staff} {now : Time} {actorId : Option ℕ} (h : s ∈ absent) :
    (softDelete absent now actorId s).deletedAt = some now := by
  unfold softDelete
  rw [if_pos (List.any_eq_true.2 ⟨s, h, by simp⟩)]

theorem softDelete_deletedAt {absent : List Staff} {now : Time} {actorId : Option ℕ}
    (h : s.deletedAt ≠ none) : (softDelete absent now actorId s).deletedAt ≠ none := by
  unfold softDelete
  split_ifs
  · exact Option.some_ne_none now
  · exact h

/-! ## The feed in the tables -/

/-- The whole feed is in the tables. -/
structure Applied (lower : String → String) (c : Call) (specs : List UnitSpec)
    (staff : List StaffSpec) (db' : Db) : Prop where
  unitsRead : List.Forall₂ (unitBatch lower).Reads c.feed.orgUnits specs
  staffRead : List.Forall₂ (staffBatch lower).Reads c.feed.staff staff
  unitRows : ∀ spec ∈ specs, ∃ row, unitOf db'.units spec.code = some row ∧
    Written db'.units spec row
  staffRows : ∀ spec ∈ staff, ∃ row, staffOf db'.staff spec.employeeNo = some row ∧
    StaffWritten db'.units spec row
  pruned : c.deactivateAbsent → ∀ no s, staffOf db'.staff no = some s →
    no ∉ staff.map (·.employeeNo) → s.deletedAt ≠ none

/-- What the staff flush leaves, before the prune. -/
structure StaffFlushed (placed : Db) (staff : List StaffSpec) (written : Db) : Prop where
  same : SameUnits placed written
  keyed : written.StaffKeyed
  numbers : (placed.staff.map Staff.employeeNo).Nodup → (written.staff.map Staff.employeeNo).Nodup
  named : ∀ spec ∈ staff, ∃ row, staffOf written.staff spec.employeeNo = some row ∧
    StaffWritten placed.units spec row ∧
    ∀ old ∈ placed.staff, old.id = row.id → staffOf placed.staff spec.employeeNo = some old
  other : ∀ no, no ∉ staff.map (·.employeeNo) → staffOf written.staff no = staffOf placed.staff no
  mem : ∀ s, s ∈ written.staff ↔ (∃ spec ∈ staff, staffOf written.staff spec.employeeNo = some s) ∨
    s ∈ placed.staff ∧ ∀ spec ∈ staff, staffOf placed.staff spec.employeeNo ≠ some s

theorem staffFlushed (hkeyed : placed.StaffKeyed) (hnumbers : (staff.map (·.employeeNo)).Nodup)
    (h : writeAll (upsertStaff plat) (staffOrder placed.staff staff) placed = .ok written) :
    StaffFlushed placed staff written := by
  obtain ⟨rows, hrows⟩ := staffPassed hkeyed h
  have hnos := numbers_of_written hrows.written
  have hperm : (staffOrder placed.staff staff).Perm staff := staffOrder_perm
  have hkeys : (rows.map Staff.employeeNo).Nodup :=
    hnos ▸ (hperm.map StaffSpec.employeeNo).nodup_iff.2 hnumbers
  have hlast : ∀ s ∈ rows, staffOf written.staff s.employeeNo = some s := fun s hs =>
    hrows.upserted.lastWith_of_mem hkeyed.nodup hkeys hs
  have hown : ∀ row ∈ rows, ∀ old ∈ placed.staff,
      old.id = row.id ↔ staffOf placed.staff row.employeeNo = some old := by
    intro row hrow old hold
    rcases hrows.upserted.id_of_mem hkeyed.nodup hkeys hrow with ⟨old', hold', hid⟩ | ⟨hnone, hfresh⟩
    · rw [hid]
      have hmem := (mem_of_lastWith hold').1
      constructor
      · intro heq
        rw [List.inj_on_of_nodup_map hkeyed.nodup hold hmem heq]
        exact hold'
      · intro hrow
        rw [Option.some.inj (hold'.symm.trans hrow)]
    · exact ⟨fun heq => absurd heq (hfresh old hold), fun hrow => nomatch hnone.symm.trans hrow⟩
  have hnamed : ∀ spec ∈ staff, ∃ row ∈ rows, StaffWritten placed.units spec row := fun spec hspec =>
    exists_right_of_mem hrows.written (hperm.mem_iff.2 hspec)
  have hmem : ∀ s, s ∈ rows ↔ ∃ spec ∈ staff, staffOf written.staff spec.employeeNo = some s := by
    intro s
    constructor
    · intro hs
      obtain ⟨spec, hspec, hwritten⟩ := exists_left_of_mem hrows.written hs
      exact ⟨spec, hperm.mem_iff.1 hspec, hwritten.employeeNo ▸ hlast s hs⟩
    · rintro ⟨spec, hspec, hs⟩
      obtain ⟨row, hrow, hwritten⟩ := hnamed spec hspec
      rw [← hwritten.employeeNo, hlast row hrow] at hs
      exact Option.some.inj hs ▸ hrow
  refine ⟨hrows.same, hrows.keyed, hrows.upserted.nodup_keys hkeyed.nodup, fun spec hspec => ?_,
    fun no hno => ?_, fun s => ?_⟩
  · obtain ⟨row, hrow, hwritten⟩ := hnamed spec hspec
    rw [← hwritten.employeeNo]
    exact ⟨row, hlast row hrow, hwritten, fun old hold heq => (hown row hrow old hold).1 heq⟩
  · refine hrows.upserted.lastWith_of_not_mem hkeyed.nodup fun row hrow heq => hno ?_
    refine (hperm.map StaffSpec.employeeNo).mem_iff.1 ?_
    rw [← hnos, ← heq]
    exact List.mem_map_of_mem hrow
  · rw [hrows.upserted.mem_iff hkeyed.nodup hkeys, hmem]
    refine or_congr_right (and_congr_right fun hs => ?_)
    constructor
    · intro hne spec hspec hrow
      obtain ⟨row, hmemRow, hwritten⟩ := hnamed spec hspec
      rw [← hwritten.employeeNo] at hrow
      exact hne row hmemRow ((hown row hmemRow s hs).2 hrow)
    · intro hne row hrow heq
      obtain ⟨spec, hspec, hwritten⟩ := exists_left_of_mem hrows.written hrow
      refine hne spec (hperm.mem_iff.1 hspec) ?_
      rw [← hwritten.employeeNo]
      exact (hown row hrow s hs).1 heq

namespace StaffFlushed

/-- No row of the feed is pruned. -/
theorem softDelete_row (h : StaffFlushed placed staff written) {spec : StaffSpec}
    (hspec : spec ∈ staff) (hs : staffOf written.staff spec.employeeNo = some s) :
    softDelete (absentStaff c placed.staff staff) c.now c.actorId s = s := by
  obtain ⟨row, hrow, hwritten, hown⟩ := h.named spec hspec
  obtain rfl := Option.some.inj (hrow.symm.trans hs)
  refine softDelete_of_not_mem fun a ha heq => ?_
  obtain ⟨harow, -, -, hnone⟩ := mem_absentStaff.1 ha
  have hno := (mem_of_lastWith (hown a (mem_of_lastWith harow).1 heq)).2
  exact hnone (hno ▸ List.mem_map_of_mem hspec)

theorem staffOf_afterPrune :
    staffOf (afterPrune c placed written staff).staff no = (staffOf written.staff no).map
      (softDelete (absentStaff c placed.staff staff) c.now c.actorId) :=
  lastWith_map fun r => softDelete_employeeNo _ _ _ r

theorem staffRow_afterPrune (h : StaffFlushed placed staff written) {spec : StaffSpec}
    (hspec : spec ∈ staff) : ∃ row,
      staffOf (afterPrune c placed written staff).staff spec.employeeNo = some row ∧
      StaffWritten (afterPrune c placed written staff).units spec row := by
  obtain ⟨row, hrow, hwritten, -⟩ := h.named spec hspec
  refine ⟨row, ?_, ?_⟩
  · rw [staffOf_afterPrune, hrow, Option.map_some, h.softDelete_row hspec hrow]
  · exact h.same.units ▸ hwritten

/-- After a prune only the feed's people are live. -/
theorem pruned (h : StaffFlushed placed staff written) (hasked : c.deactivateAbsent)
    (hs : staffOf (afterPrune c placed written staff).staff no = some s)
    (hno : no ∉ staff.map (·.employeeNo)) : s.deletedAt ≠ none := by
  rw [staffOf_afterPrune, h.other no hno] at hs
  obtain ⟨old, hold, rfl⟩ := Option.map_eq_some_iff.1 hs
  obtain rfl := (mem_of_lastWith hold).2
  by_cases hlive : old.deletedAt = none
  · rw [softDelete_of_mem (mem_absentStaff.2 ⟨hold, hasked, hlive, hno⟩)]
    exact Option.some_ne_none _
  · exact softDelete_deletedAt hlive

end StaffFlushed

/-- An accepted call applies the whole feed. -/
theorem applied_of_applyFeed (hunits : db.UnitsKeyed) (hstaff : db.StaffKeyed)
    (hprepared : Prepared plat.lower db.units c.feed specs staff) {result : IngestResult}
    (h : applyFeed plat c db specs staff = .ok (db', result)) :
    Applied plat.lower c specs staff db' := by
  have hcharted := charted_of_accepted hunits hprepared h
  obtain ⟨placed, written, hplaced, hwritten, -, rfl, -⟩ := applyFeed_eq_ok.1 h
  obtain ⟨_, hrows⟩ := unitsWritten hunits hplaced
  have hflushed := staffFlushed (hrows.same.keyed hstaff) hprepared.numbers hwritten
  exact ⟨hprepared.unitsRead, hprepared.staffRead, hcharted.named,
    fun spec hspec => hflushed.staffRow_afterPrune hspec,
    fun hasked no s hs hno => hflushed.pruned hasked hs hno⟩

/-! ## Rows that are already there -/

/-- Every unit of the feed is what it says. -/
def UnitsUnchanged (units : List OrgUnit) (specs : List UnitSpec) : Prop :=
  ∀ spec ∈ specs, ∃ u, unitOf units spec.code = some u ∧ Written units spec u

/-- Everybody of the feed is what it says. -/
def StaffUnchanged (db : Db) (staff : List StaffSpec) : Prop :=
  ∀ spec ∈ staff, ∃ s, staffOf db.staff spec.employeeNo = some s ∧ StaffWritten db.units spec s

theorem upsertUnit_unchanged {spec : UnitSpec} {u : OrgUnit} (hkeyed : db.UnitsKeyed)
    (hu : unitOf db.units spec.code = some u) (hwritten : Written db.units spec u)
    (h : upsertUnit plat db spec = .ok db') : db' = db := by
  obtain ⟨row, hrow, -, -, rfl⟩ := upsertUnit_eq_ok.1 h
  obtain ⟨hrowWritten, hid, hby⟩ := unitRow_eq_ok.1 hrow
  have hsame : row = u := by
    refine hwritten.eq hrowWritten ?_ ?_
    · simpa [idOf, hu] using hid
    · simpa [hu, hwritten.live] using hby
  have hover : overwrite OrgUnit.id db.units u = db.units :=
    overwrite_self hkeyed.nodup (mem_of_lastWith hu).1
  rw [hsame, Db.putUnit, hwritten.code, hu]
  simp only [hover]

theorem unitPass_unchanged (hkeyed : db.UnitsKeyed) (hsame : UnitsUnchanged db.units specs)
    (h : writeAll (upsertUnit plat) specs db = .ok db') : db' = db := by
  induction specs with
  | nil =>
      cases h
      rfl
  | cons spec specs ih =>
      obtain ⟨⟨u, hu, hwritten⟩, hrest⟩ := List.forall_mem_cons.1 hsame
      obtain ⟨mid, hmid, hpass⟩ := writeAll_cons.1 h
      rw [upsertUnit_unchanged hkeyed hu hwritten hmid] at hpass
      exact ih hrest hpass

theorem upsertStaff_unchanged {spec : StaffSpec} (hkeyed : db.StaffKeyed)
    (hs : staffOf db.staff spec.employeeNo = some s) (hwritten : StaffWritten db.units spec s)
    (h : upsertStaff plat db spec = .ok db') : db' = db := by
  obtain ⟨row, hrow, -, -, -, rfl⟩ := upsertStaff_eq_ok.1 h
  obtain ⟨hrowWritten, hid, hby⟩ := staffRow_eq_ok.1 hrow
  have hsame : row = s := by
    refine hwritten.eq hrowWritten ?_ ?_
    · simpa [staffId, hs] using hid
    · simpa [keptDeletedBy, hs, hwritten.live] using hby
  have hover : overwrite Staff.id db.staff s = db.staff :=
    overwrite_self hkeyed.nodup (mem_of_lastWith hs).1
  rw [hsame, Db.putStaff, hwritten.employeeNo, hs]
  simp only [hover]

theorem staffPass_unchanged (hkeyed : db.StaffKeyed) (hsame : StaffUnchanged db staff)
    (h : writeAll (upsertStaff plat) staff db = .ok db') : db' = db := by
  induction staff with
  | nil =>
      cases h
      rfl
  | cons spec staff ih =>
      obtain ⟨⟨s, hs, hwritten⟩, hrest⟩ := List.forall_mem_cons.1 hsame
      obtain ⟨mid, hmid, hpass⟩ := writeAll_cons.1 h
      rw [upsertStaff_unchanged hkeyed hs hwritten hmid] at hpass
      exact ih hrest hpass

end OfficeConnect.Ingest
