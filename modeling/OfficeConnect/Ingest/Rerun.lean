import OfficeConnect.Ingest.Applied

/-!
# Ingesting the same feed again

An accepted feed leaves every one of its rows as it says.  Read against the new tables it passes the
same checks, every write goes over a row with itself, and a prune finds nobody.
-/

namespace OfficeConnect.Ingest

open Lib

variable {plat : Platform} {c again : Call} {db db' placed written : Db} {lower : String → String}
  {units units' : List OrgUnit} {specs : List UnitSpec} {staff : List StaffSpec} {feed : Feed}
  {result : IngestResult} {s : Staff}

/-! ## The checks again -/

/-- The checks depend on the units only through the codes outside the feed. -/
theorem Prepared.of_units (h : Prepared lower units feed specs staff)
    (hother : ∀ code, code ∉ specs.map (·.code) → unitOf units' code = unitOf units code) :
    Prepared lower units' feed specs staff where
  unitsRead := h.unitsRead
  codes := h.codes
  complete := h.complete
  ends := h.ends
  staffRead := h.staffRead
  numbers := h.numbers
  names := h.names
  emails := h.emails
  parents := by
    refine checkParents_eq_nil.2 fun spec hspec p hp => ?_
    by_cases hfeed : p ∈ specs.map (·.code)
    · exact .inl hfeed
    · exact .inr (hother p hfeed ▸ (h.resolves hspec hp).resolve_left hfeed)
  orgFields := by
    have hkind : kindByCode units' specs = kindByCode units specs := by
      funext code
      unfold kindByCode
      cases hspec : specOf specs code with
      | some spec => rfl
      | none => rw [hother code (specOf_eq_none.1 hspec)]
    rw [← h.orgFields]
    simp only [checkStaffUnits, checkOrgField, hkind]

/-! ## What is there is taken again -/

/-- When the database takes the writes of a feed that passed the checks. -/
theorem exists_applyFeed_iff (hunits : db.UnitsKeyed) (hstaff : db.StaffKeyed)
    (hprepared : Prepared plat.lower db.units feed specs staff) :
    (∃ out, applyFeed plat c db specs staff = .ok out) ↔
      (∀ spec ∈ specs, UnitFits plat db.units spec) ∧ StaffTaken plat db.staff staff ∧
        ¬ (c.deactivateAbsent ∧ staff = []) := by
  rw [← hprepared.exists_unitPass_iff hunits]
  constructor
  · rintro ⟨⟨db', result⟩, happly⟩
    obtain ⟨placed, written, hplaced, hwritten, hprune, -, -⟩ := applyFeed_eq_ok.1 happly
    obtain ⟨rows, hrows⟩ := unitsWritten hunits hplaced
    refine ⟨⟨placed, hplaced⟩, ?_, hprune⟩
    rw [← hrows.same.staff]
    exact (hprepared.exists_staffPass_iff (hrows.same.keyed hstaff)).1 ⟨written, hwritten⟩
  · rintro ⟨⟨placed, hplaced⟩, htaken, hprune⟩
    obtain ⟨rows, hrows⟩ := unitsWritten hunits hplaced
    rw [← hrows.same.staff] at htaken
    obtain ⟨written, hwritten⟩ :=
      (hprepared.exists_staffPass_iff (hrows.same.keyed hstaff)).2 htaken
    exact ⟨_, applyFeed_eq_ok.2 ⟨placed, written, hplaced, hwritten, hprune, rfl, rfl⟩⟩

theorem UnitFits.of_nodup {spec : UnitSpec} (h : UnitFits plat units spec)
    (hcodes : (units'.map OrgUnit.code).Nodup) : UnitFits plat units' spec where
  code := h.code
  name := h.name
  sortOrder := h.sortOrder
  own := fun _ hu _ hcode => hcode ▸ lastWith_of_mem hcodes hu

theorem StaffFits.of_nodup {table table' : List Staff} {spec : StaffSpec}
    (h : StaffFits plat table spec) (hnumbers : (table'.map Staff.employeeNo).Nodup) :
    StaffFits plat table' spec where
  status := h.status
  texts := h.texts
  own := fun _ hs _ hno => hno ▸ lastWith_of_mem hnumbers hs

theorem softDelete_of_live {absent : List Staff} {now : Time} {actorId : Option ℕ}
    (h : (softDelete absent now actorId s).deletedAt = none) :
    softDelete absent now actorId s = s := by
  unfold softDelete at h ⊢
  split_ifs with hmem
  · rw [if_pos hmem] at h
    exact nomatch h
  · rfl

/-- After an ingest the live row with an address of the feed is the one of its person. -/
theorem StaffFlushed.ownAddress (h : StaffFlushed placed staff written)
    (hapart : staff.Pairwise Apart) (htaken : StaffTaken plat placed.staff staff) {spec : StaffSpec}
    (hspec : spec ∈ staff) (hs : s ∈ (afterPrune c placed written staff).staff)
    (hlive : s.deletedAt = none) (hsome : s.email ≠ none) (heq : s.email = spec.email) :
    staffOf (afterPrune c placed written staff).staff spec.employeeNo = some s := by
  have : Std.Symm Apart := ⟨fun _ _ hab => hab.symm⟩
  obtain ⟨old, hold, rfl⟩ := List.mem_map.1 hs
  have hkept := softDelete_of_live hlive
  rw [hkept] at hlive hsome heq ⊢
  rcases (h.mem old).1 hold with ⟨other, hother, hrow⟩ | ⟨hplaced, hnone⟩
  · obtain ⟨row, hrow', hwritten, -⟩ := h.named other hother
    obtain rfl := Option.some.inj (hrow'.symm.trans hrow)
    have hsame : other = spec := by
      by_contra hne
      refine (hapart.forall hother hspec hne).2 ?_ (hwritten.email.symm.trans heq)
      rwa [← hwritten.email]
    rw [staffOf_afterPrune, ← hsame, hrow, Option.map_some, hkept]
  · rcases (htaken spec hspec).2 old hplaced hlive hsome heq with hown | ⟨d, hd, hrow, -⟩
    · exact absurd hown (hnone spec hspec)
    · exact absurd hrow (hnone d hd)

/-! ## The second ingest -/

/-- What an accepted call established, kept with the tables it left. -/
structure Settled (plat : Platform) (c : Call) (specs : List UnitSpec) (staff : List StaffSpec)
    (db' : Db) : Prop where
  unitsKeyed : db'.UnitsKeyed
  staffKeyed : db'.StaffKeyed
  prepared : Prepared plat.lower db'.units c.feed specs staff
  unitsFit : ∀ spec ∈ specs, UnitFits plat db'.units spec
  staffTaken : StaffTaken plat db'.staff staff
  prune : ¬ (c.deactivateAbsent ∧ staff = [])
  applied : Applied plat.lower c specs staff db'

theorem afterPrune_keyed (h : written.StaffKeyed) : (afterPrune c placed written staff).StaffKeyed := by
  have hids : (afterPrune c placed written staff).staff.map Staff.id = written.staff.map Staff.id :=
    map_id_softDelete ..
  refine ⟨hids ▸ h.nodup, fun s hs => ?_⟩
  have hmem : s.id ∈ written.staff.map Staff.id := hids ▸ List.mem_map_of_mem hs
  obtain ⟨old, hold, hid⟩ := List.mem_map.1 hmem
  rw [← hid]
  exact h.bounded old hold

theorem settled_of_applyFeed (hunits : db.UnitsKeyed) (hstaff : db.StaffKeyed)
    (hcodes : (db.units.map OrgUnit.code).Nodup) (hnumbers : (db.staff.map Staff.employeeNo).Nodup)
    (hprepared : Prepared plat.lower db.units c.feed specs staff)
    (h : applyFeed plat c db specs staff = .ok (db', result)) : Settled plat c specs staff db' := by
  obtain ⟨hfits, htaken, hprune⟩ := (exists_applyFeed_iff hunits hstaff hprepared).1 ⟨_, h⟩
  have happlied := applied_of_applyFeed hunits hstaff hprepared h
  have hcharted := charted_of_accepted hunits hprepared h
  obtain ⟨placed, written, hplaced, hwritten, -, rfl, -⟩ := applyFeed_eq_ok.1 h
  obtain ⟨rows, hrows⟩ := unitsWritten hunits hplaced
  have hflushed := staffFlushed (hrows.same.keyed hstaff) hprepared.numbers hwritten
  have hsame := hflushed.same
  rw [← hrows.same.staff] at htaken hnumbers
  have hnewCodes : ((afterPrune c placed written staff).units.map OrgUnit.code).Nodup := by
    rw [show (afterPrune c placed written staff).units = placed.units from hsame.units]
    exact hrows.upserted.nodup_keys hunits.nodup hcodes
  have hnewNumbers : ((afterPrune c placed written staff).staff.map Staff.employeeNo).Nodup := by
    have hkeep : (afterPrune c placed written staff).staff.map Staff.employeeNo =
        written.staff.map Staff.employeeNo := by
      rw [afterPrune, List.map_map]
      exact List.map_congr_left fun s _ => softDelete_employeeNo _ _ _ s
    exact hkeep ▸ hflushed.numbers hnumbers
  have hunitsKeyed : (afterPrune c placed written staff).UnitsKeyed := by
    refine ⟨hcharted.nodup, fun u hu => ?_⟩
    rw [show (afterPrune c placed written staff).units = placed.units from hsame.units] at hu
    rw [show (afterPrune c placed written staff).nextUnitId = placed.nextUnitId from
      hsame.nextUnitId]
    exact hrows.keyed.bounded u hu
  refine ⟨hunitsKeyed, afterPrune_keyed hflushed.keyed, hprepared.of_units hcharted.other,
    fun spec hspec => (hfits spec hspec).of_nodup hnewCodes, fun spec hspec => ?_, hprune, happlied⟩
  refine ⟨(htaken spec hspec).1.of_nodup hnewNumbers, fun s hs hlive hsome heq => .inl ?_⟩
  exact hflushed.ownAddress hprepared.apart htaken hspec hs hlive hsome heq

/-- The tables an accepted feed left are taken again, and stay. -/
theorem Settled.reingest (h : Settled plat c specs staff db') (hfeed : again.feed = c.feed)
    (hasked : again.deactivateAbsent = c.deactivateAbsent) :
    ∃ result, ingestDirectory plat again db' = { db := db', outcome := .ok result } := by
  have hprepared := h.prepared
  rw [← hfeed] at hprepared
  obtain ⟨⟨db'', result⟩, happly⟩ := (exists_applyFeed_iff h.unitsKeyed h.staffKeyed hprepared).2
    ⟨h.unitsFit, h.staffTaken, hasked ▸ h.prune⟩
  refine ⟨result, ?_⟩
  have hrun : ingestDirectory plat again db' = { db := db'', outcome := .ok result } := by
    simp only [ingestDirectory, prepare_eq_ok.2 hprepared, happly]
  rw [hrun]
  congr 1
  obtain ⟨placed, written, hplaced, hwritten, -, rfl, -⟩ := applyFeed_eq_ok.1 happly
  have hperm := topologicalOrder_perm hprepared.loopless
  obtain rfl : placed = db' := by
    refine unitPass_unchanged h.unitsKeyed (fun spec hspec => ?_) hplaced
    exact h.applied.unitRows spec (hperm.mem_iff.1 hspec)
  obtain rfl : written = placed := by
    refine staffPass_unchanged h.staffKeyed (fun spec hspec => ?_) hwritten
    exact h.applied.staffRows spec (staffOrder_perm.mem_iff.1 hspec)
  have hnobody : absentStaff again written.staff staff = [] := by
    refine List.eq_nil_iff_forall_not_mem.2 fun s hs => ?_
    obtain ⟨hrow, hasked', hlive, hno⟩ := mem_absentStaff.1 hs
    exact h.applied.pruned (hasked ▸ hasked') s.employeeNo s hrow hno hlive
  have hkeep : written.staff.map (softDelete [] again.now again.actorId) = written.staff :=
    List.map_id'' (fun s => softDelete_of_not_mem fun a ha => absurd ha List.not_mem_nil) _
  rw [afterPrune, hnobody, hkeep]

end OfficeConnect.Ingest
