import OfficeConnect.Ingest.Accepted
import OfficeConnect.Lib.Contract

/-!
# The org chart after an ingest

The cycle check walks the parents named in the feed and stops at a unit outside it, so a unit can be
moved under one of its own descendants that only the database knows.  The chart stays a forest
exactly when the walk, continued over the database's pointers to the next unit of the feed, does not
come back either.
-/

namespace OfficeConnect.Ingest

open Lib Relation

variable {plat : Platform} {c : Call} {db placed : Db} {units units' rows : List OrgUnit}
  {specs order : List UnitSpec} {staff : List StaffSpec} {a b i : ℕ} {code : String}

/-! ## The chart -/

/-- The row `a` points to `b`. -/
def Parent (units : List OrgUnit) (a b : ℕ) : Prop :=
  ∃ u ∈ units, u.id = a ∧ u.parentOrgUnitId = some b

/-- Every parent id refers to a row. -/
def ParentsExist (units : List OrgUnit) : Prop :=
  ∀ u ∈ units, ∀ p ∈ u.parentOrgUnitId, ∃ v ∈ units, v.id = p

instance (units : List OrgUnit) : Decidable (ParentsExist units) :=
  inferInstanceAs (Decidable (∀ u ∈ units, ∀ p ∈ u.parentOrgUnitId, ∃ v ∈ units, v.id = p))

/-- Every unit of the feed has the parent it names. -/
def NamedParents (units : List OrgUnit) (specs : List UnitSpec) : Prop :=
  ∀ spec ∈ specs, ∃ row, unitOf units spec.code = some row ∧
    row.parentOrgUnitId = spec.parentCode.bind (idOf units) ∧
    ∀ p ∈ spec.parentCode, (idOf units p).isSome

/-- A row that the feed writes over. -/
def FeedRow (units : List OrgUnit) (specs : List UnitSpec) (a : ℕ) : Prop :=
  ∃ spec ∈ specs, idOf units spec.code = some a

/-- The next unit of the feed above a unit of the feed: the parent it names, or the first one on the
database's chain above that. -/
def Leads (units : List OrgUnit) (specs : List UnitSpec) (code above : String) : Prop :=
  ∃ spec ∈ specs, spec.code = code ∧ above ∈ specs.map (·.code) ∧
    ∃ p, spec.parentCode = some p ∧
      (p = above ∨ p ∉ specs.map (·.code) ∧ ∃ i j, idOf units p = some i ∧
        idOf units above = some j ∧ Through (Parent units) (FeedRow units specs) i j)

/-! ## What a pass does to the chart -/

/-- The rows before and after a pass over the specs. -/
structure Charted (units : List OrgUnit) (specs : List UnitSpec) (units' : List OrgUnit) : Prop where
  nodup : (units'.map OrgUnit.id).Nodup
  named : ∀ spec ∈ specs, ∃ row, unitOf units' spec.code = some row ∧ Written units' spec row
  mem : ∀ u, u ∈ units' ↔ (∃ spec ∈ specs, unitOf units' spec.code = some u) ∨
    u ∈ units ∧ ¬ FeedRow units' specs u.id
  other : ∀ code, code ∉ specs.map (·.code) → unitOf units' code = unitOf units code
  kept : ∀ code i, idOf units code = some i → idOf units' code = some i
  fresh : ∀ code i, code ∈ specs.map (·.code) → unitOf units code = none →
    idOf units' code = some i → ∀ u ∈ units, u.id ≠ i

theorem UnitsWritten.charted (h : UnitsWritten db order rows placed) (hkeyed : db.UnitsKeyed)
    (hperm : order.Perm specs) (hcodes : (specs.map (·.code)).Nodup) :
    Charted db.units specs placed.units := by
  have hrowCodes := codes_of_written h.written
  have hkeys : (rows.map OrgUnit.code).Nodup :=
    hrowCodes ▸ (hperm.map UnitSpec.code).nodup_iff.2 hcodes
  have hspecs : ∀ code, code ∈ specs.map (·.code) ↔ code ∈ rows.map OrgUnit.code := by
    intro code
    rw [hrowCodes]
    exact (hperm.map UnitSpec.code).mem_iff.symm
  have hlast : ∀ u ∈ rows, unitOf placed.units u.code = some u := fun u hu =>
    h.upserted.lastWith_of_mem hkeyed.nodup hkeys hu
  have hnamed : ∀ spec ∈ specs, ∃ row ∈ rows, Written placed.units spec row := fun spec hspec =>
    exists_right_of_mem h.written (hperm.mem_iff.2 hspec)
  have hrows : ∀ u, u ∈ rows ↔ ∃ spec ∈ specs, unitOf placed.units spec.code = some u := by
    intro u
    constructor
    · intro hu
      obtain ⟨spec, hspec, hwritten⟩ := exists_left_of_mem h.written hu
      exact ⟨spec, hperm.mem_iff.1 hspec, hwritten.code ▸ hlast u hu⟩
    · rintro ⟨spec, hspec, hu⟩
      obtain ⟨row, hrow, hwritten⟩ := hnamed spec hspec
      rw [← hwritten.code, hlast row hrow] at hu
      exact Option.some.inj hu ▸ hrow
  refine ⟨h.keyed.nodup, fun spec hspec => ?_, fun u => ?_, fun code hcode => ?_, fun code i hi => ?_,
    fun code i hcode hnone hi u hu => ?_⟩
  · obtain ⟨row, hrow, hwritten⟩ := hnamed spec hspec
    exact ⟨row, hwritten.code ▸ hlast row hrow, hwritten⟩
  · rw [h.upserted.mem_iff hkeyed.nodup hkeys, hrows]
    refine or_congr_right (and_congr_right fun _ => ?_)
    constructor
    · rintro hne ⟨spec, hspec, hid⟩
      obtain ⟨row, hrow, hid⟩ := idOf_eq_some.1 hid
      exact hne row ((hrows row).2 ⟨spec, hspec, hrow⟩) hid.symm
    · intro hnot row hrow hid
      obtain ⟨spec, hspec, hunit⟩ := (hrows row).1 hrow
      exact hnot ⟨spec, hspec, idOf_eq_some.2 ⟨row, hunit, hid.symm⟩⟩
  · refine h.upserted.lastWith_of_not_mem hkeyed.nodup fun row hrow heq => hcode ?_
    exact (hspecs code).2 (List.mem_map.2 ⟨row, hrow, heq⟩)
  · obtain ⟨u, hu, rfl⟩ := idOf_eq_some.1 hi
    exact h.upserted.lastWith_id hkeyed.nodup hu
  · obtain ⟨row, hrow, rfl⟩ := List.mem_map.1 ((hspecs code).1 hcode)
    obtain ⟨row', hrow', rfl⟩ := idOf_eq_some.1 hi
    obtain rfl := Option.some.inj ((hlast row hrow).symm.trans hrow')
    rcases h.upserted.id_of_mem hkeyed.nodup hkeys hrow with ⟨old, hold, -⟩ | ⟨-, hfresh⟩
    · exact nomatch hnone.symm.trans hold
    · exact hfresh u hu

namespace Charted

/-- Of the old rows, the written ones are those of the feed's codes. -/
theorem feedRow_iff (h : Charted units specs units') (ha : ∃ u ∈ units, u.id = a) :
    FeedRow units' specs a ↔ FeedRow units specs a := by
  constructor
  · rintro ⟨spec, hspec, hid⟩
    cases hold : unitOf units spec.code with
    | none =>
        obtain ⟨u, hu, rfl⟩ := ha
        exact absurd rfl (h.fresh _ _ (List.mem_map_of_mem hspec) hold hid u hu)
    | some old =>
        have hkept := h.kept spec.code old.id (idOf_eq_some.2 ⟨old, hold, rfl⟩)
        rw [hid] at hkept
        exact ⟨spec, hspec, idOf_eq_some.2 ⟨old, hold, (Option.some.inj hkept).symm⟩⟩
  · rintro ⟨spec, hspec, hid⟩
    exact ⟨spec, hspec, h.kept _ _ hid⟩

/-- Outside the feed's rows the pointers stay. -/
theorem parent_iff (h : Charted units specs units') (ha : ¬ FeedRow units' specs a) :
    Parent units' a b ↔ Parent units a b := by
  constructor
  · rintro ⟨u, hu, rfl, hparent⟩
    rcases (h.mem u).1 hu with ⟨spec, hspec, hunit⟩ | ⟨hold, -⟩
    · exact absurd ⟨spec, hspec, idOf_eq_some.2 ⟨u, hunit, rfl⟩⟩ ha
    · exact ⟨u, hold, rfl, hparent⟩
  · rintro ⟨u, hu, rfl, hparent⟩
    exact ⟨u, (h.mem u).2 (.inr ⟨hu, ha⟩), rfl, hparent⟩

/-- A row of the feed points to the parent it names. -/
theorem parent_of_feed (h : Charted units specs units') {spec : UnitSpec} (hspec : spec ∈ specs)
    (hid : idOf units' spec.code = some a) :
    Parent units' a b ↔ ∃ p, spec.parentCode = some p ∧ idOf units' p = some b := by
  obtain ⟨row, hrow, hwritten⟩ := h.named spec hspec
  obtain ⟨row', hrow', rfl⟩ := idOf_eq_some.1 hid
  obtain rfl := Option.some.inj (hrow.symm.trans hrow')
  have hmem : row ∈ units' := (mem_of_lastWith hrow).1
  have hself : Parent units' row.id b ↔ row.parentOrgUnitId = some b := by
    constructor
    · rintro ⟨u, hu, heq, hparent⟩
      rwa [List.inj_on_of_nodup_map h.nodup hu hmem heq] at hparent
    · exact fun hparent => ⟨row, hmem, rfl, hparent⟩
  rw [hself, hwritten.parent, Option.bind_eq_some_iff]

theorem exists_row (h : Charted units specs units') (ha : ∃ u ∈ units, u.id = a) :
    ∃ v ∈ units', v.id = a := by
  obtain ⟨u, hu, rfl⟩ := ha
  by_cases hfeed : FeedRow units' specs u.id
  · obtain ⟨spec, -, hid⟩ := hfeed
    obtain ⟨v, hv, hid⟩ := idOf_eq_some.1 hid
    exact ⟨v, (mem_of_lastWith hv).1, hid⟩
  · exact ⟨u, (h.mem u).2 (.inr ⟨hu, hfeed⟩), rfl⟩

theorem namedParents (h : Charted units specs units') : NamedParents units' specs := by
  intro spec hspec
  obtain ⟨row, hrow, hwritten⟩ := h.named spec hspec
  exact ⟨row, hrow, hwritten.parent, hwritten.resolves⟩

theorem parentsExist (h : Charted units specs units') (hexist : ParentsExist units) :
    ParentsExist units' := by
  intro u hu p hp
  rcases (h.mem u).1 hu with ⟨spec, hspec, hunit⟩ | ⟨hold, -⟩
  · obtain ⟨row, hrow, hwritten⟩ := h.named spec hspec
    obtain rfl := Option.some.inj (hrow.symm.trans hunit)
    obtain ⟨parent, -, hid⟩ := Option.bind_eq_some_iff.1 (hwritten.parent.symm.trans hp)
    obtain ⟨v, hv, hid⟩ := idOf_eq_some.1 hid
    exact ⟨v, (mem_of_lastWith hv).1, hid⟩
  · exact h.exists_row (hexist u hold p hp)

/-- The way up from an old row is the same before and after, as far as the next feed row. -/
theorem through_iff (h : Charted units specs units') (hexist : ParentsExist units)
    (ha : ∃ u ∈ units, u.id = a) :
    Through (Parent units') (FeedRow units' specs) a b ↔
      Through (Parent units) (FeedRow units specs) a b := by
  have hinside : ∀ x y, Parent units x y → ∃ u ∈ units, u.id = y := by
    rintro x y ⟨u, hu, -, hparent⟩
    exact hexist u hu y hparent
  constructor
  · refine fun hthrough => hthrough.transfer ha (fun x hx => h.feedRow_iff hx) ?_
    intro x y hx hnot hedge
    have hedge' := (h.parent_iff hnot).1 hedge
    exact ⟨hedge', hinside x y hedge'⟩
  · refine fun hthrough => hthrough.transfer ha (fun x hx => (h.feedRow_iff hx).symm) ?_
    intro x y hx hnot hedge
    exact ⟨(h.parent_iff (mt (h.feedRow_iff hx).1 hnot)).2 hedge, hinside x y hedge⟩

/-- An edge between feed rows, contracted, is a lead between their codes. -/
theorem contracted_iff (h : Charted units specs units') (hexist : ParentsExist units)
    (hcode : code ∈ specs.map (·.code)) (hid : idOf units' code = some a) :
    Contracted (Parent units') (FeedRow units' specs) a b ↔
      ∃ above, Leads units specs code above ∧ idOf units' above = some b := by
  obtain ⟨spec, hspec, rfl⟩ := List.mem_map.1 hcode
  have hself : FeedRow units' specs a := ⟨spec, hspec, hid⟩
  have hold : ∀ p i, idOf units p = some i → ∃ u ∈ units, u.id = i := by
    intro p i hi
    obtain ⟨u, hu, rfl⟩ := idOf_eq_some.1 hi
    exact ⟨u, (mem_of_lastWith hu).1, rfl⟩
  constructor
  · rintro ⟨-, m, hedge, hthrough⟩
    obtain ⟨p, hp, hm⟩ := (h.parent_of_feed hspec hid).1 hedge
    by_cases hpfeed : p ∈ specs.map (·.code)
    · obtain ⟨parent, hparent, rfl⟩ := List.mem_map.1 hpfeed
      have hmb := hthrough.eq_of_marked ⟨parent, hparent, hm⟩
      exact ⟨parent.code, ⟨spec, hspec, rfl, hpfeed, _, hp, .inl rfl⟩, hmb ▸ hm⟩
    · have hm' : idOf units p = some m := by rw [idOf, ← h.other p hpfeed, ← idOf, hm]
      have hthrough' := (h.through_iff hexist (hold p m hm')).1 hthrough
      obtain ⟨above, habove, hb⟩ := hthrough'.marked_end
      refine ⟨above.code, ⟨spec, hspec, rfl, List.mem_map_of_mem habove, p, hp, .inr ⟨hpfeed, m, b, hm',
        hb, hthrough'⟩⟩, h.kept _ _ hb⟩
  · rintro ⟨above, ⟨spec', hspec', hcode', habove, p, hp, hlead⟩, hb⟩
    obtain ⟨aboveSpec, haboveSpec, rfl⟩ := List.mem_map.1 habove
    have hedge : ∀ m, idOf units' p = some m → Parent units' a m := fun m hm =>
      (h.parent_of_feed hspec' (hcode' ▸ hid)).2 ⟨p, hp, hm⟩
    rcases hlead with rfl | ⟨hpfeed, i, j, hi, hj, hthrough⟩
    · exact ⟨hself, b, hedge b hb, .stop ⟨aboveSpec, haboveSpec, hb⟩⟩
    · have hjb : j = b := Option.some.inj ((h.kept _ _ hj).symm.trans hb)
      exact ⟨hself, i, hedge i (h.kept _ _ hi),
        hjb ▸ (h.through_iff hexist (hold p i hi)).2 hthrough⟩

theorem exists_id (h : Charted units specs units') (hcode : code ∈ specs.map (·.code)) :
    ∃ a, idOf units' code = some a := by
  obtain ⟨spec, hspec, rfl⟩ := List.mem_map.1 hcode
  obtain ⟨row, hrow, -⟩ := h.named spec hspec
  exact ⟨row.id, idOf_eq_some.2 ⟨row, hrow, rfl⟩⟩

theorem code_inj (h : Charted units specs units') {code' : String} (hid : idOf units' code = some a)
    (hid' : idOf units' code' = some a) : code = code' := by
  obtain ⟨u, hu, rfl⟩ := idOf_eq_some.1 hid
  obtain ⟨u', hu', heq⟩ := idOf_eq_some.1 hid'
  obtain ⟨hmem, rfl⟩ := mem_of_lastWith hu
  obtain ⟨hmem', rfl⟩ := mem_of_lastWith hu'
  rw [List.inj_on_of_nodup_map h.nodup hmem' hmem heq]

/-- A path of leads is a path of rows. -/
theorem contracted_of_leads (h : Charted units specs units') (hexist : ParentsExist units)
    {above : String} (hpath : TransGen (Leads units specs) code above) :
    ∃ a b, idOf units' code = some a ∧ idOf units' above = some b ∧
      TransGen (Contracted (Parent units') (FeedRow units' specs)) a b := by
  have hedge : ∀ {code above : String}, Leads units specs code above →
      ∃ a b, idOf units' code = some a ∧ idOf units' above = some b ∧
        Contracted (Parent units') (FeedRow units' specs) a b := by
    intro code above hlead
    obtain ⟨spec, hspec, rfl, habove, -⟩ := id hlead
    obtain ⟨a, ha⟩ := h.exists_id (List.mem_map_of_mem hspec)
    obtain ⟨b, hb⟩ := h.exists_id habove
    refine ⟨a, b, ha, hb, ?_⟩
    exact (h.contracted_iff hexist (List.mem_map_of_mem hspec) ha).2 ⟨above, hlead, hb⟩
  induction hpath with
  | single hlead =>
      obtain ⟨a, b, ha, hb, hab⟩ := hedge hlead
      exact ⟨a, b, ha, hb, .single hab⟩
  | tail _ hlead ih =>
      obtain ⟨a, m, ha, hm, ham⟩ := ih
      obtain ⟨m', b, hm', hb, hmb⟩ := hedge hlead
      rw [← Option.some.inj (hm.symm.trans hm')] at hmb
      exact ⟨a, b, ha, hb, ham.tail hmb⟩

/-- A path of rows is a path of leads. -/
theorem leads_of_contracted (h : Charted units specs units') (hexist : ParentsExist units)
    (hcode : code ∈ specs.map (·.code)) (ha : idOf units' code = some a)
    (hpath : TransGen (Contracted (Parent units') (FeedRow units' specs)) a b) :
    ∃ above ∈ specs.map (·.code), idOf units' above = some b ∧
      TransGen (Leads units specs) code above := by
  have hfeed : ∀ {code above : String}, Leads units specs code above →
      above ∈ specs.map (·.code) := by
    rintro code above ⟨_, _, _, habove, _⟩
    exact habove
  induction hpath with
  | single hedge =>
      obtain ⟨above, hlead, hb⟩ := (h.contracted_iff hexist hcode ha).1 hedge
      exact ⟨above, hfeed hlead, hb, .single hlead⟩
  | tail _ hedge ih =>
      obtain ⟨mid, hmid, hm, hpath⟩ := ih
      obtain ⟨above, hlead, hb⟩ := (h.contracted_iff hexist hmid hm).1 hedge
      exact ⟨above, hfeed hlead, hb, hpath.tail hlead⟩

/-- The chart has a cycle exactly when the leads have one. -/
theorem acyclic_iff (h : Charted units specs units') (hexist : ParentsExist units)
    (hforest : Acyclic (Parent units)) : Acyclic (Parent units') ↔ Acyclic (Leads units specs) := by
  have hout : Acyclic fun x y =>
      ¬ FeedRow units' specs x ∧ ¬ FeedRow units' specs y ∧ Parent units' x y := by
    intro x hcycle
    exact hforest x (TransGen.mono (fun y z hyz => (h.parent_iff hyz.1).1 hyz.2.2) x x hcycle)
  rw [acyclic_iff_contracted hout]
  constructor
  · intro hrows code hcycle
    obtain ⟨a, b, ha, hb, hpath⟩ := h.contracted_of_leads hexist hcycle
    rw [Option.some.inj (ha.symm.trans hb)] at hpath
    exact hrows b hpath
  · intro hleads a hcycle
    obtain ⟨m, ⟨⟨spec, hspec, hid⟩, -⟩, -⟩ := TransGen.head'_iff.1 hcycle
    obtain ⟨above, -, habove, hpath⟩ :=
      h.leads_of_contracted hexist (List.mem_map_of_mem hspec) hid hcycle
    rw [h.code_inj habove hid] at hpath
    exact hleads spec.code hpath

end Charted

/-! ## The ingest -/

theorem units_upsertStaff {db' : Db} {spec : StaffSpec} (h : upsertStaff plat db spec = .ok db') :
    db'.units = db.units := by
  simp only [upsertStaff, bind_eq_ok, refuse_eq_ok, pure_eq_ok] at h
  obtain ⟨row, -, -, -, -, -, -, -, rfl⟩ := h
  unfold Db.putStaff
  split <;> rfl

theorem units_staffPass {db' : Db} (h : writeAll (upsertStaff plat) staff db = .ok db') :
    db'.units = db.units := by
  induction staff generalizing db with
  | nil =>
      cases h
      rfl
  | cons spec staff ih =>
      obtain ⟨mid, hwrite, hpass⟩ := writeAll_cons.1 h
      exact (ih hpass).trans (units_upsertStaff hwrite)

/-- The chart of an accepted feed. -/
theorem charted_of_accepted (hkeyed : db.UnitsKeyed)
    (hprepared : Prepared plat.lower db.units c.feed specs staff) {db' : Db} {result : IngestResult}
    (h : applyFeed plat c db specs staff = .ok (db', result)) :
    Charted db.units specs db'.units := by
  obtain ⟨placed, written, hplaced, hwritten, -, rfl, -⟩ := applyFeed_eq_ok.1 h
  obtain ⟨rows, hrows⟩ := unitsWritten hkeyed hplaced
  have hcharted := hrows.charted hkeyed (topologicalOrder_perm hprepared.loopless) hprepared.codes
  rw [← units_staffPass hwritten] at hcharted
  exact hcharted

/-- After an accepted feed every parent exists and every unit of the feed has the one it names; the
chart is a forest exactly when no unit of the feed is led back to itself over the feed's parents and
the database's pointers between them. -/
theorem ingest_forest_iff (plat : Platform) (c : Call) (db : Db) (hkeyed : db.UnitsKeyed)
    (hexist : ParentsExist db.units) (hforest : Acyclic (Parent db.units)) {specs : List UnitSpec}
    {staff : List StaffSpec} (hread : prepare plat.lower db.units c.feed = .ok (specs, staff))
    {result : IngestResult} (hok : (ingestDirectory plat c db).outcome = .ok result) :
    (Acyclic (Parent (ingestDirectory plat c db).db.units) ∧
      ParentsExist (ingestDirectory plat c db).db.units ∧
      NamedParents (ingestDirectory plat c db).db.units specs) ↔ Acyclic (Leads db.units specs) := by
  obtain ⟨specs', staff', hprepared, happly⟩ := ingestDirectory_eq_ok hok
  have hsame := Except.ok.inj (hread.symm.trans (prepare_eq_ok.2 hprepared))
  obtain ⟨rfl, rfl⟩ := Prod.mk.inj hsame
  have hcharted := charted_of_accepted hkeyed hprepared happly
  rw [hcharted.acyclic_iff hexist hforest]
  exact and_iff_left ⟨hcharted.parentsExist hexist, hcharted.namedParents⟩

/-! ## A unit moved under its own child -/

/-- ASCII lower case, and texts without a NUL. -/
def plain : Platform where
  lower := String.toLower
  storable _ s := '\x00' ∉ s.toList

/-- Division `B` with its section `A`. -/
def bureauDb : Db where
  units :=
    [{ id := 1, code := "A", name := "Section A", kind := .sect, parentOrgUnitId := some 2
       sortOrder := 0, isActive := true },
     { id := 2, code := "B", name := "Division B", kind := .division, parentOrgUnitId := none
       sortOrder := 0, isActive := true }]
  nextUnitId := 3

/-- A feed that names one unit. -/
def unitFeed (code name kind parent : String) : Call where
  feed :=
    { orgUnits := [{ code := .str code, name := .str name, kind := .str kind
                     parentCode := .str parent }] }

theorem bureauDb_keyed : bureauDb.UnitsKeyed := ⟨by decide, by decide⟩

theorem bureauDb_exist : ParentsExist bureauDb.units := by decide

theorem bureauDb_forest : Acyclic (Parent bureauDb.units) := by
  refine acyclic_of_rank (fun a => if a = 1 then 1 else 0) fun a b hedge => ?_
  obtain ⟨u, hu, rfl, hparent⟩ := hedge
  simp only [bureauDb, List.mem_cons, List.not_mem_nil, or_false] at hu
  rcases hu with rfl | rfl
  · obtain rfl : 2 = b := by simpa using hparent
    decide
  · simp at hparent

/-- A new section below the division. -/
theorem new_section_forest :
    Acyclic (Parent (ingestDirectory plain (unitFeed "C" "Section C" "section" "B") bureauDb).db.units) ∧
      ParentsExist (ingestDirectory plain (unitFeed "C" "Section C" "section" "B") bureauDb).db.units ∧
      NamedParents (ingestDirectory plain (unitFeed "C" "Section C" "section" "B") bureauDb).db.units
        [{ code := "C", name := some "Section C", kind := some "section", parentCode := some "B"
           sortOrder := 0, isActive := true }] := by
  obtain ⟨⟨specs, staff⟩, hread, hspecs⟩ := exists_eq_ok
    (x := prepare plain.lower bureauDb.units (unitFeed "C" "Section C" "section" "B").feed)
    (fun out => decide (out.1 = [{ code := "C", name := some "Section C", kind := some "section"
                                   parentCode := some "B", sortOrder := 0, isActive := true }]))
    (by decide +kernel)
  obtain ⟨result, hok, -⟩ := exists_eq_ok
    (x := (ingestDirectory plain (unitFeed "C" "Section C" "section" "B") bureauDb).outcome)
    (fun _ => true) (by decide +kernel)
  obtain rfl := of_decide_eq_true hspecs
  refine (ingest_forest_iff plain _ bureauDb bureauDb_keyed bureauDb_exist bureauDb_forest hread
    hok).2 ?_
  refine acyclic_of_rank (fun _ => 0) fun code above hlead => ?_
  obtain ⟨spec, hspec, rfl, habove, p, hp, hlead⟩ := hlead
  obtain rfl := List.mem_singleton.1 hspec
  obtain rfl : "C" = above := by simpa [eq_comm] using habove
  obtain rfl : "B" = p := by simpa using hp
  rcases hlead with hfalse | ⟨-, i, j, -, hj, -⟩
  · exact absurd hfalse (by decide)
  · have hnone : idOf bureauDb.units "C" = none := by decide
    exact nomatch hnone.symm.trans hj

/-- The division moved below its own section, which the feed does not name. -/
theorem moved_under_child_cyclic :
    (bureauDb.UnitsKeyed ∧ ParentsExist bureauDb.units ∧ Acyclic (Parent bureauDb.units)) ∧
      (∃ result, (ingestDirectory plain (unitFeed "B" "Division B" "division" "A") bureauDb).outcome =
        .ok result) ∧
      ¬ Acyclic
        (Parent (ingestDirectory plain (unitFeed "B" "Division B" "division" "A") bureauDb).db.units) := by
  refine ⟨⟨bureauDb_keyed, bureauDb_exist, bureauDb_forest⟩, ?_, fun hforest => ?_⟩
  · obtain ⟨result, hok, -⟩ := exists_eq_ok
      (x := (ingestDirectory plain (unitFeed "B" "Division B" "division" "A") bureauDb).outcome)
      (fun _ => true) (by decide +kernel)
    exact ⟨result, hok⟩
  · have hdown : Parent (ingestDirectory plain (unitFeed "B" "Division B" "division" "A")
        bureauDb).db.units 1 2 := by
      unfold Parent
      decide +kernel
    have hup : Parent (ingestDirectory plain (unitFeed "B" "Division B" "division" "A")
        bureauDb).db.units 2 1 := by
      unfold Parent
      decide +kernel
    exact hforest 1 (.head hdown (.single hup))

end OfficeConnect.Ingest
