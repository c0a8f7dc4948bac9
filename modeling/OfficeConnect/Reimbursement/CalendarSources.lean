import OfficeConnect.Core.AgendaLaw
import OfficeConnect.Reimbursement.Queue

/-!
# The sources of the calendar

Activities are shown to everyone, trips to their traveller and to those who oversee them, and the
deadline of an advance to whoever took it.  A source reads its rows in order of date and id, up to
its cap.
-/

namespace OfficeConnect.Calendar

open Lib Workflow Reimbursement Reimbursement.Queue

/-! ## The tables -/

inductive ActivityStatus where
  | planned | ongoing | done | cancelled
deriving DecidableEq, Repr

def ActivityStatus.text : ActivityStatus → String
  | planned => "planned"
  | ongoing => "ongoing"
  | done => "done"
  | cancelled => "cancelled"

def ActivityStatus.label : ActivityStatus → String
  | planned => "Planned"
  | ongoing => "Ongoing"
  | done => "Done"
  | cancelled => "Cancelled"

def ActivityStatus.tone : ActivityStatus → Tone
  | planned => .waiting
  | ongoing => .warn
  | done => .done
  | cancelled => .blocked

structure Activity where
  id : ℕ
  title : String
  dateStart : Day
  dateEnd : Option Day := none
  venue : Option String := none
  status : ActivityStatus := .planned
deriving DecidableEq, Repr

/-- A claim row; its status is free text and may be null. -/
structure TripRow where
  id : ℕ
  kind : Kind
  claimantId : ℕ
  status : Option String := none
  refNo : Option String := none
  purpose : Option String := none
  destination : Option String := none
  dateDepart : Option Day := none
  dateReturn : Option Day := none
  activityId : Option ℕ := none
  workflowInstanceId : Option ℕ := none
deriving DecidableEq, Repr

/-- The live rows; each table comes in any order, under a primary key. -/
structure CalendarTables where
  activities : List Activity
  trips : List TripRow
  advances : List (ℕ × CashAdvance)
  instances : ℕ → Option Instance := fun _ => none
  staffOf : ℕ → Option ℕ := fun _ => none
  directory : Directory := {}
  activities_keyed : (activities.map (·.id)).Nodup
  trips_keyed : (trips.map (·.id)).Nodup
  advances_keyed : (advances.map Prod.fst).Nodup

/-- The same rows, in another order. -/
structure CalendarTables.SameRows (t t' : CalendarTables) : Prop where
  activities : t.activities.Perm t'.activities
  trips : t.trips.Perm t'.trips
  advances : t.advances.Perm t'.advances
  instances : t.instances = t'.instances
  staffOf : t.staffOf = t'.staffOf
  directory : t.directory = t'.directory

instance : Setoid CalendarTables where
  r := CalendarTables.SameRows
  iseqv :=
    { refl := fun _ => ⟨.rfl, .rfl, .rfl, rfl, rfl, rfl⟩
      symm := fun h => ⟨h.1.symm, h.2.symm, h.3.symm, h.4.symm, h.5.symm, h.6.symm⟩
      trans := fun h h' => ⟨h.1.trans h'.1, h.2.trans h'.2, h.3.trans h'.3, h.4.trans h'.4,
        h.5.trans h'.5, h.6.trans h'.6⟩ }

/-! ## A page of rows -/

section

variable {ρ : Type} (rank : ρ → Day ×ₗ ℕ) {rows rows' : List ρ}

/-- The first rows in order of date and id. -/
def firstRows (cap : ℕ) (rows : List ρ) : List ρ := (sortBy rank rows).take cap

theorem firstRows_congr (cap : ℕ) (hranks : (rows.map rank).Nodup) (h : rows'.Perm rows) :
    firstRows rank cap rows' = firstRows rank cap rows := by
  rw [firstRows, firstRows, sortBy_congr rank hranks h]

/-- Short of the cap every row is there. -/
theorem firstRows_perm {cap : ℕ} (h : ¬ (firstRows rank cap rows).length < rows.length) :
    (firstRows rank cap rows).Perm rows := by
  have hlength := (sortBy_perm rank rows).length_eq
  rw [firstRows, List.length_take, hlength] at h
  rw [firstRows, List.take_of_length_le (by omega)]
  exact sortBy_perm rank rows

theorem nodup_firstRows {γ : Type} {f : ρ → γ} (cap : ℕ) (h : (rows.map f).Nodup) :
    ((firstRows rank cap rows).map f).Nodup := by
  have hsorted := ((sortBy_perm rank rows).map f).nodup_iff.2 h
  exact hsorted.sublist ((List.take_sublist _ _).map f)

theorem nodup_rank {id : ρ → ℕ} (hrank : ∀ r, (ofLex (rank r)).2 = id r)
    (h : (rows.map id).Nodup) : (rows.map rank).Nodup := by
  refine List.Nodup.of_map (fun k => (ofLex k).2) ?_
  rw [List.map_map]
  have hid : ((fun k => (ofLex k).2) ∘ rank) = id := funext hrank
  rwa [hid]

end

/-- Rows are told apart by a reference made of their ids. -/
theorem nodup_refs {ρ : Type} {rows : List ρ} {id : ρ → ℕ} {ref : ρ → String} {kind : String}
    (href : ∀ r, ref r = kind ++ toString (id r)) (h : (rows.map id).Nodup) :
    (rows.map ref).Nodup := by
  have hinj : Function.Injective fun n : ℕ => kind ++ toString n := fun n m hnm =>
    toString_nat_inj (String.append_right_inj _ |>.1 hnm)
  have hmap : rows.map ref = (rows.map id).map fun n => kind ++ toString n := by
    rw [List.map_map]
    exact List.map_congr_left fun r _ => href r
  rw [hmap]
  exact h.map hinj

/-! ## Activities -/

def activityKey : String := "core.activity"

/-- An activity without an end date is one day long. -/
def overlaps (start stop : Day) (row : Activity) : Prop :=
  row.dateStart ≤ stop ∧ start ≤ row.dateEnd.getD row.dateStart

instance (start stop : Day) : DecidablePred (overlaps start stop) := fun row =>
  inferInstanceAs (Decidable (row.dateStart ≤ stop ∧ start ≤ row.dateEnd.getD row.dateStart))

def Activity.rank (row : Activity) : Day ×ₗ ℕ := toLex (row.dateStart, row.id)

def Activity.event (row : Activity) : CalendarEvent where
  source := activityKey
  ref := "activity:" ++ toString row.id
  title := row.title
  dateStart := row.dateStart
  dateEnd := row.dateEnd
  detail := row.venue
  status := some row.status.text
  statusLabel := some row.status.label
  tone := some row.status.tone
  activityId := some row.id

/-- The activities that overlap the window. -/
def activitiesIn (t : CalendarTables) (call : FetchCall) : List Activity :=
  t.activities.filter fun row => overlaps call.start call.stop row

/-- Every activity that overlaps the window, whoever asks. -/
def fetchActivities (t : CalendarTables) (call : FetchCall) : Except Raised SourceResult :=
  let total := (activitiesIn t call).length
  let rows := firstRows Activity.rank call.cap (activitiesIn t call)
  .ok { events := rows.map Activity.event, total := total, capped := rows.length < total }

theorem activitiesIn_keyed (t : CalendarTables) (call : FetchCall) :
    ((activitiesIn t call).map (·.id)).Nodup :=
  t.activities_keyed.sublist (List.filter_sublist.map _)

def activitySource : CalendarSource CalendarTables where
  key := activityKey
  label := "Activities"
  fetch := fetchActivities
  scopeRule := "none — TENANT-WIDE by owner decision (calendar.md decision 12, " ++
    "2026-08-09). core_activities is the connection spine and carries no " ++
    "person data. division_id/section_id exist on the row and are " ++
    "deliberately NOT filtered on; `custom` never crosses the wire."
  sourced := by
    rintro t call r h e he
    cases h
    obtain ⟨row, -, rfl⟩ := List.mem_map.1 he
    rfl
  distinct := by
    rintro t call r h
    cases h
    rw [List.map_map]
    exact nodup_refs (fun _ => rfl) (nodup_firstRows _ _ (activitiesIn_keyed t call))
  reordered := by
    rintro t t' call r ht h -
    cases h
    have hrows : (activitiesIn t' call).Perm (activitiesIn t call) := ht.activities.filter _
    have hranks := nodup_rank Activity.rank (fun _ => rfl) (activitiesIn_keyed t call)
    refine ⟨_, rfl, ?_, hrows.length_eq, rfl⟩
    rw [firstRows_congr _ _ hranks hrows]

/-! ## Trips -/

def travelKey : String := "reimb.travel"

/-- The flag of the module. -/
def featureFlagKey : String := "module.reimbursement"

/-- A trip without a date of return is one day long, and one without dates is on no calendar. -/
def tripOverlaps (start stop : Day) (row : TripRow) : Prop :=
  ∃ depart ∈ row.dateDepart, depart ≤ stop ∧ start ≤ row.dateReturn.getD depart

instance (start stop : Day) : DecidablePred (tripOverlaps start stop) := fun row =>
  inferInstanceAs (Decidable (∃ depart ∈ row.dateDepart, _))

def claimTones : List (Status × Tone) :=
  [(.draft, .waiting), (.divisionApproval, .waiting), (.adminReview, .waiting),
    (.handedToFms, .waiting), (.fmsReturned, .warn), (.returned, .warn), (.paidClosed, .done),
    (.cancelled, .blocked)]

def claimTone (text : String) : Tone :=
  ((claimTones.find? fun p => p.1.text = text).map Prod.snd).getD .waiting

/-- `vocab.labels.get(status, status)`. -/
def statusLabel (kind : Kind) (text : String) : String :=
  (((vocabulary kind).labels.find? fun p => p.1.text = text).map Prod.snd).getD text

/-- A selected row has a date of departure. -/
def TripRow.depart (row : TripRow) : Day := row.dateDepart.getD 0

def TripRow.rank (row : TripRow) : Day ×ₗ ℕ := toLex (row.depart, row.id)

def TripRow.event (row : TripRow) : CalendarEvent :=
  let status := (orText row.status none).getD Status.draft.text
  { source := travelKey
    ref := "claim:" ++ toString row.id
    title := (orText row.purpose (orText row.refNo (some "Travel"))).getD ""
    dateStart := row.depart
    dateEnd := row.dateReturn
    detail := row.destination
    status := some status
    statusLabel := some (statusLabel row.kind status)
    tone := some (claimTone status)
    href := some ("/reimbursement/claims/" ++ toString row.id)
    activityId := row.activityId }

/-- What bounded the actor's trips. -/
def travelNote (isGlobal : Bool) (unitIds : List ℕ) : Option String :=
  if isGlobal then none
  else if unitIds ≠ [] then some "Travel is shown for the offices you oversee, plus your own."
  else some "Travel shown here is your own. Colleagues' claims are not on this calendar."

/-- The base query with every state let through: joined with its instance, inside the scope. -/
def inScope (t : CalendarTables) (scope : Bool × List ℕ) (row : TripRow) : Prop :=
  ∃ inst ∈ row.workflowInstanceId.bind t.instances, scopeClause scope.1 scope.2 inst

instance (t : CalendarTables) (scope : Bool × List ℕ) : DecidablePred (inScope t scope) :=
  fun row => inferInstanceAs (Decidable (∃ inst ∈ row.workflowInstanceId.bind t.instances, _))

def isOwn (t : CalendarTables) (actorUserId : ℕ) (row : TripRow) : Prop :=
  t.staffOf actorUserId = some row.claimantId

instance (t : CalendarTables) (actorUserId : ℕ) : DecidablePred (isOwn t actorUserId) :=
  fun row => inferInstanceAs (Decidable (t.staffOf actorUserId = some row.claimantId))

/-- The ids of two queries together: the trips the actor oversees, and their own. -/
def visibleIds (t : CalendarTables) (call : FetchCall) : List ℕ :=
  let scope := oversightScope t.directory call.actorUserId
  let overseen :=
    if scope.1 ∨ scope.2 ≠ [] then
      t.trips.filter fun row => inScope t scope row ∧ tripOverlaps call.start call.stop row
    else []
  let own := t.trips.filter fun row =>
    isOwn t call.actorUserId row ∧ tripOverlaps call.start call.stop row
  ((overseen ++ own).map (·.id)).dedup

/-- The rows of the visible ids. -/
def visibleRows (t : CalendarTables) (call : FetchCall) : List TripRow :=
  t.trips.filter fun row => row.id ∈ visibleIds t call

def fetchTravel (t : CalendarTables) (call : FetchCall) : Except Raised SourceResult :=
  let scope := oversightScope t.directory call.actorUserId
  if ¬ (scope.1 ∨ scope.2 ≠ []) ∧ t.staffOf call.actorUserId = none then
    .ok { events := [], total := 0, boundedNote := travelNote false [] }
  else
    let total := (visibleIds t call).length
    if total = 0 then
      .ok { events := [], total := 0, boundedNote := travelNote scope.1 scope.2 }
    else
      let rows := firstRows TripRow.rank call.cap (visibleRows t call)
      .ok { events := rows.map TripRow.event, total := total
            boundedNote := travelNote scope.1 scope.2, capped := rows.length < total }

/-- The trips of the window the actor may see. -/
def tripsIn (t : CalendarTables) (call : FetchCall) : List TripRow :=
  t.trips.filter fun row => tripOverlaps call.start call.stop row ∧
    (inScope t (oversightScope t.directory call.actorUserId) row ∨ isOwn t call.actorUserId row)

section

variable {t t' : CalendarTables} {call : FetchCall}

theorem tripsIn_keyed (t : CalendarTables) (call : FetchCall) :
    ((tripsIn t call).map (·.id)).Nodup :=
  t.trips_keyed.sublist (List.filter_sublist.map _)

/-- Someone who oversees nothing sees no trip by the scope. -/
theorem oversees_of_inScope {scope : Bool × List ℕ} {row : TripRow} (h : inScope t scope row) :
    scope.1 ∨ scope.2 ≠ [] := by
  obtain ⟨inst, -, hglobal | ⟨unit, hunit, -⟩⟩ := h
  · exact .inl hglobal
  · exact .inr (List.ne_nil_of_mem hunit)

theorem mem_visibleIds {n : ℕ} : n ∈ visibleIds t call ↔ ∃ row ∈ tripsIn t call, row.id = n := by
  simp only [visibleIds, tripsIn, List.mem_dedup, List.mem_map, List.mem_append, List.mem_filter,
    decide_eq_true_eq]
  refine exists_congr fun row => and_congr_left fun _ => ?_
  have hscope : inScope t (oversightScope t.directory call.actorUserId) row → _ :=
    oversees_of_inScope
  split_ifs with hoversees
  · simp only [List.mem_filter, decide_eq_true_eq]
    tauto
  · simp only [List.not_mem_nil, false_or]
    tauto

theorem visibleRows_eq (t : CalendarTables) (call : FetchCall) :
    visibleRows t call = tripsIn t call := by
  refine List.filter_congr fun row hrow => ?_
  rw [Bool.eq_iff_iff, decide_eq_true_iff, decide_eq_true_iff, mem_visibleIds]
  constructor
  · rintro ⟨row', hrow', hid⟩
    obtain ⟨hmem, hin⟩ := List.mem_filter.1 hrow'
    obtain rfl := List.inj_on_of_nodup_map t.trips_keyed hmem hrow hid
    exact of_decide_eq_true hin
  · intro hin
    exact ⟨row, List.mem_filter.2 ⟨hrow, decide_eq_true hin⟩, rfl⟩

theorem length_visibleIds (t : CalendarTables) (call : FetchCall) :
    (visibleIds t call).length = (tripsIn t call).length := by
  have hids : (visibleIds t call).Perm ((tripsIn t call).map (·.id)) :=
    (List.perm_ext_iff_of_nodup (List.nodup_dedup _) (tripsIn_keyed t call)).2 fun n => by
      rw [List.mem_map]
      exact mem_visibleIds
  rw [hids.length_eq, List.length_map]

/-- On every branch these are the rows of the window, up to the cap. -/
theorem fetchTravel_eq (t : CalendarTables) (call : FetchCall) : fetchTravel t call = .ok
    { events := (firstRows TripRow.rank call.cap (tripsIn t call)).map TripRow.event
      total := (tripsIn t call).length
      boundedNote := travelNote (oversightScope t.directory call.actorUserId).1
        (oversightScope t.directory call.actorUserId).2
      capped := (firstRows TripRow.rank call.cap (tripsIn t call)).length <
        (tripsIn t call).length } := by
  have hempty : tripsIn t call = [] → firstRows TripRow.rank call.cap (tripsIn t call) = [] :=
    fun h => by rw [h]; exact List.take_nil
  simp only [fetchTravel, length_visibleIds, visibleRows_eq, List.length_eq_zero_iff]
  split_ifs with hnobody hnone
  · obtain ⟨hoversees, hstaff⟩ := hnobody
    have hnone : tripsIn t call = [] := List.filter_eq_nil_iff.2 fun row _ hin => by
      obtain ⟨-, hscope | hown⟩ := of_decide_eq_true hin
      · exact hoversees (oversees_of_inScope hscope)
      · rw [isOwn, hstaff] at hown
        cases hown
    obtain ⟨hglobal, hunits⟩ := not_or.1 hoversees
    rw [hempty hnone, hnone, Bool.eq_false_iff.2 hglobal, not_not.1 hunits]
    rfl
  · rw [hempty hnone, hnone]
    rfl
  · rfl

def travelSource : CalendarSource CalendarTables where
  key := travelKey
  label := "Travel"
  fetch := fetchTravel
  featureFlag := some featureFlagKey
  scopeRule := "services/queue.py::oversight_scope + base_query(include_terminal=True), " ++
    "UNIONed with the caller's own claims by claimant_id (resolved from " ++
    "core_users.staff_id, never a client id). api-standards §9f — never the " ++
    "route's globally-granted reimb.claim.read."
  sourced := by
    intro t call r h e he
    rw [fetchTravel_eq] at h
    cases h
    obtain ⟨row, -, rfl⟩ := List.mem_map.1 he
    rfl
  distinct := by
    intro t call r h
    rw [fetchTravel_eq] at h
    cases h
    rw [List.map_map]
    exact nodup_refs (fun _ => rfl) (nodup_firstRows _ _ (tripsIn_keyed t call))
  reordered := by
    intro t t' call r ht h _
    rw [fetchTravel_eq] at h
    cases h
    have hrows : (tripsIn t' call).Perm (tripsIn t call) := by
      have hsame : tripsIn t' call = t'.trips.filter fun row =>
          tripOverlaps call.start call.stop row ∧
            (inScope t (oversightScope t.directory call.actorUserId) row ∨
              isOwn t call.actorUserId row) := by
        simp only [tripsIn, inScope, isOwn, ht.instances, ht.staffOf, ht.directory]
        rfl
      rw [hsame]
      exact ht.trips.filter _
    have hranks := nodup_rank TripRow.rank (fun _ => rfl) (tripsIn_keyed t call)
    refine ⟨_, fetchTravel_eq t' call, ?_, hrows.length_eq, ?_⟩
    · rw [firstRows_congr _ _ hranks hrows]
    · rw [ht.directory]

end

/-! ## Liquidation deadlines -/

def liquidationKey : String := "reimb.liquidation"

def liquidationNote : String := "Liquidation deadlines shown here are your own."

def advanceStatusText : AdvanceStatus → String
  | .opened => "open"
  | .liquidationStarted => "liquidation_started"
  | .settled => "settled"
  | .overdue => "overdue"

def advanceStatusLabel : AdvanceStatus → String
  | .opened => "To liquidate"
  | .liquidationStarted => "Liquidation started"
  | .settled => "Settled"
  | .overdue => "Overdue"

def advanceTone : AdvanceStatus → Tone
  | .opened => .waiting
  | .liquidationStarted => .warn
  | .settled => .done
  | .overdue => .blocked

def dueSoonDays : ℤ := 7

/-- A deadline on track raises no colour. -/
def deadlineUrgency (deadline today : Day) : Option Urgency :=
  if deadline - today < 0 then some .overdue
  else if deadline - today ≤ dueSoonDays then some .dueSoon
  else none

/-- A selected advance has a deadline. -/
def advanceDay (row : ℕ × CashAdvance) : Day := row.2.deadlineDate.getD 0

def advanceRank (row : ℕ × CashAdvance) : Day ×ₗ ℕ := toLex (advanceDay row, row.1)

def advanceEvent (today : Day) (row : ℕ × CashAdvance) : CalendarEvent where
  source := liquidationKey
  ref := "advance:" ++ toString row.1
  title := "Liquidation due"
  dateStart := advanceDay row
  status := some (advanceStatusText row.2.status)
  statusLabel := some (advanceStatusLabel row.2.status)
  tone := some (advanceTone row.2.status)
  urgency := deadlineUrgency (advanceDay row) today
  href := some "/reimbursement/cash-advances"

/-- The unsettled advances of a staff member with a deadline in the window. -/
def advancesIn (t : CalendarTables) (call : FetchCall) (staffId : ℕ) : List (ℕ × CashAdvance) :=
  t.advances.filter fun row => row.2.claimantId = staffId ∧
    (∃ deadline ∈ row.2.deadlineDate, call.start ≤ deadline ∧ deadline ≤ call.stop) ∧
      row.2.unliquidated

/-- The caller's own clocks only. -/
def fetchLiquidation (t : CalendarTables) (call : FetchCall) : Except Raised SourceResult :=
  match t.staffOf call.actorUserId with
  | none => .ok { events := [], total := 0, boundedNote := some liquidationNote }
  | some staffId =>
      let total := (advancesIn t call staffId).length
      let rows := firstRows advanceRank call.cap (advancesIn t call staffId)
      .ok { events := rows.map (advanceEvent (manilaDate call.now)), total := total
            boundedNote := some liquidationNote, capped := rows.length < total }

section

variable {t t' : CalendarTables} {call : FetchCall}

theorem advancesIn_keyed (t : CalendarTables) (call : FetchCall) (staffId : ℕ) :
    ((advancesIn t call staffId).map Prod.fst).Nodup :=
  t.advances_keyed.sublist (List.filter_sublist.map _)

theorem fetchLiquidation_none (h : t.staffOf call.actorUserId = none) :
    fetchLiquidation t call =
      .ok { events := [], total := 0, boundedNote := some liquidationNote } := by
  rw [fetchLiquidation, h]

theorem fetchLiquidation_some {staffId : ℕ} (h : t.staffOf call.actorUserId = some staffId) :
    fetchLiquidation t call = .ok
      { events := (firstRows advanceRank call.cap (advancesIn t call staffId)).map
          (advanceEvent (manilaDate call.now))
        total := (advancesIn t call staffId).length
        boundedNote := some liquidationNote
        capped := (firstRows advanceRank call.cap (advancesIn t call staffId)).length <
          (advancesIn t call staffId).length } := by
  rw [fetchLiquidation, h]

def liquidationSource : CalendarSource CalendarTables where
  key := liquidationKey
  label := "Liquidation deadlines"
  fetch := fetchLiquidation
  featureFlag := some featureFlagKey
  scopeRule := "OWN advances only — reimb_cash_advances.claimant_id == the caller's " ++
    "staff_id. Deliberately NOT deps.can_read_cash_advance: that is a " ++
    "per-ROW rule with no set form anywhere, and inventing one is a security " ++
    "increment (calendar.md §6b)."
  sourced := by
    intro t call r h e he
    cases hstaff : t.staffOf call.actorUserId with
    | none =>
        rw [fetchLiquidation_none hstaff] at h
        cases h
        exact absurd he List.not_mem_nil
    | some staffId =>
        rw [fetchLiquidation_some hstaff] at h
        cases h
        obtain ⟨row, -, rfl⟩ := List.mem_map.1 he
        rfl
  distinct := by
    intro t call r h
    cases hstaff : t.staffOf call.actorUserId with
    | none =>
        rw [fetchLiquidation_none hstaff] at h
        cases h
        exact List.nodup_nil
    | some staffId =>
        rw [fetchLiquidation_some hstaff] at h
        cases h
        rw [List.map_map]
        exact nodup_refs (fun _ => rfl) (nodup_firstRows _ _ (advancesIn_keyed t call staffId))
  reordered := by
    intro t t' call r ht h _
    have hstaff' := congrFun ht.staffOf call.actorUserId
    cases hstaff : t.staffOf call.actorUserId with
    | none =>
        rw [fetchLiquidation_none hstaff] at h
        cases h
        exact ⟨_, fetchLiquidation_none (hstaff'.trans hstaff), .rfl, rfl, rfl⟩
    | some staffId =>
        rw [fetchLiquidation_some hstaff] at h
        cases h
        have hrows : (advancesIn t' call staffId).Perm (advancesIn t call staffId) :=
          ht.advances.filter _
        have hranks := nodup_rank advanceRank (fun _ => rfl) (advancesIn_keyed t call staffId)
        refine ⟨_, fetchLiquidation_some (hstaff'.trans hstaff), ?_, hrows.length_eq, rfl⟩
        rw [firstRows_congr _ _ hranks hrows]

end

/-- The sources the application registers. -/
def deployedSources : List (CalendarSource CalendarTables) :=
  [activitySource, travelSource, liquidationSource]

end OfficeConnect.Calendar
