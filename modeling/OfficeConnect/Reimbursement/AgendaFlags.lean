import Mathlib.Data.List.TakeWhile
import OfficeConnect.Reimbursement.CalendarSources
import OfficeConnect.Reimbursement.HolidayWindow

/-!
# The flags of the agenda

The holidays loaded are those of the window, but an activity or a trip is listed under the day it
starts on, which may be before the window.  A holiday there is neither flagged nor named.
-/

namespace OfficeConnect.Calendar

open Lib Reimbursement

variable {β : Type} [Setoid β]

/-- The dates of the active non-working rows of the whole table. -/
abbrev holidayDates (holidays : List NamedHoliday) : List Day :=
  nonworkingDates (holidays.map (·.toHoliday))

/-- Every listed day is non-working when the whole table says so, and has the holiday's label. -/
def Agenda.Flagged (names : Collation) (holidays : List NamedHoliday) (agenda : Agenda) : Prop :=
  ∀ day ∈ agenda.days,
    (day.isNonworking = true ↔ ¬ isWorkingDay day.day (holidayDates holidays) = true) ∧
      IsHolidayLabel names holidays day.day day.nonworkingLabel

section

variable {names : Collation} {holidays : List NamedHoliday} {window : Window} {now : Time}
  {d : Day} {label : Option String} {fetched : List (CalendarSource β × SourceResult)}

theorem mem_holidayDates : d ∈ holidayDates holidays ↔ holidayNames holidays d ≠ [] := by
  rw [← List.isEmpty_eq_false_iff, List.isEmpty_eq_false_iff_exists_mem]
  simp only [holidayDates, nonworkingDates, mem_holidayNames, List.mem_map, List.mem_filter,
    decide_eq_true_eq]
  constructor
  · rintro ⟨_, ⟨⟨h, hh, rfl⟩, hrow⟩, hdate⟩
    exact ⟨h.name, h, hh, hrow, hdate, rfl⟩
  · rintro ⟨name, h, hh, hrow, hdate, -⟩
    exact ⟨_, ⟨⟨h, hh, rfl⟩, hrow⟩, hdate⟩

/-- A holiday has a label, and only a holiday. -/
theorem isSome_label (h : IsHolidayLabel names holidays d label) :
    label.isSome = true ↔ d ∈ holidayDates holidays := by
  rw [mem_holidayDates]
  cases label with
  | none => simp [show holidayNames holidays d = [] from h]
  | some name => simp [List.ne_nil_of_mem h.1]

/-- The flags are right as long as no listed holiday is outside the window. -/
theorem flagged_iff : (assemble names holidays window now fetched).Flagged names holidays ↔
    ∀ e ∈ eventsOf fetched, e.dateStart ∈ holidayDates holidays →
      window.start ≤ e.dateStart ∧ e.dateStart ≤ window.stop := by
  constructor
  · intro h e he hholiday
    by_contra hout
    obtain ⟨day, hday, hstart⟩ := exists_day names holidays window now he
    have hlabel := (h day hday).2
    rw [(mem_days hday).2.1, hstart, lookup_labels_outside names holidays hout] at hlabel
    exact mem_holidayDates.1 hholiday hlabel
  · intro h day hday
    obtain ⟨⟨e, he, hstart⟩, hlookup, hflag⟩ := mem_days hday
    have hlabel : IsHolidayLabel names holidays day.day day.nonworkingLabel := by
      rw [hlookup]
      by_cases hin : window.start ≤ day.day ∧ day.day ≤ window.stop
      · exact lookup_labels_inside names holidays hin.1 hin.2
      · rw [lookup_labels_outside names holidays hin]
        by_contra hholiday
        have hinside := h e he (by rw [hstart]; exact mem_holidayDates.2 hholiday)
        rw [hstart] at hinside
        exact hin hinside
    refine ⟨?_, hlabel⟩
    rw [hflag, isSome_label hlabel, isWorkingDay_iff, isWeekday]
    tauto

end

/-! ## What the sources read -/

/-- The deadlines of the caller's own advances in the window. -/
def liquidationEvents (t : CalendarTables) (call : FetchCall) : List CalendarEvent :=
  match t.staffOf call.actorUserId with
  | none => []
  | some staffId => (advancesIn t call staffId).map (advanceEvent (manilaDate call.now))

/-- The source answers; short of its cap with the given events, all of which start by the end of the
window. -/
def Reads (source : CalendarSource CalendarTables)
    (events : CalendarTables → FetchCall → List CalendarEvent) : Prop :=
  ∀ t call, ∃ r, source.fetch t call = .ok r ∧ r.total = (events t call).length ∧
    (r.capped = false → r.events.Perm (events t call)) ∧
      ∀ e ∈ events t call, e.dateStart ≤ call.stop

theorem reads_activities :
    Reads activitySource fun t call => (activitiesIn t call).map Activity.event := by
  intro t call
  refine ⟨_, rfl, (List.length_map _).symm, fun hcap => ?_, fun e he => ?_⟩
  · exact (firstRows_perm Activity.rank (of_decide_eq_false hcap)).map _
  · obtain ⟨row, hrow, rfl⟩ := List.mem_map.1 he
    exact (of_decide_eq_true (List.mem_filter.1 hrow).2).1

theorem reads_trips : Reads travelSource fun t call => (tripsIn t call).map TripRow.event := by
  intro t call
  refine ⟨_, fetchTravel_eq t call, (List.length_map _).symm, fun hcap => ?_, fun e he => ?_⟩
  · exact (firstRows_perm TripRow.rank (of_decide_eq_false hcap)).map _
  · obtain ⟨row, hrow, rfl⟩ := List.mem_map.1 he
    obtain ⟨⟨depart, hdepart, hstop, -⟩, -⟩ := of_decide_eq_true (List.mem_filter.1 hrow).2
    show row.depart ≤ call.stop
    rwa [TripRow.depart, Option.mem_def.1 hdepart]

theorem reads_deadlines : Reads liquidationSource liquidationEvents := by
  intro t call
  cases hstaff : t.staffOf call.actorUserId with
  | none =>
      refine ⟨_, fetchLiquidation_none hstaff, ?_⟩
      simp [liquidationEvents, hstaff]
  | some staffId =>
      simp only [liquidationEvents, hstaff]
      refine ⟨_, fetchLiquidation_some hstaff, (List.length_map _).symm, fun hcap => ?_,
        fun e he => ?_⟩
      · exact (firstRows_perm advanceRank (of_decide_eq_false hcap)).map _
      · obtain ⟨row, hrow, rfl⟩ := List.mem_map.1 he
        obtain ⟨-, ⟨deadline, hdeadline, -, hstop⟩, -⟩ :=
          of_decide_eq_true (List.mem_filter.1 hrow).2
        show advanceDay row ≤ call.stop
        rwa [advanceDay, Option.mem_def.1 hdeadline]

/-! ## The agenda -/

/-- The agenda lists the events of the sources day by day and is the same in whatever order sources
and rows come; its flags are right exactly when no event starts on a holiday outside the window. -/
theorem agenda_matches_iff (names : Collation) (flags : String → Option FeatureFlag)
    (holidays : List NamedHoliday) (sources : List (CalendarSource β)) (registry : Registry β)
    (t : β) (actorUserId : ℕ) (window : Window) (now : Time) (cap : ℕ) :
    let call : FetchCall := ⟨actorUserId, window.start, window.stop, cap, now⟩
    let usable := usableSources flags (registeredSources registry)
    (registerAll sources = .ok registry →
      (∀ source ∈ usable, ∃ r, source.fetch t call = .ok r ∧ r.capped = false) →
        ∃ agenda, collect names flags holidays registry t actorUserId window now cap = .ok agenda ∧
          ((agenda.Lists (contributed usable t call) ∧
              (OnePerKey sources → ∀ (sources' : List (CalendarSource β)) (t' : β)
                (holidays' : List NamedHoliday), (∀ s, s ∈ sources' ↔ s ∈ sources) → t' ≈ t →
                holidays'.Perm holidays → ∃ registry', registerAll sources' = .ok registry' ∧
                  collect names flags holidays' registry' t' actorUserId window now cap =
                    .ok agenda) ∧
              agenda.Flagged names holidays) ↔
            ∀ e ∈ contributed usable t call, e.dateStart ∈ holidayDates holidays →
              window.start ≤ e.dateStart ∧ e.dateStart ≤ window.stop)) ∧
    Reads activitySource (fun t call => (activitiesIn t call).map Activity.event) ∧
    Reads travelSource (fun t call => (tripsIn t call).map TripRow.event) ∧
    Reads liquidationSource liquidationEvents := by
  intro call usable
  refine ⟨fun hreg hfetch => ?_, reads_activities, reads_trips, reads_deadlines⟩
  obtain ⟨fetched, hmap, hall⟩ := exists_fetched hfetch
  have hrows : ∀ row ∈ fetched, row.1.fetch t call = .ok row.2 := fun row hrow => (hall row hrow).1
  refine ⟨assemble names holidays window now fetched, collect_eq_ok hmap hrows, ?_⟩
  rw [contributed_eq hmap hrows]
  refine ⟨fun h => flagged_iff.1 h.2.2, fun h => ⟨assemble_lists, ?_, flagged_iff.2 h⟩⟩
  intro hone sources' t' holidays' hset ht hholidays
  obtain ⟨registry', hreg', hsame⟩ := registeredSources_congr hone hset hreg
  obtain ⟨fetched', hanswers, hmap', hrows'⟩ := exists_sameAnswers ht hall
  have hkeys : ((eventsOf fetched).map sortKey).Nodup :=
    nodup_sortKey (by rw [hmap]; exact nodup_usableSources flags registry) hrows
  refine ⟨registry', hreg', ?_⟩
  rw [collect_eq_ok (by rw [hsame, hmap', hmap]) hrows', assemble_congr hkeys hholidays hanswers]

/-! ## The holidays around a seminar -/

theorem strip_ne_empty {s : String} {c : Char} (hc : c ∈ s.toList)
    (hspace : Ingest.isSpace c = false) : Ingest.strip s ≠ "" := by
  intro hempty
  have hstripped : Ingest.stripBy Ingest.isSpace s.toList = [] := by
    simpa [Ingest.strip] using congrArg String.toList hempty
  unfold Ingest.stripBy at hstripped
  have hinner := List.reverse_eq_nil_iff.1 hstripped
  rw [List.dropWhile_eq_nil_iff] at hinner
  cases hrest : s.toList.dropWhile Ingest.isSpace with
  | nil =>
      have hall := List.dropWhile_eq_nil_iff.1 hrest c hc
      rw [hspace] at hall
      cases hall
  | cons d rest =>
      have hhead := List.head?_dropWhile_not Ingest.isSpace s.toList
      rw [hrest] at hhead hinner
      have hd := hinner d (by simp)
      simp [hd] at hhead

theorem mem_toList_append {a b : String} {c : Char} (h : c ∈ a.toList) : c ∈ (a ++ b).toList := by
  rw [String.toList_append]
  exact List.mem_append_left _ h

theorem deployed_registered : ∃ registry, registerAll deployedSources = .ok registry ∧
    ∀ s, s ∈ registry.sources ↔ s ∈ deployedSources := by
  have hrules : ∀ s ∈ deployedSources, s.key ≠ "" ∧ Ingest.strip s.scopeRule ≠ "" := by
    simp only [deployedSources, List.forall_mem_cons, List.not_mem_nil, false_implies,
      implies_true, and_true]
    refine ⟨⟨by decide, ?_⟩, ⟨by decide, ?_⟩, by decide, ?_⟩
    · exact strip_ne_empty (c := 'n') (mem_toList_append (mem_toList_append (mem_toList_append
        (by decide +kernel)))) (by decide)
    · exact strip_ne_empty (c := 's') (mem_toList_append (mem_toList_append (mem_toList_append
        (by decide +kernel)))) (by decide)
    · exact strip_ne_empty (c := 'O') (mem_toList_append (mem_toList_append (mem_toList_append
        (by decide +kernel)))) (by decide)
  have hone : OnePerKey deployedSources := by
    have hkeys : (deployedSources.map (·.key)).Nodup := by decide
    exact fun s hs s' hs' hkey => List.inj_on_of_nodup_map hkeys hs hs' hkey
  obtain ⟨registry, hreg⟩ := returns_foldlM_registerSource Registry.empty hrules
  exact ⟨registry, hreg, fun s => mem_foldlM_registerSource Registry.empty hone hreg⟩

theorem mem_usableSources {flags : String → Option FeatureFlag} {registry : Registry β}
    {source : CalendarSource β} : source ∈ usableSources flags (registeredSources registry) ↔
      source ∈ registry.sources ∧ source.featureFlag.all (featureEnabled flags) = true := by
  rw [usableSources, List.mem_filter, registeredSources, (sortBy_perm _ _).mem_iff]

/-- The 9th of April 2026 is a holiday by two rows. -/
def kagitingan : List NamedHoliday :=
  [{ calendarDate := 20552, holidayType := .workSuspension, name := "Work suspension" },
    { calendarDate := 20552, holidayType := .regular, name := "Araw ng Kagitingan" }]

/-- From the holiday to the Saturday after it. -/
def seminarRow : Activity where
  id := 4
  title := "Seminar"
  dateStart := 20552
  dateEnd := some 20554

def seminar : CalendarTables where
  activities := [seminarRow]
  trips := []
  advances := []
  activities_keyed := by decide
  trips_keyed := by decide
  advances_keyed := by decide

/-- A month from the day of the seminar on. -/
def fromSeminar : Window := ⟨20552, 20582, false⟩

/-- A month from the day after. -/
def afterSeminar : Window := ⟨20553, 20583, false⟩

/-- What the sources are asked on the morning after the holiday. -/
def seminarCall (window : Window) : FetchCall :=
  ⟨1, window.start, window.stop, sourceCap, manilaInstant 20553 9⟩

theorem seminar_answers {window : Window} (hwindow : window ∈ [fromSeminar, afterSeminar]) :
    ∀ source ∈ deployedSources, ∃ r, source.fetch seminar (seminarCall window) = .ok r ∧
      r.capped = false ∧ ∀ e ∈ r.events, e.dateStart = 20552 := by
  simp only [deployedSources, List.forall_mem_cons, List.not_mem_nil, false_implies,
    implies_true, and_true]
  simp only [List.mem_cons, List.not_mem_nil, or_false] at hwindow
  obtain rfl | rfl := hwindow
  · exact ⟨⟨_, rfl, by decide +kernel, by decide +kernel⟩, ⟨_, rfl, by decide +kernel,
      by decide +kernel⟩, _, rfl, by decide +kernel, by decide +kernel⟩
  · exact ⟨⟨_, rfl, by decide +kernel, by decide +kernel⟩, ⟨_, rfl, by decide +kernel,
      by decide +kernel⟩, _, rfl, by decide +kernel, by decide +kernel⟩

/-- The holiday is flagged and named in a window that begins with it. -/
theorem seminar_flagged : ∃ registry agenda, registerAll deployedSources = .ok registry ∧
    collect codePoints (fun _ => none) kagitingan registry seminar 1 fromSeminar
      (manilaInstant 20553 9) sourceCap = .ok agenda ∧ agenda.Flagged codePoints kagitingan := by
  obtain ⟨registry, hreg, hmem⟩ := deployed_registered
  have hanswers : ∀ source ∈ usableSources (fun _ => none) (registeredSources registry), ∃ r,
      source.fetch seminar (seminarCall fromSeminar) = .ok r ∧ r.capped = false ∧
        ∀ e ∈ r.events, e.dateStart = 20552 := fun source hsource =>
    seminar_answers (by simp) source ((hmem source).1 (mem_usableSources.1 hsource).1)
  obtain ⟨agenda, hcollect, hiff⟩ := (agenda_matches_iff codePoints (fun _ => none) kagitingan
    deployedSources registry seminar 1 fromSeminar (manilaInstant 20553 9) sourceCap).1 hreg
    fun source hsource => by
      obtain ⟨r, hr, hshort, -⟩ := hanswers source hsource
      exact ⟨r, hr, hshort⟩
  refine ⟨registry, agenda, hreg, hcollect, (hiff.2 fun e he _ => ?_).2.2⟩
  obtain ⟨source, hsource, he⟩ := List.mem_flatMap.1 he
  obtain ⟨r, hr, -, hstart⟩ := hanswers source hsource
  have hfetch : source.fetch seminar ⟨1, fromSeminar.start, fromSeminar.stop, sourceCap,
      manilaInstant 20553 9⟩ = .ok r := hr
  rw [hfetch] at he
  rw [hstart e he]
  decide

/-- In a window that begins the day after, it is listed as a working day without a name. -/
theorem seminar_missed : ∃ registry agenda, registerAll deployedSources = .ok registry ∧
    collect codePoints (fun _ => none) kagitingan registry seminar 1 afterSeminar
      (manilaInstant 20553 9) sourceCap = .ok agenda ∧
    (∃ day ∈ agenda.days, day.day = 20552 ∧ day.isNonworking = false ∧
      day.nonworkingLabel = none) ∧
    isWorkingDay 20552 (holidayDates kagitingan) = false ∧
      ¬ agenda.Flagged codePoints kagitingan := by
  obtain ⟨registry, hreg, hmem⟩ := deployed_registered
  have hlisted : activitySource ∈ usableSources (fun _ => none) (registeredSources registry) :=
    mem_usableSources.2 ⟨(hmem _).2 (by simp [deployedSources]), rfl⟩
  have hanswers : ∀ source ∈ usableSources (fun _ => none) (registeredSources registry), ∃ r,
      source.fetch seminar (seminarCall afterSeminar) = .ok r ∧ r.capped = false ∧
        ∀ e ∈ r.events, e.dateStart = 20552 := fun source hsource =>
    seminar_answers (by simp) source ((hmem source).1 (mem_usableSources.1 hsource).1)
  obtain ⟨fetched, hmap, hrows⟩ := exists_fetched hanswers
  have hfetched : ∀ row ∈ fetched, row.1.fetch seminar (seminarCall afterSeminar) = .ok row.2 :=
    fun row hrow => (hrows row hrow).1
  have hevent : ∃ e ∈ eventsOf fetched, e.dateStart = 20552 := by
    rw [← contributed_eq hmap hfetched]
    refine ⟨seminarRow.event, List.mem_flatMap.2 ⟨_, hlisted, ?_⟩, rfl⟩
    decide +kernel
  obtain ⟨e, he, hstart⟩ := hevent
  obtain ⟨day, hday, hsame⟩ := exists_day codePoints kagitingan afterSeminar
    (manilaInstant 20553 9) he
  rw [hstart] at hsame
  obtain ⟨-, hlabel, hflag⟩ := mem_days hday
  rw [hsame, lookup_labels_outside codePoints kagitingan (by decide)] at hlabel
  refine ⟨registry, _, hreg, collect_eq_ok hmap hfetched, ⟨day, hday, hsame, ?_, hlabel⟩,
    by decide +kernel, fun hflagged => ?_⟩
  · rw [Bool.eq_false_iff, ne_eq, hflag, hlabel, hsame]
    decide
  · have hinside := flagged_iff.1 hflagged e he (by rw [hstart]; decide +kernel)
    rw [hstart] at hinside
    revert hinside
    decide

end OfficeConnect.Calendar
