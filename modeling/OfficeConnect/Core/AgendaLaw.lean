import OfficeConnect.Core.Agenda
import OfficeConnect.Lib.Returns

/-!
# What the agenda lists

The sources come in order of their keys, however they were registered, and a holiday's label is the
least of its names.  The days increase, and their events are the events of the sources, each once.
-/

namespace OfficeConnect

open Lib

/-! ## Labels -/

/-- The names of a date's active non-working rows. -/
def holidayNames (holidays : List NamedHoliday) (d : Day) : List String :=
  (holidays.filter fun h =>
    h.isActive ∧ h.holidayType ≠ .specialWorking ∧ h.calendarDate = d).map (·.name)

/-- The label of a day: the least of its names, and none where there is none. -/
def IsHolidayLabel (names : Collation) (holidays : List NamedHoliday) (d : Day) :
    Option String → Prop
  | none => holidayNames holidays d = []
  | some name => name ∈ holidayNames holidays d ∧
      ∀ other ∈ holidayNames holidays d, names.le name other = true

section

variable {names : Collation} {holidays holidays' : List NamedHoliday} {start stop d : ℤ}
  {label label' : Option String}

theorem mem_holidayNames {name : String} : name ∈ holidayNames holidays d ↔
    ∃ h ∈ holidays, (h.isActive = true ∧ h.holidayType ≠ .specialWorking) ∧
      h.calendarDate = d ∧ h.name = name := by
  simp only [holidayNames, List.mem_map, List.mem_filter, decide_eq_true_eq, and_assoc]

theorem IsHolidayLabel.perm (h : IsHolidayLabel names holidays d label)
    (hrows : holidays'.Perm holidays) : IsHolidayLabel names holidays' d label := by
  have hnames : (holidayNames holidays' d).Perm (holidayNames holidays d) :=
    (hrows.filter _).map _
  cases label with
  | none =>
      unfold IsHolidayLabel at h ⊢
      rw [h] at hnames
      exact hnames.eq_nil
  | some name =>
      exact ⟨hnames.mem_iff.2 h.1, fun other hother => h.2 other (hnames.mem_iff.1 hother)⟩

/-- A day has one label. -/
theorem IsHolidayLabel.unique (h : IsHolidayLabel names holidays d label)
    (h' : IsHolidayLabel names holidays d label') : label' = label := by
  cases label with
  | none =>
      cases label' with
      | none => rfl
      | some name' =>
          have hmem := h'.1
          rw [h] at hmem
          exact absurd hmem List.not_mem_nil
  | some name =>
      cases label' with
      | none =>
          have hmem := h.1
          rw [h'] at hmem
          exact absurd hmem List.not_mem_nil
      | some name' => rw [names.antisymm _ _ (h.2 _ h'.1) (h'.2 _ h.1)]

theorem before_sorted (names : Collation) (rows : List NamedHoliday) :
    (rows.insertionSort names.before).Pairwise names.before := by
  have : Std.Total names.before := ⟨fun a b => by
    unfold Collation.before
    rcases lt_trichotomy a.calendarDate b.calendarDate with h | h | h
    · exact .inl (.inl h)
    · rcases names.total a.name b.name with hname | hname
      · exact .inl (.inr ⟨h, hname⟩)
      · exact .inr (.inr ⟨h.symm, hname⟩)
    · exact .inr (.inl h)⟩
  have : IsTrans NamedHoliday names.before := ⟨fun a b c hab hbc => by
    rcases hab with hab | ⟨hab, hname⟩
    · rcases hbc with hbc | ⟨hbc, -⟩
      · exact .inl (hab.trans hbc)
      · exact .inl (hbc ▸ hab)
    · rcases hbc with hbc | ⟨hbc, hname'⟩
      · exact .inl (hab ▸ hbc)
      · exact .inr ⟨hab.trans hbc, names.trans _ _ _ hname hname'⟩⟩
  exact List.pairwise_insertionSort _ _

/-- The labels loaded for a window are those of its days. -/
theorem lookup_labels_inside (names : Collation) (holidays : List NamedHoliday)
    (hstart : start ≤ d) (hstop : d ≤ stop) : IsHolidayLabel names holidays d
      ((loadNonworkingLabels names holidays start stop).lookup d) := by
  set rows := (holidays.filter fun h => start ≤ h.calendarDate ∧ h.calendarDate ≤ stop ∧
    h.isActive ∧ h.holidayType ≠ .specialWorking).insertionSort names.before with hrows
  set pairs := rows.map fun h => (h.calendarDate, h.name) with hpairs
  have hlookup : (loadNonworkingLabels names holidays start stop).lookup d = pairs.lookup d := by
    unfold loadNonworkingLabels
    simp only [← hrows, ← hpairs, lookup_foldl_setDefault, List.nil_append]
  have hmem : ∀ name, (d, name) ∈ pairs ↔ name ∈ holidayNames holidays d := fun name => by
    simp only [hpairs, hrows, mem_holidayNames, List.mem_map, List.mem_insertionSort,
      List.mem_filter, decide_eq_true_eq, Prod.mk.injEq]
    constructor
    · rintro ⟨h, ⟨hh, -, -, hrow⟩, hdate, hname⟩
      exact ⟨h, hh, hrow, hdate, hname⟩
    · rintro ⟨h, hh, hrow, rfl, hname⟩
      exact ⟨h, ⟨hh, hstart, hstop, hrow⟩, rfl, hname⟩
  have hsorted : pairs.Pairwise fun a b => a.1 < b.1 ∨ a.1 = b.1 ∧ names.le a.2 b.2 = true :=
    List.pairwise_map.2 (before_sorted names _)
  rw [hlookup]
  cases hfound : pairs.lookup d with
  | none =>
      refine List.eq_nil_iff_forall_not_mem.2 fun name hname => ?_
      have hne := List.lookup_eq_none_iff.1 hfound _ ((hmem name).2 hname)
      simp at hne
  | some name =>
      obtain ⟨hpair, hfirst⟩ := lookup_of_pairwise hsorted hfound
      refine ⟨(hmem name).1 hpair, fun other hother => ?_⟩
      rcases hfirst other ((hmem other).2 hother) with rfl | hlt | ⟨-, hle⟩
      · exact (names.total other other).elim id id
      · exact absurd hlt (lt_irrefl d)
      · exact hle

/-- Outside the window no day has a label. -/
theorem lookup_labels_outside (names : Collation) (holidays : List NamedHoliday)
    (hout : ¬ (start ≤ d ∧ d ≤ stop)) :
    (loadNonworkingLabels names holidays start stop).lookup d = none := by
  unfold loadNonworkingLabels
  simp only [lookup_foldl_setDefault, List.nil_append]
  refine List.lookup_eq_none_iff.2 fun pair hpair => ?_
  obtain ⟨h, hh, rfl⟩ := List.mem_map.1 hpair
  simp only [List.mem_insertionSort, List.mem_filter, decide_eq_true_eq] at hh
  rw [bne_iff_ne]
  rintro rfl
  exact hout ⟨hh.2.1, hh.2.2.1⟩

/-- The order of the rows does not matter. -/
theorem lookup_labels_perm (names : Collation) (hrows : holidays'.Perm holidays) :
    (loadNonworkingLabels names holidays' start stop).lookup d =
      (loadNonworkingLabels names holidays start stop).lookup d := by
  by_cases hin : start ≤ d ∧ d ≤ stop
  · exact (lookup_labels_inside names holidays hin.1 hin.2).unique
      ((lookup_labels_inside names holidays' hin.1 hin.2).perm hrows.symm)
  · rw [lookup_labels_outside names holidays hin, lookup_labels_outside names holidays' hin]

end

namespace Calendar

variable {β : Type} [Setoid β]

/-! ## Registration -/

/-- A key names one source. -/
def OnePerKey (sources : List (CalendarSource β)) : Prop :=
  ∀ s ∈ sources, ∀ s' ∈ sources, s.key = s'.key → s = s'

section

variable {registry registry' : Registry β} {sources sources' : List (CalendarSource β)}
  {source s : CalendarSource β}

theorem registerSource_eq_ok : registerSource registry source = .ok registry' ↔
    (source.key ≠ "" ∧ Ingest.strip source.scopeRule ≠ "") ∧
      registry' = ⟨assign (·.key) registry.sources source, nodup_assign _ registry.keyed⟩ := by
  unfold registerSource
  split_ifs with hkey hrule
  · simp [hkey]
  · simp [hrule]
  · simp [hkey, hrule, eq_comm]

variable (registry) in
/-- Registration adds the sources, whatever the order. -/
theorem mem_foldlM_registerSource (hone : OnePerKey (registry.sources ++ sources))
    (h : sources.foldlM registerSource registry = .ok registry') :
    s ∈ registry'.sources ↔ s ∈ registry.sources ++ sources := by
  induction sources generalizing registry with
  | nil =>
      cases h
      rw [List.append_nil]
  | cons source sources ih =>
      rw [List.foldlM_cons] at h
      obtain ⟨mid, hmid, hrest⟩ := bind_eq_ok.1 h
      obtain ⟨-, rfl⟩ := registerSource_eq_ok.1 hmid
      have hsame : ∀ b ∈ registry.sources, b.key = source.key → b = source := fun b hb hkey =>
        hone b (List.mem_append_left _ hb) source (by simp) hkey
      have hassign : ∀ b, b ∈ assign (·.key) registry.sources source ++ sources ↔
          b ∈ registry.sources ++ source :: sources := fun b => by
        rw [List.mem_append, mem_assign (fun s : CalendarSource β => s.key) hsame, List.mem_append,
          List.mem_cons, or_assoc]
      rw [ih _ (fun b hb b' hb' => hone b ((hassign b).1 hb) b' ((hassign b').1 hb')) hrest]
      exact hassign s

theorem returns_foldlM_registerSource (registry : Registry β)
    (h : ∀ s ∈ sources, s.key ≠ "" ∧ Ingest.strip s.scopeRule ≠ "") :
    ∃ registry', sources.foldlM registerSource registry = .ok registry' := by
  induction sources generalizing registry with
  | nil => exact ⟨registry, rfl⟩
  | cons source sources ih =>
      obtain ⟨hsource, hrest⟩ := List.forall_mem_cons.1 h
      obtain ⟨registry', hall⟩ := ih ⟨_, nodup_assign _ registry.keyed⟩ hrest
      refine ⟨registry', ?_⟩
      rw [List.foldlM_cons]
      exact bind_eq_ok.2 ⟨_, registerSource_eq_ok.2 ⟨hsource, rfl⟩, hall⟩

theorem registrable_of_foldlM (h : sources.foldlM registerSource registry = .ok registry') :
    ∀ s ∈ sources, s.key ≠ "" ∧ Ingest.strip s.scopeRule ≠ "" := by
  induction sources generalizing registry with
  | nil => simp
  | cons source sources ih =>
      rw [List.foldlM_cons] at h
      obtain ⟨mid, hmid, hrest⟩ := bind_eq_ok.1 h
      exact List.forall_mem_cons.2 ⟨(registerSource_eq_ok.1 hmid).1, ih hrest⟩

/-- The same sources registered in another order, or more than once, are the same registry. -/
theorem registeredSources_congr (hone : OnePerKey sources)
    (hset : ∀ s, s ∈ sources' ↔ s ∈ sources) (h : registerAll sources = .ok registry) :
    ∃ registry', registerAll sources' = .ok registry' ∧
      registeredSources registry' = registeredSources registry := by
  obtain ⟨registry', h'⟩ := returns_foldlM_registerSource Registry.empty fun s hs =>
    registrable_of_foldlM h s ((hset s).1 hs)
  have hone' : OnePerKey sources' := fun s hs s' hs' =>
    hone s ((hset s).1 hs) s' ((hset s').1 hs')
  refine ⟨registry', h', sortBy_congr _ registry.keyed ?_⟩
  refine (List.perm_ext_iff_of_nodup registry'.keyed.of_map registry.keyed.of_map).2 fun s => ?_
  rw [mem_foldlM_registerSource Registry.empty hone' h',
    mem_foldlM_registerSource Registry.empty hone h]
  exact hset s

theorem nodup_usableSources (flags : String → Option FeatureFlag) (registry : Registry β) :
    ((usableSources flags (registeredSources registry)).map (·.key)).Nodup := by
  refine List.Nodup.sublist (List.filter_sublist.map _) ?_
  exact ((sortBy_perm _ registry.sources).map _).nodup_iff.2 registry.keyed

end

/-! ## Windows -/

/-- A window is in order and at most the ceiling long; only one cut short is clamped. -/
theorem resolveWindow_bounds {start stop : Option Day} {now : Time} {window : Window}
    (h : resolveWindow start stop now = .ok window) :
    window.start ≤ window.stop ∧ window.stop ≤ window.start + maxWindowDays ∧
      (window.clamped = false → window.stop = stop.getD (window.start + defaultWindowDays)) := by
  unfold resolveWindow at h
  simp only at h
  split_ifs at h with hlate hlong
  · cases h
    exact ⟨le_add_of_nonneg_right (by decide), le_rfl, fun hclamped => by cases hclamped⟩
  · cases h
    exact ⟨not_lt.1 hlate, not_lt.1 hlong, fun _ => rfl⟩

/-! ## The answers -/

section

variable {sources : List (CalendarSource β)} {t t' : β} {call : FetchCall}
  {fetched fetched' : List (CalendarSource β × SourceResult)}

/-- Each source with its answer. -/
theorem fetch_eq_ok : (sources.mapM fun source => do
      let result ← source.fetch t call
      return (source, result)) = .ok fetched ↔
    fetched.map Prod.fst = sources ∧ ∀ row ∈ fetched, row.1.fetch t call = .ok row.2 := by
  induction sources generalizing fetched with
  | nil =>
      rw [List.mapM_nil, pure_eq_ok]
      constructor
      · rintro rfl
        simp
      · rintro ⟨hmap, -⟩
        exact (List.map_eq_nil_iff.1 hmap).symm
  | cons source sources ih =>
      rw [List.mapM_cons]
      simp only [bind_eq_ok, pure_eq_ok]
      constructor
      · rintro ⟨row, ⟨result, hfetch, rfl⟩, rest, hrest, rfl⟩
        obtain ⟨hmap, hrows⟩ := ih.1 hrest
        exact ⟨by rw [List.map_cons, hmap], List.forall_mem_cons.2 ⟨hfetch, hrows⟩⟩
      · rintro ⟨hmap, hrows⟩
        cases fetched with
        | nil => cases hmap
        | cons row rest =>
            obtain ⟨rfl, hmap'⟩ := List.cons.inj hmap
            obtain ⟨hfetch, hrest⟩ := List.forall_mem_cons.1 hrows
            exact ⟨row, ⟨row.2, hfetch, rfl⟩, rest, ih.2 ⟨hmap', hrest⟩, rfl⟩

theorem exists_fetched {P : SourceResult → Prop}
    (h : ∀ source ∈ sources, ∃ r, source.fetch t call = .ok r ∧ P r) :
    ∃ fetched : List (CalendarSource β × SourceResult), fetched.map Prod.fst = sources ∧
      ∀ row ∈ fetched, row.1.fetch t call = .ok row.2 ∧ P row.2 := by
  induction sources with
  | nil => exact ⟨[], rfl, by simp⟩
  | cons source sources ih =>
      obtain ⟨⟨result, hresult⟩, hrest⟩ := List.forall_mem_cons.1 h
      obtain ⟨rest, hmap, hrows⟩ := ih hrest
      exact ⟨(source, result) :: rest, by rw [List.map_cons, hmap],
        List.forall_mem_cons.2 ⟨hresult, hrows⟩⟩

/-- Where every usable source answers, the answers are assembled. -/
theorem collect_eq_ok {names : Collation} {flags : String → Option FeatureFlag}
    {holidays : List NamedHoliday} {registry : Registry β} {actorUserId cap : ℕ} {window : Window}
    {now : Time} (hmap : fetched.map Prod.fst = usableSources flags (registeredSources registry))
    (hrows : ∀ row ∈ fetched,
      row.1.fetch t ⟨actorUserId, window.start, window.stop, cap, now⟩ = .ok row.2) :
    collect names flags holidays registry t actorUserId window now cap =
      .ok (assemble names holidays window now fetched) := by
  unfold collect
  simp only [fetch_eq_ok.2 ⟨hmap, hrows⟩, ok_bind]
  rfl

/-- The rows of all answers. -/
def eventsOf (fetched : List (CalendarSource β × SourceResult)) : List CalendarEvent :=
  fetched.flatMap fun row => row.2.events

/-- The events the sources contribute. -/
def contributed (sources : List (CalendarSource β)) (t : β) (call : FetchCall) :
    List CalendarEvent :=
  sources.flatMap fun source =>
    match source.fetch t call with
    | .ok result => result.events
    | .error _ => []

theorem contributed_eq (hmap : fetched.map Prod.fst = sources)
    (hrows : ∀ row ∈ fetched, row.1.fetch t call = .ok row.2) :
    contributed sources t call = eventsOf fetched := by
  rw [← hmap, contributed, List.flatMap_map]
  refine List.flatMap_congr fun row hrow => ?_
  rw [hrows row hrow]

/-- No two events have the key. -/
theorem nodup_sortKey (hkeys : ((fetched.map Prod.fst).map (·.key)).Nodup)
    (hrows : ∀ row ∈ fetched, row.1.fetch t call = .ok row.2) :
    ((eventsOf fetched).map sortKey).Nodup := by
  have hpairs : ((eventsOf fetched).map fun e => (e.source, e.ref)).Nodup := by
    rw [eventsOf, List.map_flatMap, List.nodup_flatMap]
    constructor
    · intro row hrow
      have hrefs := row.1.distinct (hrows row hrow)
      refine List.Nodup.of_map Prod.snd ?_
      rwa [List.map_map]
    · rw [List.map_map, List.Nodup, List.pairwise_map] at hkeys
      refine hkeys.imp_of_mem fun {row row'} hrow hrow' hne pair hpair hpair' => ?_
      obtain ⟨e, he, rfl⟩ := List.mem_map.1 hpair
      obtain ⟨e', he', heq⟩ := List.mem_map.1 hpair'
      have hsource := row.1.sourced (hrows row hrow) e he
      have hsource' := row'.1.sourced (hrows row' hrow') e' he'
      exact hne (hsource.symm.trans ((Prod.mk.inj heq).1.symm.trans hsource'))
  refine List.Nodup.of_map (fun k => ofLex (ofLex k).2) ?_
  rwa [List.map_map]

/-- Answers that differ in the order of the rows. -/
def SameAnswer (row row' : CalendarSource β × SourceResult) : Prop :=
  row'.1 = row.1 ∧ row'.2.events.Perm row.2.events ∧ row'.2.total = row.2.total ∧
    row'.2.boundedNote = row.2.boundedNote

theorem reportOf_same {row row' : CalendarSource β × SourceResult} (h : SameAnswer row row') :
    reportOf row' = reportOf row := by
  obtain ⟨hsource, hevents, htotal, hnote⟩ := h
  simp only [reportOf, hsource, htotal, hnote, hevents.length_eq]

theorem eventsOf_same (h : List.Forall₂ SameAnswer fetched fetched') :
    (eventsOf fetched').Perm (eventsOf fetched) := by
  induction h with
  | nil => rfl
  | cons hrow _ ih =>
      rw [eventsOf, List.flatMap_cons, eventsOf, List.flatMap_cons]
      exact hrow.2.1.append ih

theorem map_same {γ : Type} {f : CalendarSource β × SourceResult → γ}
    (hf : ∀ row row', SameAnswer row row' → f row' = f row)
    (h : List.Forall₂ SameAnswer fetched fetched') : fetched'.map f = fetched.map f := by
  induction h with
  | nil => rfl
  | cons hrow _ ih => rw [List.map_cons, List.map_cons, hf _ _ hrow, ih]

/-- Asked again, with the rows in another order, short of their caps, the sources answer the same. -/
theorem exists_sameAnswers (ht : t' ≈ t)
    (hrows : ∀ row ∈ fetched, row.1.fetch t call = .ok row.2 ∧ row.2.capped = false) :
    ∃ fetched', List.Forall₂ SameAnswer fetched fetched' ∧
      fetched'.map Prod.fst = fetched.map Prod.fst ∧
      ∀ row ∈ fetched', row.1.fetch t' call = .ok row.2 := by
  have hanswers : ∃ fetched', List.Forall₂ (fun row row' : CalendarSource β × SourceResult =>
      row'.1.fetch t' call = .ok row'.2 ∧ SameAnswer row row') fetched fetched' :=
    exists_forall₂.2 fun row hrow => by
      obtain ⟨result', hfetch, hsame⟩ := row.1.reordered ht (hrows row hrow).1 (hrows row hrow).2
      exact ⟨(row.1, result'), hfetch, rfl, hsame⟩
  obtain ⟨fetched', h⟩ := hanswers
  have hsame : List.Forall₂ SameAnswer fetched fetched' := h.imp fun _ _ h => h.2
  refine ⟨fetched', hsame, map_same (fun _ _ h => h.1) hsame, ?_⟩
  exact (List.forall₂_and_left _ _ |>.1 (List.Forall₂.flip h)).1

end

/-! ## The days -/

/-- The days increase and hold the events, each once, sorted by source and reference. -/
structure Agenda.Lists (agenda : Agenda) (events : List CalendarEvent) : Prop where
  increasing : (agenda.days.map (·.day)).Pairwise (· < ·)
  conserved : (agenda.days.flatMap (·.events)).Perm events
  sorted : ∀ day ∈ agenda.days, day.events ≠ [] ∧ (∀ e ∈ day.events, e.dateStart = day.day) ∧
    day.events.Pairwise fun a b => toLex (a.source, a.ref) ≤ toLex (b.source, b.ref)

section

variable {names : Collation} {holidays holidays' : List NamedHoliday} {window : Window} {now : Time}
  {fetched fetched' : List (CalendarSource β × SourceResult)}

/-- A day for every date an event starts on, with the events of the date. -/
theorem exists_days (names : Collation) (holidays : List NamedHoliday) (window : Window) (now : Time)
    (fetched : List (CalendarSource β × SourceResult)) : ∃ order : List Day,
    order.Pairwise (· < ·) ∧ (∀ d, d ∈ order ↔ ∃ e ∈ eventsOf fetched, e.dateStart = d) ∧
      (assemble names holidays window now fetched).days = order.map fun d =>
        dayOf (manilaDate now) (loadNonworkingLabels names holidays window.start window.stop)
          (bucket (·.dateStart) (sortBy sortKey (eventsOf fetched)) d) := by
  obtain ⟨order, hlt, hcover, hsorted⟩ :=
    exists_sorted_buckets (·.dateStart) (sortBy sortKey (eventsOf fetched))
  refine ⟨order, hlt, fun d => ?_, ?_⟩
  · simp only [hcover, (sortBy_perm sortKey (eventsOf fetched)).mem_iff]
  · rw [eventsOf] at hsorted ⊢
    simp only [assemble, hsorted, List.map_map]
    rfl

theorem assemble_lists :
    (assemble names holidays window now fetched).Lists (eventsOf fetched) := by
  obtain ⟨order, hlt, hcover, hdays⟩ := exists_days names holidays window now fetched
  set merged := sortBy sortKey (eventsOf fetched) with hmerged
  have hperm : merged.Perm (eventsOf fetched) := sortBy_perm sortKey _
  refine ⟨?_, ?_, fun day hday => ?_⟩
  · rw [hdays, List.map_map]
    exact (List.map_id order).symm ▸ hlt
  · rw [hdays, List.flatMap_map]
    refine (flatMap_bucket_perm (·.dateStart) (hlt.imp fun h => h.ne) fun e he => ?_).trans hperm
    exact (hcover _).2 ⟨e, hperm.mem_iff.1 he, rfl⟩
  · rw [hdays] at hday
    obtain ⟨d, hd, rfl⟩ := List.mem_map.1 hday
    obtain ⟨e, he, hstart⟩ := (hcover d).1 hd
    have hin : ∀ e, e ∈ (bucket (·.dateStart) merged d).2 ↔ e ∈ merged ∧ e.dateStart = d :=
      fun e => by simp [bucket]
    refine ⟨List.ne_nil_of_mem ((hin e).2 ⟨hperm.mem_iff.2 he, hstart⟩),
      fun e he => ((hin e).1 he).2, ?_⟩
    refine ((sortBy_sorted sortKey _).filter _).imp_of_mem fun {a b} ha hb hle => ?_
    rcases Prod.Lex.toLex_le_toLex.1 hle with hlt | ⟨-, hrest⟩
    · rw [((hin a).1 ha).2, ((hin b).1 hb).2] at hlt
      exact absurd hlt (lt_irrefl d)
    · exact hrest

/-- What a listed day is flagged with. -/
theorem mem_days {day : AgendaDay} (h : day ∈ (assemble names holidays window now fetched).days) :
    (∃ e ∈ eventsOf fetched, e.dateStart = day.day) ∧
      day.nonworkingLabel =
        (loadNonworkingLabels names holidays window.start window.stop).lookup day.day ∧
      (day.isNonworking = true ↔ weekday day.day = 5 ∨ weekday day.day = 6 ∨
        day.nonworkingLabel.isSome = true) := by
  obtain ⟨order, -, hcover, hdays⟩ := exists_days names holidays window now fetched
  rw [hdays] at h
  obtain ⟨d, hd, rfl⟩ := List.mem_map.1 h
  exact ⟨(hcover d).1 hd, rfl, decide_eq_true_iff⟩

variable (names holidays window now) in
theorem exists_day {e : CalendarEvent} (he : e ∈ eventsOf fetched) :
    ∃ day ∈ (assemble names holidays window now fetched).days, day.day = e.dateStart := by
  obtain ⟨order, -, hcover, hdays⟩ := exists_days names holidays window now fetched
  rw [hdays]
  exact ⟨_, List.mem_map_of_mem ((hcover _).2 ⟨e, he, rfl⟩), rfl⟩

/-- The order of the rows changes nothing. -/
theorem assemble_congr (hkeys : ((eventsOf fetched).map sortKey).Nodup)
    (hrows : holidays'.Perm holidays) (h : List.Forall₂ SameAnswer fetched fetched') :
    assemble names holidays' window now fetched' = assemble names holidays window now fetched := by
  have hmerged := sortBy_congr sortKey hkeys (eventsOf_same h)
  have hreports : fetched'.map reportOf = fetched.map reportOf :=
    map_same (fun _ _ => reportOf_same) h
  have hday : dayOf (manilaDate now)
      (loadNonworkingLabels names holidays' window.start window.stop) =
        dayOf (manilaDate now) (loadNonworkingLabels names holidays window.start window.stop) := by
    funext group
    simp only [dayOf, lookup_labels_perm names hrows]
  rw [eventsOf, eventsOf] at hmerged
  simp only [assemble, hmerged, hreports, hday]

end

end Calendar

end OfficeConnect
