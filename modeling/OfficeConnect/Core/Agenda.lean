import Mathlib.Data.String.Basic
import OfficeConnect.Core.Workdays
import OfficeConnect.Ingest.Values
import OfficeConnect.Lib.Dicts

/-!
# The calendar of activities

Every registered source contributes the events of a window.  They are merged, sorted and grouped by
the day they start on, and each listed day is flagged by the holidays of the window.
-/

namespace OfficeConnect

open Lib

/-! ## Holiday labels -/

structure NamedHoliday extends Holiday where
  name : String
deriving DecidableEq, Repr

/-- How the database orders names. -/
structure Collation where
  le : String → String → Bool
  total : ∀ a b, le a b = true ∨ le b a = true
  trans : ∀ a b c, le a b = true → le b c = true → le a c = true
  antisymm : ∀ a b, le a b = true → le b a = true → a = b

/-- Names in order of their code points. -/
def codePoints : Collation where
  le a b := decide (a ≤ b)
  total a b := by simpa using le_total a b
  trans a b c hab hbc := by simpa using le_trans (of_decide_eq_true hab) (of_decide_eq_true hbc)
  antisymm a b hab hba := le_antisymm (of_decide_eq_true hab) (of_decide_eq_true hba)

/-- By date, then by name. -/
def Collation.before (names : Collation) (a b : NamedHoliday) : Prop :=
  a.calendarDate < b.calendarDate ∨
    a.calendarDate = b.calendarDate ∧ names.le a.name b.name = true

instance (names : Collation) : DecidableRel names.before := fun a b =>
  inferInstanceAs (Decidable (a.calendarDate < b.calendarDate ∨ _ ∧ names.le a.name b.name = true))

/-- The first name of each date among the active non-working rows in `[start, stop]`. -/
def loadNonworkingLabels (names : Collation) (holidays : List NamedHoliday) (start stop : Day) :
    List (Day × String) :=
  let rows := (holidays.filter fun h =>
    start ≤ h.calendarDate ∧ h.calendarDate ≤ stop ∧ h.isActive ∧
      h.holidayType ≠ .specialWorking).insertionSort names.before
  (rows.map fun h => (h.calendarDate, h.name)).foldl setDefault []

namespace Calendar

/-! ## Events and sources -/

inductive Tone where
  | done | warn | blocked | waiting
deriving DecidableEq, Repr

inductive Urgency where
  | dueSoon | overdue
deriving DecidableEq, Repr

structure CalendarEvent where
  source : String
  ref : String
  title : String
  dateStart : Day
  dateEnd : Option Day := none
  detail : Option String := none
  status : Option String := none
  statusLabel : Option String := none
  tone : Option Tone := none
  urgency : Option Urgency := none
  href : Option String := none
  activityId : Option ℕ := none
deriving DecidableEq, Repr

structure SourceResult where
  events : List CalendarEvent
  total : ℕ
  boundedNote : Option String := none
  capped : Bool := false
deriving DecidableEq, Repr

/-- What a source is asked. -/
structure FetchCall where
  actorUserId : ℕ
  start : Day
  stop : Day
  cap : ℕ
  now : Time

/-- A contributor to the agenda, over tables `β`; related tables hold the same rows in another
order.  Its events carry its key and an identity within it, and short of its cap it contributes the
same events whatever order the rows are in. -/
structure CalendarSource (β : Type) [Setoid β] where
  key : String
  label : String
  fetch : β → FetchCall → Except Raised SourceResult
  featureFlag : Option String := none
  scopeRule : String := ""
  sourced : ∀ {t call r}, fetch t call = .ok r → ∀ e ∈ r.events, e.source = key
  distinct : ∀ {t call r}, fetch t call = .ok r → (r.events.map (·.ref)).Nodup
  reordered : ∀ {t t' call r}, t' ≈ t → fetch t call = .ok r → r.capped = false →
    ∃ r', fetch t' call = .ok r' ∧ r'.events.Perm r.events ∧ r'.total = r.total ∧
      r'.boundedNote = r.boundedNote

variable {β : Type} [Setoid β]

/-! ## The registry -/

/-- The sources by key, in the order their keys came in. -/
structure Registry (β : Type) [Setoid β] where
  sources : List (CalendarSource β)
  keyed : (sources.map (·.key)).Nodup

def Registry.empty : Registry β := ⟨[], List.nodup_nil⟩

/-- A second source of a key replaces the first. -/
def registerSource (registry : Registry β) (source : CalendarSource β) :
    Except Raised (Registry β) :=
  if source.key = "" then
    .error (.valueError "a calendar source must declare a non-empty `key`")
  else if Ingest.strip source.scopeRule = "" then
    .error (.valueError ("calendar source '" ++ source.key ++ "' must declare a non-empty " ++
      "`scope_rule` — the name of the exact rule it applies. A source " ++
      "with no declared rule is how a calendar leaks (api-standards §9k)."))
  else .ok ⟨assign (·.key) registry.sources source, nodup_assign _ registry.keyed⟩

/-- Registrations one after the other. -/
def registerAll (sources : List (CalendarSource β)) : Except Raised (Registry β) :=
  sources.foldlM registerSource Registry.empty

/-- Every registered source, sorted by key. -/
def registeredSources (registry : Registry β) : List (CalendarSource β) :=
  sortBy (·.key) registry.sources

/-! ## Feature flags -/

structure FeatureFlag where
  enabled : Bool
  isActive : Bool

/-- The live row of a key, if there is one, decides. -/
def featureEnabled (flags : String → Option FeatureFlag) (flagKey : String) : Bool :=
  (flags flagKey).any fun row => row.enabled && row.isActive

/-- The sources whose flag is on. -/
def usableSources (flags : String → Option FeatureFlag) (sources : List (CalendarSource β)) :
    List (CalendarSource β) :=
  sources.filter fun source => source.featureFlag.all (featureEnabled flags)

/-! ## Windows -/

def defaultWindowDays : ℤ := 30

def maxWindowDays : ℤ := 92

def sourceCap : ℕ := 200

structure Window where
  start : Day
  stop : Day
  clamped : Bool
deriving DecidableEq, Repr

/-- Fill in and bound the requested window. -/
def resolveWindow (start stop : Option Day) (now : Time) : Except Raised Window :=
  let first := start.getD (manilaDate now)
  let last := stop.getD (first + defaultWindowDays)
  let ceiling := first + maxWindowDays
  if last < first then
    .error (.valueError "The start date must be on or before the end date.")
  else if ceiling < last then .ok ⟨first, ceiling, true⟩
  else .ok ⟨first, last, false⟩

/-! ## The merge -/

structure AgendaDay where
  day : Day
  isToday : Bool
  isNonworking : Bool
  nonworkingLabel : Option String
  events : List CalendarEvent
deriving DecidableEq, Repr

structure SourceReport where
  key : String
  label : String
  count : ℕ
  total : ℕ
  boundedNote : Option String
deriving DecidableEq, Repr

structure Agenda where
  days : List AgendaDay
  total : ℕ
  window : Window
  sources : List SourceReport
  today : Day
deriving DecidableEq, Repr

def sortKey (event : CalendarEvent) : Day ×ₗ String ×ₗ String :=
  toLex (event.dateStart, toLex (event.source, event.ref))

def reportOf (fetched : CalendarSource β × SourceResult) : SourceReport where
  key := fetched.1.key
  label := fetched.1.label
  count := fetched.2.events.length
  total := fetched.2.total
  boundedNote := fetched.2.boundedNote

/-- A day of the agenda; only a row has a name. -/
def dayOf (today : Day) (labels : List (Day × String)) (group : Day × List CalendarEvent) :
    AgendaDay where
  day := group.1
  isToday := group.1 = today
  isNonworking := weekday group.1 = 5 ∨ weekday group.1 = 6 ∨ (labels.lookup group.1).isSome
  nonworkingLabel := labels.lookup group.1
  events := group.2

/-- The results merged, sorted, and grouped by day. -/
def assemble (names : Collation) (holidays : List NamedHoliday) (window : Window) (now : Time)
    (fetched : List (CalendarSource β × SourceResult)) : Agenda :=
  let today := manilaDate now
  let reports := fetched.map reportOf
  let merged := sortBy sortKey (fetched.flatMap fun row => row.2.events)
  let labels := loadNonworkingLabels names holidays window.start window.stop
  let grouped := buckets (·.dateStart) merged
  { days := (sortBy Prod.fst grouped).map (dayOf today labels)
    total := (reports.map (·.total)).sum
    window := window
    sources := reports
    today := today }

/-- Ask every usable source and assemble the answers.  A source that raises is not swallowed. -/
def collect (names : Collation) (flags : String → Option FeatureFlag)
    (holidays : List NamedHoliday) (registry : Registry β) (t : β) (actorUserId : ℕ)
    (window : Window) (now : Time) (cap : ℕ) : Except Raised Agenda := do
  let call : FetchCall := ⟨actorUserId, window.start, window.stop, cap, now⟩
  let fetched ← (usableSources flags (registeredSources registry)).mapM fun source => do
    let result ← source.fetch t call
    return (source, result)
  return assemble names holidays window now fetched

end Calendar

end OfficeConnect
