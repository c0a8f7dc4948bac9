import OfficeConnect.Core.Context
import OfficeConnect.Lib.Returns
import OfficeConnect.Reimbursement.Config

/-!
# The per-diem computation

A trip is a span of days.  Each day is paid at the rate of its region's cluster as of that day, split
into lodging, meals and incidentals; the last leg of a date controls the day, and a day without legs
carries the region of the day before.  Products, quotients and sums keep the 28 digits of `Decimal`.
-/

namespace OfficeConnect.Reimbursement

open Lib

/-! ## Errors -/

def noComputableDays : Raised :=
  .api 422 "reimb_no_computable_days"
    "The claim has no computable travel days — add itinerary legs or fix the trip dates."

def legDateRequired (seq : ℤ) : Raised :=
  .api 422 "reimb_leg_date_required" s!"Itinerary leg #{seq} has no date — every leg needs one."

def legOutsideTripDates (legDate : Day) : Raised :=
  .api 422 "reimb_leg_outside_trip_dates"
    ("Itinerary leg on " ++ isoDate legDate ++
      " falls outside the claim's departure/return dates.")

def missingRegionCluster (day : Day) (regionCode : Option String) : Raised :=
  let place := match regionCode with
    | none | some "" => "no destination region"
    | some code => "region '" ++ code ++ "'"
  .api 422 "reimb_missing_region_cluster"
    ("No EO 77 cluster mapping for " ++ place ++ " as of " ++ isoDate day ++
      " — set the destination region on the claim or its legs.")

def missingDteRate (cluster : String) (day : Day) : Raised :=
  .api 422 "reimb_missing_dte_rate"
    ("No DTE daily rate for cluster " ++ cluster ++ " as of " ++ isoDate day ++ ".")

def configMissing (key : String) (day : Day) : Raised :=
  .api 422 "reimb_config_missing"
    ("Required config '" ++ key ++ "' has no row effective on " ++ isoDate day ++ ".")

def configInvalid (key message : String) : Raised :=
  .api 422 "reimb_config_invalid" s!"Config '{key}' is invalid: {message}"

def govVehicleFare (seq : ℤ) : Raised :=
  .api 422 "reimb_gov_vehicle_fare"
    (s!"Itinerary leg #{seq} uses a government vehicle but has a fare — " ++
      "government-vehicle legs cannot claim fare (EO 77). Remove the fare " ++
      "or change the transport mode.")

/-! ## Inputs -/

inductive TransportMode where
  | plane | bus | boat | taxi | rideHail | govVehicle | other
deriving DecidableEq, Repr

def TransportMode.text : TransportMode → String
  | plane => "plane"
  | bus => "bus"
  | boat => "boat"
  | taxi => "taxi"
  | rideHail => "ride_hail"
  | govVehicle => "gov_vehicle"
  | other => "other"

structure LegInput where
  id : Option ℕ
  seq : ℤ
  legDate : Option Day
  destinationRegionCode : Option String
  transportMode : Option TransportMode
  fare : Option ℤ
  lodgingProvided : Bool := false
  mealsProvided : Bool := false
deriving DecidableEq, Repr

structure RegionRow where
  regionCode : String
  cluster : String
  effectiveFrom : Day
deriving DecidableEq, Repr

structure RateRow where
  cluster : String
  dailyRate : ℤ
  effectiveFrom : Day
deriving DecidableEq, Repr

/-! ## Results -/

inductive DayType where
  | arrival | full | return | sameDay
deriving DecidableEq, Repr

inductive Component where
  | lodging | meals | incidentals
deriving DecidableEq, Repr

structure DayBreakdown where
  day : Day
  dayType : DayType
  legId : Option ℕ
  regionCode : String
  cluster : String
  dailyRate : ℤ
  pct : ℤ
  components : List (Component × ℤ)
  deductions : List (Component × ℤ)
  amount : ℤ
  gated50km : Bool
deriving DecidableEq, Repr

structure PerDiemResult where
  days : List DayBreakdown
  perDiemTotal : ℤ
  transportTotal : ℤ
deriving DecidableEq, Repr

/-- The percentage and amount attributed to a leg: those of the day it controls, else nothing. -/
def PerDiemResult.legValue (r : PerDiemResult) (id : ℕ) : ℤ × ℤ :=
  match r.days.find? (·.legId = some id) with
  | some d => (d.pct, d.amount)
  | none => (0, 0)

/-! ## The config of a day -/

def apportionmentKey : String := "per_diem.apportionment"

def departureRateKey : String := "per_diem.departure_day_rate"

def configAsOf (configs : List ConfigRow) (key : String) (day : Day) : Option ConfigRow :=
  asOf (·.effectiveFrom) (·.key = key) day configs

structure Apportionment where
  lodging : ℤ
  meals : ℤ
  incidentals : ℤ
deriving DecidableEq, Repr

def Apportionment.pct (a : Apportionment) : Component → ℤ
  | .lodging => a.lodging
  | .meals => a.meals
  | .incidentals => a.incidentals

def apportionment (configs : List ConfigRow) (day : Day) : Except Raised Apportionment := do
  let row ← found (configAsOf configs apportionmentKey day) (configMissing apportionmentKey day)
  let unreadable := configInvalid apportionmentKey
    "needs integer lodging/meals/incidentals percents."
  let lodging ← found (row.int? "lodging") unreadable
  let meals ← found (row.int? "meals") unreadable
  let incidentals ← found (row.int? "incidentals") unreadable
  refuse (lodging + meals + incidentals ≠ 100)
    (configInvalid apportionmentKey "percents must sum to 100.")
  return { lodging, meals, incidentals }

def departurePct (configs : List ConfigRow) (day : Day) (a : Apportionment) : Except Raised ℤ := do
  let row ← found (configAsOf configs departureRateKey day) (configMissing departureRateKey day)
  let pct ← found (row.int? "pct") (configInvalid departureRateKey "needs an integer 'pct'.")
  refuse (pct ≠ a.meals + a.incidentals)
    (configInvalid departureRateKey ("the departure-day pct must equal meals + incidentals " ++
      "(the day has no lodging component)."))
  return pct

/-! ## One day -/

/-- What every day of the trip is computed from. -/
structure Journey where
  legs : List LegInput
  first : Day
  last : Day
  claimRegionCode : Option String
  gated : Bool
  regions : List RegionRow
  rates : List RateRow
  configs : List ConfigRow

/-- The leg with the greatest `(seq, id)` among those dated `day`; the first one on a tie. -/
def controlling (legs : List LegInput) (day : Day) : Option LegInput :=
  (legs.filter (·.legDate = some day)).foldl
    (fun best leg =>
      match best with
      | none => some leg
      | some b =>
          if b.seq < leg.seq ∨ b.seq = leg.seq ∧ b.id.getD 0 < leg.id.getD 0 then some leg
          else some b)
    none

/-- The controlling leg's own region; a legless day keeps the region of the day before. -/
def dayRegion (trip : Journey) (leg : Option LegInput) (prevRegion : Option String) : Option String :=
  match leg with
  | some l => if blank l.destinationRegionCode then trip.claimRegionCode
      else l.destinationRegionCode
  | none => match prevRegion with
      | some region => some region
      | none => trip.claimRegionCode

def dayType (trip : Journey) (day : Day) : DayType :=
  if trip.last = trip.first then .sameDay
  else if day = trip.first then .arrival
  else if day = trip.last then .return
  else .full

/-- A day without a night has no lodging component. -/
def dayComponents : DayType → List Component
  | .arrival | .full => [.lodging, .meals, .incidentals]
  | .return | .sameDay => [.meals, .incidentals]

/-- What a day of a type is paid of its rate, before any strip. -/
def dayPct (type : DayType) (departure : ℤ) : ℤ :=
  match type with
  | .sameDay | .return => departure
  | .arrival | .full => 100

/-- The components the host provides. -/
def provided (leg : Option LegInput) (c : Component) : Bool :=
  match leg with
  | none => false
  | some l => match c with
      | .lodging => l.lodgingProvided
      | .meals => l.mealsProvided
      | .incidentals => false

def computeDay (trip : Journey) (day : Day) (prevRegion : Option String) :
    Except Raised DayBreakdown := do
  let leg := controlling trip.legs day
  let region ← found (dayRegion trip leg prevRegion) (missingRegionCluster day none)
  let regionRow ← found (asOf (·.effectiveFrom) (·.regionCode = region) day trip.regions)
    (missingRegionCluster day region)
  let rateRow ← found (asOf (·.effectiveFrom) (·.cluster = regionRow.cluster) day trip.rates)
    (missingDteRate regionRow.cluster day)
  let parts ← apportionment trip.configs day
  let departure ← departurePct trip.configs day parts
  let type := dayType trip day
  let gross ← (dayComponents type).mapM fun c => do
    let value ← quantize (Decimal.inContext (rateRow.dailyRate * parts.pct c) / 10000)
    return (c, value)
  let components := if trip.gated then [] else gross.filter fun c => ¬ provided leg c.1
  let deductions := if trip.gated then [] else gross.filter fun c => provided leg c.1
  let amount ← sumMoney (components.map (·.2))
  return {
    day := day
    dayType := type
    legId := leg.bind (·.id)
    regionCode := region
    cluster := regionRow.cluster
    dailyRate := rateRow.dailyRate
    pct := if trip.gated then 0 else dayPct type departure
    components := components
    deductions := deductions
    amount := amount
    gated50km := trip.gated }

/-- The loop over the days of the trip. -/
def computeDays (trip : Journey) : List Day → Option String → Except Raised (List DayBreakdown)
  | [], _ => .ok []
  | day :: rest, prevRegion => do
      let d ← computeDay trip day prevRegion
      let ds ← computeDays trip rest (some d.regionCode)
      return d :: ds

/-! ## The whole trip -/

def checkLegs : List LegInput → Except Raised Unit
  | [] => .ok ()
  | leg :: rest => do
      refuse (leg.legDate = none) (legDateRequired leg.seq)
      refuse (leg.transportMode = some .govVehicle ∧ leg.fare ≠ none ∧ leg.fare ≠ some 0)
        (govVehicleFare leg.seq)
      checkLegs rest

/-- The first and the last date there is, of the years 1 and 9999. -/
def minDate : Day := -719162

def maxDate : Day := 2932896

/-- The fare a leg counts. -/
def countedFare (mode : Option TransportMode) (fare : Option ℤ) : ℤ :=
  if mode = some .govVehicle then 0 else fare.getD 0

/-- The span of the trip: the claim's dates when it has both, else those of the legs. -/
def tripSpan (legs : List LegInput) (dateDepart dateReturn : Option Day) : Except Raised (Day × Day) :=
  match dateDepart, dateReturn with
  | some first, some last => .ok (first, last)
  | _, _ => do
      let dates := legs.filterMap (·.legDate)
      let first ← found dates.min? noComputableDays
      let last ← found dates.max? noComputableDays
      return (first, last)

/-- The dates of a span. -/
def span (first last : ℤ) : List ℤ :=
  (List.range (last - first + 1).toNat).map fun offset : ℕ => first + (offset : ℤ)

/-- `to_money` of the sum of the counted fares.  Fares are not negative, so a sum that leaves the
context does not come back. -/
def sumFares (legs : List LegInput) : Except Raised ℤ := do
  let total := (legs.map fun leg => countedFare leg.transportMode leg.fare).sum
  refuse (10 ^ 28 ≤ |total|) .invalidOperation
  return total

def computePerDiem (legs : List LegInput) (dateDepart dateReturn : Option Day)
    (claimRegionCode : Option String) (isWithin50km overnightStay : Bool)
    (regions : List RegionRow) (rates : List RateRow) (configs : List ConfigRow) :
    Except Raised PerDiemResult := do
  refuse (legs = []) noComputableDays
  checkLegs legs
  let (first, last) ← tripSpan legs dateDepart dateReturn
  refuse (last < first) noComputableDays
  absent ((legs.filterMap (·.legDate)).find? fun d => d < first ∨ last < d) legOutsideTripDates
  let trip : Journey := {
    legs, first, last, claimRegionCode, regions, rates, configs
    gated := isWithin50km && !overnightStay }
  -- a date is of the calendar, and `first + timedelta(days=offset)` stays in it
  refuse (first < minDate ∨ maxDate < last) .overflowError
  let days ← computeDays trip (span first last) none
  let perDiemTotal ← sumMoney (days.map (·.amount))
  let transportTotal ← sumFares legs
  return { days, perDiemTotal, transportTotal }

/-- `(to_reimburse, to_refund)`: at most one of them is nonzero. -/
def settle (grand advance : ℤ) : ℤ × ℤ :=
  let diff := advance - grand
  (max (-diff) 0, max diff 0)

end OfficeConnect.Reimbursement
