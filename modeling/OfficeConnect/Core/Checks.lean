import OfficeConnect.Core.Grammar

/-!
# The automatic checks

A catalog row lists checks; each is run over the facts and passes, flags or is skipped.  A check of
no known type is skipped, and one that is not an object too.
-/

namespace OfficeConnect.Checklist

open Ingest Lib

abbrev Fields := List (String × Json)

inductive Outcome where
  | passed | flagged | skipped
deriving DecidableEq, Repr

structure CheckResult where
  type : String
  outcome : Outcome
  reason : String
  remedy : Option String := none
deriving DecidableEq, Repr

def CheckResult.isFlagged (r : CheckResult) : Bool := r.outcome = .flagged

def skip (type reason : String) : CheckResult := { type, outcome := .skipped, reason }

/-! ## Reading the facts -/

/-- `int(item.get(key) or 0)`. -/
def tally (item : Fields) (key : String) : Except Fault ℤ :=
  match item.lookup key with
  | some value => if value.truthy then value.toInt else .ok 0
  | none => .ok 0

/-- The items of a list; any other value stands alone, a missing one too. -/
def spread : Option Json → List Json
  | some (.list items) => items
  | some value => [value]
  | none => []

def amounts (raw : Option Json) : List Decimal := (spread raw).filterMap Json.asDecimal

/-- `resolve_field(facts, spec.get(key, ""))`. -/
def specField (spec : Fields) (facts : Facts) (key : String) : Option Json :=
  resolveField facts ((spec.lookup key).getD (.str ""))

/-- A configuration key is looked up as it stands, dots and all. -/
def configAmount (facts : Facts) (maxKey : Option Json) : Option Decimal :=
  match facts.lookup "config", maxKey with
  | some (.obj config), some (.str key) =>
      match config.lookup key with
      | some (.obj value) => (value.lookup "amount").bind Json.asDecimal
      | some value => value.asDecimal
      | none => none
  | _, _ => none

/-! ## The runners -/

def checkFilePresent (_ : Fields) (facts : Facts) : Except Fault CheckResult :=
  match facts.lookup "item" with
  | some (.obj item) => do
      let infected ← tally item "evidence_infected"
      let usable ← tally item "evidence_count"
      let pending ← tally item "evidence_pending"
      if infected ≠ 0 then
        return { type := "file_present", outcome := .flagged, reason := "evidence_infected" }
      else if usable = 0 then
        return { type := "file_present", outcome := .flagged, reason := "no_evidence" }
      else if pending ≠ 0 then
        return { type := "file_present", outcome := .passed, reason := "evidence_scan_pending" }
      else return { type := "file_present", outcome := .passed, reason := "evidence_present" }
  | _ => .ok (skip "file_present" "no_item_context")

def onExceed (spec : Fields) : Option String :=
  match spec.lookup "on_exceed" with
  | some (.str remedy) => some remedy
  | _ => none

def checkAmountThreshold (spec : Fields) (facts : Facts) : Except Fault CheckResult :=
  match configAmount facts (spec.lookup "max_key") with
  | none => .ok (skip "amount_threshold" "config_unavailable")
  | some ceiling =>
      let claimed := amounts (specField spec facts "field")
      if claimed.isEmpty then .ok (skip "amount_threshold" "no_amount")
      else do
        let exceeds ← claimed.mapM (Decimal.gt · ceiling)
        if exceeds.any id then
          return { type := "amount_threshold", outcome := .flagged
                   reason := "amount_over_threshold", remedy := onExceed spec }
        else
          return { type := "amount_threshold", outcome := .passed, reason := "within_threshold" }

/-- The dates of the legs, then those of the evidence. -/
def claimedDates (facts : Facts) : List Day :=
  let legs := match facts.lookup "legs" with
    | some (.list legs) => legs.filterMap fun
        | .obj leg => (leg.lookup "leg_date").bind Json.asDate
        | _ => none
    | _ => []
  let evidence := match facts.lookup "evidence_dates" with
    | some (.list dates) => dates.filterMap Json.asDate
    | _ => []
  legs ++ evidence

def checkDateWithinTrip (_ : Fields) (facts : Facts) : Except Fault CheckResult :=
  match facts.lookup "trip" with
  | some (.obj trip) =>
      match (trip.lookup "depart").bind Json.asDate, (trip.lookup "return").bind Json.asDate with
      | some depart, some ret =>
          let candidates := claimedDates facts
          if candidates.isEmpty then .ok (skip "date_within_trip" "no_dates")
          else if candidates.all (fun day => depart ≤ day ∧ day ≤ ret) then
            .ok { type := "date_within_trip", outcome := .passed, reason := "dates_within_trip" }
          else .ok { type := "date_within_trip", outcome := .flagged, reason := "date_outside_trip" }
      | _, _ => .ok (skip "date_within_trip" "no_trip")
  | _ => .ok (skip "date_within_trip" "no_trip")

/-- `_as_decimal(spec.get("tolerance", 0)) or Decimal("0")`. -/
def tolerance (spec : Fields) : Decimal :=
  match (spec.lookup "tolerance").bind Json.asDecimal with
  | some d => if d.isZero then Decimal.zero else d
  | none => Decimal.zero

def checkSumMatches (spec : Fields) (facts : Facts) : Except Fault CheckResult :=
  let parts := amounts (specField spec facts "of")
  match (specField spec facts "vs").bind Json.asDecimal with
  | none => .ok (skip "sum_matches" "no_total")
  | some total => do
      let summed ← Decimal.total parts Decimal.zero
      let difference ← Decimal.add summed total.neg
      if ← Decimal.le difference.abs (tolerance spec) then
        return { type := "sum_matches", outcome := .passed, reason := "sum_matches" }
      else return { type := "sum_matches", outcome := .flagged, reason := "sum_mismatch" }

/-- The deadline kept under the key; a list or an object cannot be one. -/
def deadline (facts : Facts) (key : Json) : Except Fault (Option Json) :=
  match facts.lookup "deadlines", key with
  | some (.obj _), .list _ | some (.obj _), .obj _ => .error .typeError
  | some (.obj deadlines), .str key => .ok (deadlines.lookup key)
  | _, _ => .ok none

def checkDeadlineCheck (spec : Fields) (facts : Facts) : Except Fault CheckResult := do
  let due ← deadline facts ((spec.lookup "key").getD .null)
  match due.bind Json.asDate with
  | none => return skip "deadline_check" "deadline_clock_unavailable"
  | some due =>
      match (facts.lookup "today").bind Json.asDate with
      | none => return skip "deadline_check" "no_today"
      | some today =>
          if today ≤ due then
            return { type := "deadline_check", outcome := .passed, reason := "within_deadline" }
          else
            return { type := "deadline_check", outcome := .flagged, reason := "deadline_passed" }

section

-- `str` of a value and `str.lower`.
variable (str : Json → String) (lower : String → String)

def checkKeywordAbsent (spec : Fields) (facts : Facts) : Except Fault CheckResult :=
  match facts.lookup "ocr_text" with
  | some (.str text) =>
      if text.toList.all isSpace then .ok (skip "keyword_absent" "ocr_unavailable")
      else
        match spec.lookup "keywords" with
        | some (.list keywords) =>
            let hit : Json → Bool := fun
              | .str keyword => (lower keyword).toList <:+: (lower text).toList
              | _ => false
            if keywords.any hit then
              .ok { type := "keyword_absent", outcome := .flagged, reason := "keyword_found" }
            else .ok { type := "keyword_absent", outcome := .passed, reason := "keywords_absent" }
        | _ => .ok (skip "keyword_absent" "no_keywords")
  | _ => .ok (skip "keyword_absent" "ocr_unavailable")

/-! ## Running the checks -/

inductive CheckType where
  | filePresent | amountThreshold | dateWithinTrip | sumMatches | keywordAbsent | deadlineCheck
deriving DecidableEq, Repr

def CheckType.text : CheckType → String
  | filePresent => "file_present"
  | amountThreshold => "amount_threshold"
  | dateWithinTrip => "date_within_trip"
  | sumMatches => "sum_matches"
  | keywordAbsent => "keyword_absent"
  | deadlineCheck => "deadline_check"

def checkType? (key : String) : Option CheckType :=
  [CheckType.filePresent, .amountThreshold, .dateWithinTrip, .sumMatches, .keywordAbsent,
    .deadlineCheck].find? (·.text = key)

def CheckType.run : CheckType → Fields → Facts → Except Fault CheckResult
  | filePresent => checkFilePresent
  | amountThreshold => checkAmountThreshold
  | dateWithinTrip => checkDateWithinTrip
  | sumMatches => checkSumMatches
  | keywordAbsent => checkKeywordAbsent lower
  | deadlineCheck => checkDeadlineCheck

/-- The type of a check that has a runner. -/
def runner? (spec : Fields) : Option CheckType :=
  match spec.lookup "type" with
  | some (.str type) => checkType? type
  | _ => none

def runAutoCheck (facts : Facts) : Json → Except Fault CheckResult
  | .obj spec =>
      match runner? spec with
      | some type => type.run lower spec facts
      | none => .ok (skip (str ((spec.lookup "type").getD .null)) "unknown_check_type")
  | _ => .ok (skip "unknown" "malformed_check")

def runAutoChecks (checks : Json) (facts : Facts) : Except Fault (List CheckResult) :=
  match checks with
  | .list specs => specs.mapM (runAutoCheck str lower facts)
  | _ => .ok []

end

end OfficeConnect.Checklist
