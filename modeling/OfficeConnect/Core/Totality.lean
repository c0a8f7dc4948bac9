import OfficeConnect.Core.Checks
import OfficeConnect.Core.Rules

/-!
# Where evaluation raises

The evaluator and the check runners take any JSON value.  What still raises is named here: a NaN in
a comparison or a sum, a sum the context cannot hold, a tally that is no number, and a deadline key
that no mapping can have.
-/

namespace OfficeConnect.Checklist

open Lib

/-! ## Rules -/

/-- The comparisons that reading a rule makes. -/
def comparisonsAt : ℕ → Json → List Comparison
  | 0, _ => []
  | levels + 1, .obj [(operator, operand)] =>
      if operator = "always" then []
      else if operator = "if" then (condition? operand).toList
      else
        match junction? operator, operand with
        | some _, .list branches => branches.flatMap (comparisonsAt levels)
        | _, _ => []
  | _ + 1, _ => []

theorem returns_run {facts : Facts} {c : Comparison} : Returns (c.run facts) ↔ c.Calm facts := by
  simp [Returns, Comparison.run_eq_ok]

theorem returns_evaluateAt {facts : Facts} {levels : ℕ} {rule : Json} :
    Returns (evaluateAt facts levels rule) ↔ ∀ c ∈ comparisonsAt levels rule, c.Calm facts := by
  induction levels generalizing rule with
  | zero => simp [evaluateAt, comparisonsAt]
  | succ levels ih =>
      rcases rule with _ | _ | _ | _ | _ | _ | fields
      case obj =>
        rcases fields with _ | ⟨⟨operator, operand⟩, _ | ⟨p, fields⟩⟩
        · simp [evaluateAt, comparisonsAt]
        · conv_lhs => unfold evaluateAt
          unfold comparisonsAt
          by_cases halways : operator = "always"
          · simp only [if_pos halways]
            cases operand <;> simp
          · simp only [if_neg halways]
            by_cases hif : operator = "if"
            · simp only [if_pos hif]
              cases condition? operand with
              | none => simp
              | some c => simp [returns_run]
            · simp only [if_neg hif]
              cases junction? operator with
              | none => simp
              | some j =>
                  cases operand with
                  | list branches =>
                      rw [returns_bind_iff (p := True) fun os => by simp, and_true, returns_mapM]
                      simp only [ih, List.mem_flatMap, forall_exists_index, and_imp]
                      exact ⟨fun h c b hb => h b hb c, fun h b hb c => h c b hb⟩
                  | _ => simp
        · simp [evaluateAt, comparisonsAt]
      all_goals simp [evaluateAt, comparisonsAt]

/-! ## Checks -/

/-- What `int` takes, and what counts as nothing. -/
def IsTally : Json → Prop
  | .int _ | .bool _ | .float (.finite _ _ _) | .null => True
  | .float (.infinite _) => False
  | .str s => s = "" ∨ Returns (Ingest.parseInt s)
  | .list items => items = []
  | .obj fields => fields = []

/-- The three tallies of the item are numbers. -/
def FilePresentCalm (facts : Facts) : Prop :=
  ∀ item, facts.lookup "item" = some (.obj item) →
    ∀ key ∈ ["evidence_infected", "evidence_count", "evidence_pending"],
      ∀ value ∈ item.lookup key, IsTally value

/-- No NaN among the amounts, and no NaN to hold them against. -/
def AmountThresholdCalm (spec : Fields) (facts : Facts) : Prop :=
  ∀ ceiling ∈ configAmount facts (spec.lookup "max_key"),
    ∀ d ∈ amounts (specField spec facts "field"), ¬ ceiling.IsNaN ∧ ¬ d.IsNaN

/-- No NaN anywhere, and a sum and a difference that the context holds. -/
def SumMatchesCalm (spec : Fields) (facts : Facts) : Prop :=
  ∀ total ∈ (specField spec facts "vs").bind Json.asDecimal,
    (∀ d ∈ total :: tolerance spec :: amounts (specField spec facts "of"), ¬ d.IsNaN) ∧
      ∃ summed, Decimal.total (amounts (specField spec facts "of")) Decimal.zero = .ok summed ∧
        Returns (Decimal.add summed total.neg)

/-- The key of a deadline is no list and no object. -/
def DeadlineCheckCalm (spec : Fields) (facts : Facts) : Prop :=
  ∀ deadlines, facts.lookup "deadlines" = some (.obj deadlines) →
    ∀ key ∈ spec.lookup "key", (∀ items, key ≠ .list items) ∧ ∀ fields, key ≠ .obj fields

def CheckType.Calm : CheckType → Fields → Facts → Prop
  | filePresent, _, facts => FilePresentCalm facts
  | amountThreshold, spec, facts => AmountThresholdCalm spec facts
  | sumMatches, spec, facts => SumMatchesCalm spec facts
  | deadlineCheck, spec, facts => DeadlineCheckCalm spec facts
  | dateWithinTrip, _, _ | keywordAbsent, _, _ => True

theorem returns_gt {a b : Decimal} : Returns (a.gt b) ↔ ¬ a.IsNaN ∧ ¬ b.IsNaN :=
  ⟨fun ⟨_, h⟩ => ⟨(Decimal.gt_eq_ok.1 h).1, (Decimal.gt_eq_ok.1 h).2.1⟩,
    fun ⟨ha, hb⟩ => ⟨_, Decimal.gt_eq_ok.2 ⟨ha, hb, rfl⟩⟩⟩

theorem returns_le {a b : Decimal} : Returns (a.le b) ↔ ¬ a.IsNaN ∧ ¬ b.IsNaN :=
  ⟨fun ⟨_, h⟩ => ⟨(Decimal.le_eq_ok.1 h).1, (Decimal.le_eq_ok.1 h).2.1⟩,
    fun ⟨ha, hb⟩ => ⟨_, Decimal.le_eq_ok.2 ⟨ha, hb, rfl⟩⟩⟩

theorem isTally_iff {value : Json} : (value.truthy = true → Returns value.toInt) ↔ IsTally value := by
  rcases value with _ | b | n | (⟨value, digits, exponent⟩ | negative) | s | items | fields
  case str =>
    simp only [Json.truthy, Json.toInt, IsTally, returns_mapError, decide_eq_true_eq]
    exact or_iff_not_imp_left.symm
  all_goals simp [Json.truthy, Json.toInt, IsTally]

theorem returns_tally {item : Fields} {key : String} :
    Returns (tally item key) ↔ ∀ value ∈ item.lookup key, IsTally value := by
  unfold tally
  cases item.lookup key with
  | none => simp
  | some value => simp [← isTally_iff]

theorem returns_checkFilePresent (spec : Fields) {facts : Facts} :
    Returns (checkFilePresent spec facts) ↔ FilePresentCalm facts := by
  unfold checkFilePresent FilePresentCalm
  cases facts.lookup "item" with
  | none => simp
  | some value =>
      cases value with
      | obj item =>
          rw [returns_bind_iff fun infected => returns_bind_iff fun usable =>
            returns_bind_iff (p := True) fun pending => by simp]
          simp [returns_tally]
      | _ => simp

theorem returns_checkAmountThreshold {spec : Fields} {facts : Facts} :
    Returns (checkAmountThreshold spec facts) ↔ AmountThresholdCalm spec facts := by
  unfold checkAmountThreshold AmountThresholdCalm
  cases configAmount facts (spec.lookup "max_key") with
  | none => simp
  | some ceiling =>
      cases amounts (specField spec facts "field") with
      | nil => simp
      | cons d ds =>
          dsimp only [List.isEmpty_cons]
          rw [if_neg (by simp), returns_bind_iff (p := True) fun exceeds => by simp, returns_mapM]
          simp [returns_gt, and_comm]

theorem returns_checkSumMatches {spec : Fields} {facts : Facts} :
    Returns (checkSumMatches spec facts) ↔ SumMatchesCalm spec facts := by
  unfold checkSumMatches SumMatchesCalm
  generalize amounts (specField spec facts "of") = parts
  cases (specField spec facts "vs").bind Json.asDecimal with
  | none => simp
  | some total =>
      have hnan : ∀ summed difference, Decimal.total parts Decimal.zero = .ok summed →
          Decimal.add summed total.neg = .ok difference →
            (difference.abs.IsNaN ↔ (∃ d ∈ parts, d.IsNaN) ∨ total.IsNaN) := by
        intro summed difference hsummed hdifference
        rw [Decimal.isNaN_abs, Decimal.isNaN_add hdifference, Decimal.isNaN_total hsummed,
          Decimal.isNaN_neg]
        simp [Decimal.zero]
      have hrest : ∀ difference : Decimal, Returns (do
          if ← difference.abs.le (tolerance spec) then
            return { type := "sum_matches", outcome := .passed, reason := "sum_matches" }
          else return { type := "sum_matches", outcome := .flagged, reason := "sum_mismatch" } :
            Except Fault CheckResult) ↔ ¬ difference.abs.IsNaN ∧ ¬ (tolerance spec).IsNaN := by
        intro difference
        rw [returns_bind_iff (p := True) fun within => by simp, and_true, returns_le]
      simp only [returns_bind (x := Decimal.total _ _), returns_bind (x := Decimal.add _ _), hrest]
      constructor
      · rintro ⟨summed, hsummed, difference, hdifference, hle, htolerance⟩ total' ⟨⟩
        rw [hnan summed difference hsummed hdifference, not_or, not_exists] at hle
        refine ⟨?_, summed, hsummed, difference, hdifference⟩
        simp only [List.mem_cons, forall_eq_or_imp]
        exact ⟨hle.2, htolerance, fun d hd hd' => hle.1 d ⟨hd, hd'⟩⟩
      · intro h
        obtain ⟨hd, summed, hsummed, difference, hdifference⟩ := h total rfl
        simp only [List.mem_cons, forall_eq_or_imp] at hd
        refine ⟨summed, hsummed, difference, hdifference, ?_, hd.2.1⟩
        rw [hnan summed difference hsummed hdifference]
        rintro (⟨d, hmem, hd'⟩ | htotal)
        · exact hd.2.2 d hmem hd'
        · exact hd.1 htotal

theorem returns_deadline {facts : Facts} {key : Json} :
    Returns (deadline facts key) ↔ ∀ deadlines, facts.lookup "deadlines" = some (.obj deadlines) →
      (∀ items, key ≠ .list items) ∧ ∀ fields, key ≠ .obj fields := by
  unfold deadline
  cases facts.lookup "deadlines" with
  | none => simp
  | some value =>
      cases value with
      | obj deadlines => cases key <;> simp
      | _ => simp

theorem returns_checkDeadlineCheck {spec : Fields} {facts : Facts} :
    Returns (checkDeadlineCheck spec facts) ↔ DeadlineCheckCalm spec facts := by
  unfold checkDeadlineCheck DeadlineCheckCalm
  rw [returns_bind_iff (p := True) fun due => ?_, and_true, returns_deadline]
  · cases spec.lookup "key" <;> simp
  · rcases due.bind Json.asDate with _ | due
    · simp
    · rcases (facts.lookup "today").bind Json.asDate with _ | today <;> simp

/-! ## Evaluation as a whole -/

section

variable {str : Json → String} {lower : String → String} {spec : Fields} {facts : Facts}

theorem returns_checkDateWithinTrip (spec : Fields) : Returns (checkDateWithinTrip spec facts) := by
  unfold checkDateWithinTrip
  rcases facts.lookup "trip" with _ | trip
  · simp
  · cases trip with
    | obj trip =>
        dsimp only
        rcases (trip.lookup "depart").bind Json.asDate with _ | depart
        · simp
        · rcases (trip.lookup "return").bind Json.asDate with _ | ret <;> simp
    | _ => simp

theorem returns_checkKeywordAbsent : Returns (checkKeywordAbsent lower spec facts) := by
  unfold checkKeywordAbsent
  rcases facts.lookup "ocr_text" with _ | text
  · simp
  · cases text with
    | str text =>
        rcases spec.lookup "keywords" with _ | keywords
        · simp
        · cases keywords <;> simp
    | _ => simp

theorem returns_checkType {type : CheckType} :
    Returns (type.run lower spec facts) ↔ type.Calm spec facts := by
  cases type with
  | filePresent => exact returns_checkFilePresent spec
  | amountThreshold => exact returns_checkAmountThreshold
  | dateWithinTrip => exact iff_of_true (returns_checkDateWithinTrip spec) trivial
  | sumMatches => exact returns_checkSumMatches
  | keywordAbsent => exact iff_of_true returns_checkKeywordAbsent trivial
  | deadlineCheck => exact returns_checkDeadlineCheck

end

/-- A check that is run: an object with a known type. -/
def runnable? : Json → Option (CheckType × Fields)
  | .obj spec => (runner? spec).map (·, spec)
  | _ => none

def runnable : Json → List (CheckType × Fields)
  | .list specs => specs.filterMap runnable?
  | _ => []

theorem returns_runAutoCheck {str : Json → String} {lower : String → String} {facts : Facts}
    {spec : Json} : Returns (runAutoCheck str lower facts spec) ↔
      ∀ p ∈ runnable? spec, p.1.Calm p.2 facts := by
  cases spec with
  | obj spec =>
      dsimp only [runAutoCheck, runnable?]
      cases runner? spec with
      | none => simp
      | some type => simp [returns_checkType]
  | _ => simp [runAutoCheck, runnable?]

theorem returns_runAutoChecks (str : Json → String) (lower : String → String) {checks : Json}
    {facts : Facts} : Returns (runAutoChecks str lower checks facts) ↔
      ∀ p ∈ runnable checks, p.1.Calm p.2 facts := by
  unfold runAutoChecks runnable
  cases checks with
  | list specs =>
      simp only [returns_mapM, returns_runAutoCheck, List.mem_filterMap, forall_exists_index, and_imp]
      exact ⟨fun h p spec hspec hp => h spec hspec p hp, fun h spec hspec p hp => h p spec hspec hp⟩
  | _ => simp

/-- Both evaluations return when every comparison the rule makes and every check that is run can take
its operands, and only then. -/
theorem evaluation_returns_iff (str : Json → String) (lower : String → String) (rule checks : Json)
    (facts : Facts) :
    (∃ o, evaluateRequiredRule rule facts = .ok o) ∧
        (∃ results, runAutoChecks str lower checks facts = .ok results) ↔
      (∀ c ∈ comparisonsAt (maxRuleDepth + 1) rule, c.Calm facts) ∧
        ∀ p ∈ runnable checks, p.1.Calm p.2 facts :=
  and_congr returns_evaluateAt (returns_runAutoChecks str lower)

/-- A text that reads as a NaN, compared. -/
theorem nanText_raises :
    ¬ ((∃ o, evaluateRequiredRule
        (.obj [("if", .obj [("field", .str "x"), ("gt", .int ⟨0, printable_zero⟩)])])
        [("x", .str "NaN")] = .ok o) ∧
      ∃ results, runAutoChecks (fun _ => "") id (.list []) [("x", .str "NaN")] = .ok results) := by
  rintro ⟨⟨o, h⟩, -⟩
  have hraised : evaluateRequiredRule
      (.obj [("if", .obj [("field", .str "x"), ("gt", .int ⟨0, printable_zero⟩)])])
      [("x", .str "NaN")] = .error .invalidOperation := by decide +kernel
  rw [hraised] at h
  cases h

end OfficeConnect.Checklist
