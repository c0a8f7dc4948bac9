import OfficeConnect.Core.Json

/-!
# The grammar of requirement rules

A catalog row says in a small JSON language when its item is required.  The evaluator reads any JSON
value and calls what it cannot read unparseable; the validator, at authoring time, refuses it.
-/

namespace OfficeConnect.Checklist

open Lib

abbrev Facts := List (String × Json)

/-- The deepest node that is read. -/
def maxRuleDepth : ℕ := 8

/-! ## Fields -/

/-- One segment of a path; a list is projected, item by item. -/
def resolveSegment (current : Json) (segment : String) : Option Json :=
  match current with
  | .obj fields => fields.lookup segment
  | .list items =>
      let projected := items.filterMap fun
        | .obj fields => fields.lookup segment
        | _ => none
      if projected.isEmpty then none else some (.list projected)
  | _ => none

/-- The value at a dotted path; nothing is `MISSING`. -/
def resolveField (facts : Facts) (path : Json) : Option Json :=
  match path with
  | .str path =>
      if path = "" then none
      else ((path.toList.splitOn '.').map String.ofList).foldlM resolveSegment (.obj facts)
  | _ => none

/-! ## Comparators -/

inductive Comparator where
  | eq | contains | gt
deriving DecidableEq, Repr

def Comparator.text : Comparator → String
  | eq => "eq"
  | contains => "contains"
  | gt => "gt"

def comparator? (key : String) : Option Comparator :=
  [Comparator.eq, .contains, .gt].find? (·.text = key)

def isBool : Json → Bool
  | .bool _ => true
  | _ => false

def cmpEq (actual : Option Json) (expected : Json) : Except Fault Bool :=
  match actual with
  | none => .ok false
  | some actual =>
      if isBool actual ∨ isBool expected then
        match actual, expected with
        | .bool a, .bool b => .ok (a = b)
        | _, _ => .ok false
      else
        match actual.asDecimal, expected.asDecimal with
        | some left, some right => Decimal.eq left right
        | _, _ => .ok (actual.pyEq expected)

def cmpContains (actual : Option Json) (expected : Json) : Except Fault Bool :=
  match actual, expected with
  | some (.str s), .str t => .ok (t.toList <:+: s.toList)
  | some (.list items), expected => .ok (items.any (·.pyEq expected))
  | _, _ => .ok false

def cmpGt (actual : Option Json) (expected : Json) : Except Fault Bool :=
  match actual.bind Json.asDecimal, expected.asDecimal with
  | some left, some right => Decimal.gt left right
  | _, _ => .ok false

def Comparator.run : Comparator → Option Json → Json → Except Fault Bool
  | eq => cmpEq
  | contains => cmpContains
  | gt => cmpGt

/-! ## Evaluation -/

inductive RuleReason where
  | always | emptyRule | conditionMet | conditionUnmet | anySatisfied | anyUnsatisfied
  | allSatisfied | allUnsatisfied | unparseableRule
deriving DecidableEq, Repr

structure RuleOutcome where
  required : Bool
  reason : RuleReason
  unparseable : Bool := false
deriving DecidableEq, Repr

def unparseable : RuleOutcome :=
  { required := false, reason := .unparseableRule, unparseable := true }

inductive Junction where
  | any | all
deriving DecidableEq, Repr

def Junction.text : Junction → String
  | any => "any"
  | all => "all"

def junction? (key : String) : Option Junction := [Junction.any, .all].find? (·.text = key)

/-- Nothing satisfies `any` of nothing; `all` of nothing is satisfied. -/
def Junction.combine : Junction → List Bool → Bool
  | any, bs => bs.any id
  | all, bs => bs.all id

def Junction.reason : Junction → Bool → RuleReason
  | any, matched => if matched then .anySatisfied else .anyUnsatisfied
  | all, matched => if matched then .allSatisfied else .allUnsatisfied

/-- A comparison a rule makes. -/
structure Comparison where
  field : Json
  comparator : Comparator
  expected : Json

/-- The operand of `if`: a field and one comparator. -/
def condition? (operand : Json) : Option Comparison := do
  let fields ← match operand with
    | .obj fields => some fields
    | _ => none
  let field ← fields.lookup "field"
  match fields.filter (·.1 ≠ "field") with
  | [(key, expected)] => do
      let comparator ← comparator? key
      return { field, comparator, expected }
  | _ => none

def Comparison.run (c : Comparison) (facts : Facts) : Except Fault Bool :=
  c.comparator.run (resolveField facts c.field) c.expected

/-- `_evaluate`, with the levels that may still be read; every branch of a junction is. -/
def evaluateAt (facts : Facts) : ℕ → Json → Except Fault RuleOutcome
  | 0, _ => .ok unparseable
  | levels + 1, .obj [(operator, operand)] =>
      if operator = "always" then
        match operand with
        | .bool b => .ok { required := b, reason := if b then .always else .emptyRule }
        | _ => .ok unparseable
      else if operator = "if" then
        match condition? operand with
        | none => .ok unparseable
        | some c => do
            let matched ← c.run facts
            return { required := matched
                     reason := if matched then .conditionMet else .conditionUnmet }
      else
        match junction? operator, operand with
        | some junction, .list branches => do
            let outcomes ← branches.mapM (evaluateAt facts levels)
            if outcomes.any (·.unparseable) then return unparseable
            else
              let matched := junction.combine (outcomes.map (·.required))
              return { required := matched, reason := junction.reason matched }
        | _, _ => .ok unparseable
  | _ + 1, .obj [] => .ok { required := false, reason := .emptyRule }
  | _ + 1, _ => .ok unparseable

def evaluateRequiredRule (rule : Json) (facts : Facts) : Except Fault RuleOutcome :=
  evaluateAt facts (maxRuleDepth + 1) rule

/-! ## Validation -/

/-- `type(value).__name__`. -/
def typeName : Json → String
  | .null => "NoneType"
  | .bool _ => "bool"
  | .int _ => "int"
  | .float _ => "float"
  | .str _ => "str"
  | .list _ => "list"
  | .obj _ => "dict"

def invalidRule (detail : String) : Raised :=
  .api 422 "checklist_invalid_rule" ("The checklist requirement rule is not valid: " ++ detail)

def unknownRuleOperator (operator : String) : Raised :=
  .api 422 "checklist_unknown_rule_operator"
    ("'" ++ operator ++ "' is not a checklist rule operator (allowed: always, if, any, all).")

def unknownComparator (comparator : String) : Raised :=
  .api 422 "checklist_unknown_comparator"
    ("'" ++ comparator ++ "' is not a checklist comparator (allowed: eq, contains, gt).")

section

-- `repr` of a text.
variable (quote : String → String)

/-- `sorted(keys)` as it is printed. -/
def sortedKeys (keys : List String) : String :=
  "[" ++ ", ".intercalate ((keys.insertionSort (· ≤ ·)).map quote) ++ "]"

def validateCondition (operand : Json) : Except Raised Unit := do
  let fields ← match operand with
    | .obj fields => .ok fields
    | _ => .error (invalidRule "'if' takes an object")
  match fields.lookup "field" with
  | some (.str _) => pure ()
  | _ => .error (invalidRule "'if' needs a string 'field'")
  match fields.filter (·.1 ≠ "field") with
  | [(key, _)] => refuse (comparator? key = none) (unknownComparator key)
  | others => .error (invalidRule
      ("'if' needs exactly one comparator, got " ++ sortedKeys quote (others.map (·.1))))

/-- `_validate`, with the levels that may still be read. -/
def validateAt : ℕ → Json → Except Raised Unit
  | 0, _ => .error (invalidRule s!"nested deeper than {maxRuleDepth} levels")
  | levels + 1, .obj [(operator, operand)] =>
      if operator = "always" then
        match operand with
        | .bool _ => .ok ()
        | _ => .error (invalidRule "'always' takes true or false")
      else if operator = "if" then validateCondition quote operand
      else
        match junction? operator with
        | none => .error (unknownRuleOperator operator)
        | some _ =>
            match operand with
            | .list branches => do
                refuse branches.isEmpty (invalidRule ("'" ++ operator ++ "' has no branches"))
                branches.forM (validateAt levels)
            | _ => .error (invalidRule ("'" ++ operator ++ "' takes a list of rules"))
  | _ + 1, .obj [] =>
      .error (invalidRule
        "the rule is empty — use \x7b\"always\": false\x7d to mean 'never required'")
  | _ + 1, .obj fields =>
      .error (invalidRule ("expected exactly one operator, got " ++
        sortedKeys quote (fields.map (·.1)) ++ " — combine them with 'all' or 'any'"))
  | _ + 1, rule => .error (invalidRule ("expected an object, got " ++ typeName rule))

def validateRequiredRule (rule : Json) : Except Raised Unit := validateAt quote (maxRuleDepth + 1) rule

end

end OfficeConnect.Checklist
