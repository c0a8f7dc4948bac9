import OfficeConnect.Core.Workdays
import OfficeConnect.Ingest.Values

/-!
# The regulatory config pack

Deadlines, percentages and cadences are effective-dated rows keyed by name, whose value is a JSON
object.  A lookup takes the latest row in force on a day.
-/

namespace OfficeConnect.Reimbursement

/-! ## JSON scalars -/

/-- A value inside a config object; a float is its exact value. -/
inductive Scalar where
  | int (n : ℤ)
  | float (q : ℚ)
  | bool (b : Bool)
  | text (s : String)
  | null
  | compound
deriving DecidableEq, Repr

/-- `int(value)`, or nothing where it raises. -/
def Scalar.toInt? : Scalar → Option ℤ
  | int n => some n
  | float q => some (if 0 ≤ q then ⌊q⌋ else -⌊-q⌋)
  | bool b => some b.toNat
  | text s => (Ingest.parseInt s).toOption
  | null => none
  | compound => none

/-! ## Rows -/

/-- `value` is `none` when the column holds no object. -/
structure ConfigRow where
  key : String
  value : Option (List (String × Scalar))
  effectiveFrom : Day
  tenantId : Option ℕ := none
  isActive : Bool := true
deriving DecidableEq, Repr

def ConfigRow.field? (row : ConfigRow) (name : String) : Option Scalar :=
  row.value.bind fun fields => fields.lookup name

/-- `int(row.value[name])`, or nothing where it raises. -/
def ConfigRow.int? (row : ConfigRow) (name : String) : Option ℤ :=
  (row.field? name).bind Scalar.toInt?

/-- The latest of the rows that satisfy `p` and are in force on `day`; the first one on a tie. -/
def asOf {α : Type} (effectiveFrom : α → Day) (p : α → Bool) (day : Day) (rows : List α) :
    Option α :=
  (rows.filter fun row => p row ∧ effectiveFrom row ≤ day).foldl
    (fun best row =>
      match best with
      | none => some row
      | some b => if effectiveFrom b < effectiveFrom row then some row else some b)
    none

/-- One integer of the latest row in force; a missing or malformed row gives the default. -/
def configInt (configs : List ConfigRow) (key field : String) (default : ℤ) (today : Day) : ℤ :=
  match asOf (·.effectiveFrom) (fun row => row.key = key ∧ row.isActive) today configs with
  | none => default
  | some row => (row.int? field).getD default

/-- On equal dates a tenant row beats the platform default. -/
def ConfigRow.newer (row current : ConfigRow) : Prop :=
  current.effectiveFrom < row.effectiveFrom ∨
    current.effectiveFrom = row.effectiveFrom ∧ row.tenantId ≠ none ∧ current.tenantId = none

instance (row current : ConfigRow) : Decidable (row.newer current) :=
  inferInstanceAs (Decidable (_ ∨ _ ∧ _ ∧ _))

/-- The row a key has in the effective pack. -/
def effectiveConfig (configs : List ConfigRow) (today : Day) (key : String) : Option ConfigRow :=
  (configs.filter fun row =>
    row.key = key ∧ row.isActive ∧ row.effectiveFrom ≤ today).foldl
    (fun best row =>
      match best with
      | none => some row
      | some b => if row.newer b then some row else some b)
    none

end OfficeConnect.Reimbursement
