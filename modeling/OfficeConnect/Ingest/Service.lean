import OfficeConnect.Core.Base
import OfficeConnect.Ingest.Values
import OfficeConnect.Lib.Table

/-!
# Ingesting a directory feed

The whole feed is read and checked in memory; then the org units are written parents first, each
with its own flush, the staff rows with one flush, and staff absent from the feed are pruned if the
caller asks for it.  The database refuses a row that breaks a column or an index, at the flush that
writes it.
-/

namespace OfficeConnect.Ingest

open Lib

/-! ## The directory tables -/

inductive OrgUnitKind where
  | office | division | sect | unit
deriving DecidableEq, Repr

def OrgUnitKind.text : OrgUnitKind → String
  | office => "office"
  | division => "division"
  | sect => "section"
  | unit => "unit"

/-- The kind of a name (`_ORG_KINDS`). -/
def OrgUnitKind.ofText? (s : String) : Option OrgUnitKind :=
  [OrgUnitKind.office, .division, .sect, .unit].find? (·.text = s)

inductive EmploymentStatus where
  | permanent | temporary | casual | coterminous | contractual | contractOfService | jobOrder
deriving DecidableEq, Repr

def EmploymentStatus.text : EmploymentStatus → String
  | permanent => "permanent"
  | temporary => "temporary"
  | casual => "casual"
  | coterminous => "coterminous"
  | contractual => "contractual"
  | contractOfService => "contract_of_service"
  | jobOrder => "job_order"

def EmploymentStatus.ofText? (s : String) : Option EmploymentStatus :=
  [EmploymentStatus.permanent, .temporary, .casual, .coterminous, .contractual, .contractOfService,
    .jobOrder].find? (·.text = s)

structure OrgUnit where
  id : ℕ
  code : String
  name : String
  kind : OrgUnitKind
  parentOrgUnitId : Option ℕ
  sortOrder : ℤ
  isActive : Bool
  deletedAt : Option Time := none
  deletedBy : Option ℕ := none
deriving DecidableEq, Repr

structure Staff where
  id : ℕ
  employeeNo : String
  givenName : String
  middleName : Option String
  surname : String
  fullName : String
  email : Option String
  positionTitle : Option String
  plantillaItemNo : Option String
  employmentStatus : Option EmploymentStatus
  divisionId : Option ℕ
  sectionId : Option ℕ
  deletedAt : Option Time := none
  deletedBy : Option ℕ := none
deriving DecidableEq, Repr

structure User where
  id : ℕ
  staffId : Option ℕ
  deletedAt : Option Time := none
deriving DecidableEq, Repr

/-- The tables in the order the database returns them, and its two identity sequences. -/
structure Db where
  units : List OrgUnit := []
  staff : List Staff := []
  users : List User := []
  nextUnitId : ℕ := 1
  nextStaffId : ℕ := 1
deriving DecidableEq, Repr

/-- `{ou.code: ou}` over all rows, deleted ones included: the last row of a code stays. -/
def unitOf (units : List OrgUnit) (code : String) : Option OrgUnit :=
  lastWith OrgUnit.code units code

/-- `{s.employee_no: s}` over all rows. -/
def staffOf (staff : List Staff) (employeeNo : String) : Option Staff :=
  lastWith Staff.employeeNo staff employeeNo

/-! ## Reading the feed -/

structure RawUnit where
  code : Value := .null
  name : Value := .null
  kind : Value := .null
  parentCode : Value := .null
  sortOrder : Value := .null
  isActive : Value := .null
deriving DecidableEq, Repr

structure RawStaff where
  employeeNo : Value := .null
  givenName : Value := .null
  middleName : Value := .null
  surname : Value := .null
  fullName : Value := .null
  email : Value := .null
  positionTitle : Value := .null
  plantillaItemNo : Value := .null
  employmentStatus : Value := .null
  divisionCode : Value := .null
  sectionCode : Value := .null
deriving DecidableEq, Repr

structure Feed where
  orgUnits : List RawUnit := []
  staff : List RawStaff := []
deriving DecidableEq, Repr

structure UnitSpec where
  code : String
  name : Option String
  kind : Option String
  parentCode : Option String
  sortOrder : ℤ
  isActive : Bool
deriving DecidableEq, Repr

structure StaffSpec where
  employeeNo : String
  givenName : Option String
  middleName : Option String
  surname : Option String
  fullName : Option String
  email : Option String
  positionTitle : Option String
  plantillaItemNo : Option String
  employmentStatus : Option String
  divisionCode : Option String
  sectionCode : Option String
deriving DecidableEq, Repr

/-- The two org fields of a staff row. -/
inductive OrgField where
  | divisionCode | sectionCode
deriving DecidableEq, Repr

/-- An entry of the error list of `DirectoryIngestError`. -/
inductive Problem where
  | missingCode (index : ℕ)
  | duplicateCode (code : String)
  | invalidKind (code : String) (kind : Option String)
  | missingName (code : String)
  | unknownParent (code parent : String)
  | parentCycle (code : String)
  | missingEmployeeNo (index : ℕ)
  | duplicateEmployeeNo (employeeNo : String)
  | namesRequired (employeeNo : String)
  | duplicateEmail (email : String)
  | unknownUnit (employeeNo : String) (field : OrgField) (code : String)
  | wrongKind (employeeNo : String) (field : OrgField) (code kind : String)
  | emptyPrune
deriving DecidableEq, Repr

/-- What escapes from an ingest. -/
inductive Raised where
  | directoryIngest (errors : List Problem)
  | conversion (e : ConversionError)
  | keyError
  | dataError
  | integrityError (constraint : String)
deriving DecidableEq, Repr

/-- How one of the two batches is read: the key of a row, its spec, and what is wrong with either. -/
structure Batch (Raw Spec : Type) where
  key : Raw → Value
  spec : Raw → String → Except ConversionError Spec
  keyOf : Spec → String
  missing : ℕ → Problem
  duplicate : String → Problem
  problems : List Spec → Spec → List Problem

/-- One row of a batch; a row without a key, or with the key of an earlier one, is left out. -/
def Batch.readRow {Raw Spec : Type} (b : Batch Raw Spec) (acc : List Spec × List Problem)
    (row : Raw × ℕ) : Except ConversionError (List Spec × List Problem) := do
  match ← norm (b.key row.1) with
  | none => return (acc.1, acc.2 ++ [b.missing row.2])
  | some key =>
      if key ∈ acc.1.map b.keyOf then return (acc.1, acc.2 ++ [b.duplicate key])
      else
        let spec ← b.spec row.1 key
        return (acc.1 ++ [spec], acc.2 ++ b.problems acc.1 spec)

/-- The specs of a batch and the errors so far, both in order. -/
def Batch.read {Raw Spec : Type} (b : Batch Raw Spec) (raws : List Raw) :
    Except ConversionError (List Spec × List Problem) :=
  raws.zipIdx.foldlM b.readRow ([], [])

/-- The spec of a unit row, field by field in the order they are read. -/
def readSpec (lower : String → String) (raw : RawUnit) (code : String) :
    Except ConversionError UnitSpec := do
  let kind ← norm raw.kind
  let name ← norm raw.name
  let parentCode ← norm raw.parentCode
  let sortOrder ← wholeNumber raw.sortOrder
  let isActive ← asBool lower raw.isActive true
  return {
    code := code
    name := name
    kind := kind
    parentCode := parentCode
    sortOrder := sortOrder
    isActive := isActive }

def specProblems (spec : UnitSpec) : List Problem :=
  (if (spec.kind.bind OrgUnitKind.ofText?).isNone then [.invalidKind spec.code spec.kind] else []) ++
    if spec.name.isNone then [.missingName spec.code] else []

/-- The org-unit batch. -/
def unitBatch (lower : String → String) : Batch RawUnit UnitSpec where
  key raw := raw.code
  spec := readSpec lower
  keyOf := UnitSpec.code
  missing := .missingCode
  duplicate := .duplicateCode
  problems _ := specProblems

def derivedName (given surname : Option String) : Option String := do
  let given ← given
  let surname ← surname
  return given ++ " " ++ surname

/-- The spec of a staff row, field by field in the order they are read. -/
def readStaffSpec (raw : RawStaff) (emp : String) : Except ConversionError StaffSpec := do
  let given ← norm raw.givenName
  let surname ← norm raw.surname
  let email ← norm raw.email
  let fullName ← norm raw.fullName
  let middleName ← norm raw.middleName
  let positionTitle ← norm raw.positionTitle
  let plantillaItemNo ← norm raw.plantillaItemNo
  let employmentStatus ← norm raw.employmentStatus
  let divisionCode ← norm raw.divisionCode
  let sectionCode ← norm raw.sectionCode
  return {
    employeeNo := emp
    givenName := given
    middleName := middleName
    surname := surname
    fullName := fullName <|> derivedName given surname
    email := email
    positionTitle := positionTitle
    plantillaItemNo := plantillaItemNo
    employmentStatus := employmentStatus
    divisionCode := divisionCode
    sectionCode := sectionCode }

/-- The addresses seen so far, in lower case. -/
def seenEmails (lower : String → String) (specs : List StaffSpec) : List String :=
  specs.filterMap fun spec => spec.email.map lower

def staffProblems (lower : String → String) (before : List StaffSpec) (spec : StaffSpec) :
    List Problem :=
  (if spec.givenName.isNone ∨ spec.surname.isNone then [.namesRequired spec.employeeNo] else []) ++
    (spec.email.filter fun email => lower email ∈ seenEmails lower before).toList.map .duplicateEmail

/-- The staff batch. -/
def staffBatch (lower : String → String) : Batch RawStaff StaffSpec where
  key raw := raw.employeeNo
  spec := readStaffSpec
  keyOf := StaffSpec.employeeNo
  missing := .missingEmployeeNo
  duplicate := .duplicateEmployeeNo
  problems := staffProblems lower

/-! ## Checking the feed -/

def specOf (specs : List UnitSpec) (code : String) : Option UnitSpec := specs.find? (·.code = code)

def maxTreeDepth : ℕ := 64

/-- The walk up the feed's own parents comes back or goes too deep. -/
def loops (specs : List UnitSpec) : ℕ → List String → Option String → Bool
  | _, _, none => false
  | depth, seen, some code =>
      match specOf specs code with
      | none => false
      | some spec =>
          if code ∈ seen then true
          else
            match depth with
            | 0 => true
            | depth + 1 => loops specs depth (code :: seen) spec.parentCode

/-- Report any unit whose parent chain within the feed loops. -/
def detectOrgCycles (specs : List UnitSpec) : List Problem :=
  (specs.filter fun spec => loops specs (maxTreeDepth + 1) [] (some spec.code)).map fun spec =>
    .parentCycle spec.code

/-- Parent references resolve in the feed or the database. -/
def checkParents (units : List OrgUnit) (specs : List UnitSpec) : List Problem :=
  specs.filterMap fun spec => do
    let parent ← spec.parentCode
    if (specOf specs parent).isNone ∧ (unitOf units parent).isNone then
      return .unknownParent spec.code parent
    else none

/-- The kind a code has after the ingest. -/
def kindByCode (units : List OrgUnit) (specs : List UnitSpec) (code : String) : Option String :=
  match specOf specs code with
  | some spec => spec.kind
  | none => (unitOf units code).map (·.kind.text)

def checkOrgField (units : List OrgUnit) (specs : List UnitSpec) (emp : String) (field : OrgField)
    (code : Option String) (wantKind : OrgUnitKind) : List Problem :=
  match code with
  | none => []
  | some code =>
      match kindByCode units specs code with
      | none => [.unknownUnit emp field code]
      | some kind => if kind = wantKind.text then [] else [.wrongKind emp field code kind]

/-- Division and section codes name a unit of the right kind. -/
def checkStaffUnits (units : List OrgUnit) (specs : List UnitSpec) (staff : List StaffSpec) :
    List Problem :=
  staff.flatMap fun spec =>
    checkOrgField units specs spec.employeeNo .divisionCode spec.divisionCode .division ++
      checkOrgField units specs spec.employeeNo .sectionCode spec.sectionCode .sect

/-- The feed as read, or what the in-memory part raises. -/
def prepare (lower : String → String) (units : List OrgUnit) (feed : Feed) :
    Except Raised (List UnitSpec × List StaffSpec) := do
  let (specs, unitErrors) ← ((unitBatch lower).read feed.orgUnits).mapError .conversion
  let (staff, staffErrors) ← ((staffBatch lower).read feed.staff).mapError .conversion
  let errors := unitErrors ++ checkParents units specs ++ detectOrgCycles specs ++ staffErrors ++
    checkStaffUnits units specs staff
  refuse (errors ≠ []) (.directoryIngest errors)
  return (specs, staff)

/-! ## The order of the units -/

def isReady (remaining : List UnitSpec) (spec : UnitSpec) : Bool :=
  spec.parentCode.all fun parent => (specOf remaining parent).isNone

/-- Rounds of units whose parent is not among the remaining, each round sorted by code. -/
def topologicalRounds : ℕ → List UnitSpec → List UnitSpec
  | 0, _ => []
  | rounds + 1, remaining =>
      (remaining.filter (isReady remaining)).insertionSort (fun a b => a.code ≤ b.code) ++
        topologicalRounds rounds (remaining.filter fun spec => ¬ isReady remaining spec)

/-- Each round of an acyclic feed places a unit, so as many rounds as units place them all. -/
def topologicalOrder (specs : List UnitSpec) : List UnitSpec := topologicalRounds specs.length specs

/-! ## Writing the units -/

/-- What stands outside: `str.lower`, and the texts a column can store. -/
structure Platform where
  lower : String → String
  storable : String → String → Bool

def int4 (n : ℤ) : Prop := -2 ^ 31 ≤ n ∧ n < 2 ^ 31

instance (n : ℤ) : Decidable (int4 n) := inferInstanceAs (Decidable (_ ∧ _))

/-- A value for a column that may not be null. -/
def notNull {α : Type} (column : String) (x : Option α) : Except Raised α :=
  found x (.integrityError column)

/-- `code_to_unit[parent_code].id`. -/
def parentId (units : List OrgUnit) (parentCode : Option String) : Except Raised (Option ℕ) :=
  match parentCode with
  | none => .ok none
  | some code => (fun u : OrgUnit => some u.id) <$> found (unitOf units code) .keyError

/-- The new, updated or restored row of a spec. -/
def unitRow (db : Db) (spec : UnitSpec) : Except Raised OrgUnit := do
  let parent ← parentId db.units spec.parentCode
  let name ← notNull "name" spec.name
  let kind ← notNull "kind" (spec.kind.bind OrgUnitKind.ofText?)
  let old := unitOf db.units spec.code
  return {
    id := (old.map (·.id)).getD db.nextUnitId
    code := spec.code
    name := name
    kind := kind
    parentOrgUnitId := parent
    sortOrder := spec.sortOrder
    isActive := spec.isActive
    deletedAt := none
    deletedBy := old.bind fun u => if u.deletedAt.isSome then none else u.deletedBy }

def Db.putUnit (db : Db) (row : OrgUnit) : Db :=
  match unitOf db.units row.code with
  | none => { db with units := db.units ++ [row], nextUnitId := db.nextUnitId + 1 }
  | some _ => { db with units := overwrite OrgUnit.id db.units row }

/-- The columns of a unit hold what they can store. -/
def Platform.storesUnit (plat : Platform) (row : OrgUnit) : Prop :=
  plat.storable "code" row.code ∧ plat.storable "name" row.name ∧ int4 row.sortOrder

instance (plat : Platform) (row : OrgUnit) : Decidable (plat.storesUnit row) :=
  inferInstanceAs (Decidable (_ ∧ _ ∧ _))

/-- Another live row has the code (`uq_core_org_units_code`). -/
def codeTaken (units : List OrgUnit) (row : OrgUnit) : Prop :=
  ∃ u ∈ units, u.id ≠ row.id ∧ u.deletedAt = none ∧ u.code = row.code

instance (units : List OrgUnit) (row : OrgUnit) : Decidable (codeTaken units row) :=
  inferInstanceAs (Decidable (∃ u ∈ units, _))

/-- Write one unit and flush it. -/
def upsertUnit (plat : Platform) (db : Db) (spec : UnitSpec) : Except Raised Db := do
  let row ← unitRow db spec
  refuse (¬ plat.storesUnit row) .dataError
  refuse (codeTaken db.units row) (.integrityError "uq_core_org_units_code")
  return db.putUnit row

/-! ## Writing the staff -/

def employmentStatus (x : Option String) : Except Raised (Option EmploymentStatus) :=
  match x with
  | none => .ok none
  | some s => some <$> found (EmploymentStatus.ofText? s) .dataError

/-- The new, updated or restored row of a spec. -/
def staffRow (db : Db) (spec : StaffSpec) : Except Raised Staff := do
  let given ← notNull "given_name" spec.givenName
  let surname ← notNull "surname" spec.surname
  let fullName ← notNull "full_name" spec.fullName
  let status ← employmentStatus spec.employmentStatus
  let old := staffOf db.staff spec.employeeNo
  return {
    id := (old.map (·.id)).getD db.nextStaffId
    employeeNo := spec.employeeNo
    givenName := given
    middleName := spec.middleName
    surname := surname
    fullName := fullName
    email := spec.email
    positionTitle := spec.positionTitle
    plantillaItemNo := spec.plantillaItemNo
    employmentStatus := status
    divisionId := (spec.divisionCode.bind (unitOf db.units)).map (·.id)
    sectionId := (spec.sectionCode.bind (unitOf db.units)).map (·.id)
    deletedAt := none
    deletedBy := old.bind fun s => if s.deletedAt.isSome then none else s.deletedBy }

/-- The text columns of a staff row. -/
def Staff.texts (s : Staff) : List (String × Option String) :=
  [("employee_no", some s.employeeNo), ("given_name", some s.givenName),
    ("middle_name", s.middleName), ("surname", some s.surname), ("full_name", some s.fullName),
    ("email", s.email), ("position_title", s.positionTitle),
    ("plantilla_item_no", s.plantillaItemNo)]

/-- The columns of a staff row hold what they can store. -/
def Platform.storesStaff (plat : Platform) (s : Staff) : Prop :=
  ∀ entry ∈ s.texts, ∀ x ∈ entry.2, plat.storable entry.1 x

instance (plat : Platform) (s : Staff) : Decidable (plat.storesStaff s) :=
  inferInstanceAs (Decidable (∀ entry ∈ s.texts, ∀ x ∈ entry.2, plat.storable entry.1 x))

/-- Another live row has the number (`uq_core_staff_employee_no`). -/
def numberTaken (staff : List Staff) (row : Staff) : Prop :=
  ∃ s ∈ staff, s.id ≠ row.id ∧ s.deletedAt = none ∧ s.employeeNo = row.employeeNo

instance (staff : List Staff) (row : Staff) : Decidable (numberTaken staff row) :=
  inferInstanceAs (Decidable (∃ s ∈ staff, _))

/-- Another live row has the address (`uq_core_staff_email`). -/
def emailTaken (staff : List Staff) (row : Staff) : Prop :=
  ∃ s ∈ staff, s.id ≠ row.id ∧ s.deletedAt = none ∧ s.email ≠ none ∧ s.email = row.email

instance (staff : List Staff) (row : Staff) : Decidable (emailTaken staff row) :=
  inferInstanceAs (Decidable (∃ s ∈ staff, _))

def Db.putStaff (db : Db) (row : Staff) : Db :=
  match staffOf db.staff row.employeeNo with
  | none => { db with staff := db.staff ++ [row], nextStaffId := db.nextStaffId + 1 }
  | some _ => { db with staff := overwrite Staff.id db.staff row }

/-- One statement of the staff flush, an INSERT or an UPDATE. -/
def upsertStaff (plat : Platform) (db : Db) (spec : StaffSpec) : Except Raised Db := do
  let row ← staffRow db spec
  refuse (¬ plat.storesStaff row) .dataError
  refuse (numberTaken db.staff row) (.integrityError "uq_core_staff_employee_no")
  refuse (emailTaken db.staff row) (.integrityError "uq_core_staff_email")
  return db.putStaff row

/-- The unit of work emits the updates by primary key, then the inserts in the order added. -/
def staffOrder (staff : List Staff) (specs : List StaffSpec) : List StaffSpec :=
  let updates := specs.filterMap fun spec => (staffOf staff spec.employeeNo).map (·, spec)
  let inserts := specs.filter fun spec => (staffOf staff spec.employeeNo).isNone
  (updates.insertionSort fun a b => a.1.id ≤ b.1.id).map (·.2) ++ inserts

/-! ## Pruning -/

structure Call where
  feed : Feed
  actorId : Option ℕ := none
  deactivateAbsent : Bool := false
  now : Time := 0

/-- When asked to prune: the live rows, as the ingest sees them, of numbers the feed does not
name. -/
def absentStaff (c : Call) (staff : List Staff) (specs : List StaffSpec) : List Staff :=
  ((staff.map (·.employeeNo)).eraseDups.filterMap (staffOf staff)).filter fun s =>
    c.deactivateAbsent ∧ s.deletedAt = none ∧ ¬ specs.any (·.employeeNo = s.employeeNo)

def softDelete (absent : List Staff) (now : Time) (actorId : Option ℕ) (s : Staff) : Staff :=
  if absent.any (·.id = s.id) then { s with deletedAt := some now, deletedBy := actorId } else s

/-! ## The pass -/

structure IngestResult where
  orgUnitsCreated : List String := []
  orgUnitsUpdated : List String := []
  orgUnitsRestored : List String := []
  staffCreated : List String := []
  staffUpdated : List String := []
  staffRestored : List String := []
  staffDeactivated : List String := []
  deactivatedUserIds : List ℕ := []
deriving DecidableEq, Repr

/-- What a call returned or raised, and the tables its transaction then sees. -/
structure Attempt where
  db : Db
  outcome : Except Raised IngestResult

/-- Which of the rows were new, live or restored. -/
def resultOf (before : Db) (specs : List UnitSpec) (staff : List StaffSpec) (absent : List Staff) :
    IngestResult :=
  let order := (topologicalOrder specs).map (·.code)
  let numbers := staff.map (·.employeeNo)
  { orgUnitsCreated := order.filter fun code => (unitOf before.units code).isNone
    orgUnitsUpdated := order.filter fun code =>
      (unitOf before.units code).any fun u => u.deletedAt = none
    orgUnitsRestored := order.filter fun code =>
      (unitOf before.units code).any fun u => u.deletedAt ≠ none
    staffCreated := numbers.filter fun emp => (staffOf before.staff emp).isNone
    staffUpdated := numbers.filter fun emp =>
      (staffOf before.staff emp).any fun s => s.deletedAt = none
    staffRestored := numbers.filter fun emp =>
      (staffOf before.staff emp).any fun s => s.deletedAt ≠ none
    staffDeactivated := absent.map (·.employeeNo)
    deactivatedUserIds := absent.flatMap fun s =>
      (before.users.filter fun u => u.staffId = some s.id ∧ u.deletedAt = none).map (·.id) }

/-- Write rows until one is refused; what was written before stays in the transaction. -/
def writeAll {ω : Type} (write : Db → ω → Except Raised Db) : List ω → Db → Except (Raised × Db) Db
  | [], db => .ok db
  | w :: ws, db =>
      match write db w with
      | .error e => .error (e, db)
      | .ok db' => writeAll write ws db'

/-- The writes of a feed that passed the checks. -/
def applyFeed (plat : Platform) (c : Call) (db : Db) (specs : List UnitSpec)
    (staff : List StaffSpec) : Except (Raised × Db) (Db × IngestResult) := do
  let placed ← writeAll (upsertUnit plat) (topologicalOrder specs) db
  let written ← writeAll (upsertStaff plat) (staffOrder placed.staff staff) placed
  refuse (c.deactivateAbsent ∧ staff = []) (.directoryIngest [.emptyPrune], written)
  let absent := absentStaff c placed.staff staff
  return ({ written with staff := written.staff.map (softDelete absent c.now c.actorId) },
    resultOf db specs staff absent)

def ingestDirectory (plat : Platform) (c : Call) (db : Db) : Attempt :=
  match prepare plat.lower db.units c.feed with
  | .error e => { db := db, outcome := .error e }
  | .ok (specs, staff) =>
      match applyFeed plat c db specs staff with
      | .error (e, written) => { db := written, outcome := .error e }
      | .ok (db', result) => { db := db', outcome := .ok result }

end OfficeConnect.Ingest
