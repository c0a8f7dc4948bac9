import OfficeConnect.Core.Base

/-!
# The directory: users, org units, grants and delegations

A grant at no unit is global; a grant at a unit covers the unit and everything below it, so an actor
may exercise a permission against a unit when one of their grants is global or sits on the unit's
ancestry.  A delegation lets one person exercise another's authority for a while.
-/

namespace OfficeConnect

structure OrgUnit where
  id : ℕ
  parentOrgUnitId : Option ℕ
  deleted : Bool := false
deriving DecidableEq, Repr

structure User where
  id : ℕ
  staffId : Option ℕ
  isActive : Bool := true
deriving DecidableEq, Repr

structure Staff where
  id : ℕ
  sectionId : Option ℕ
  divisionId : Option ℕ
  employmentStatus : String := "permanent"
  deleted : Bool := false
deriving DecidableEq, Repr

/-- A role grant joined with one permission of its role. -/
structure Grant where
  userId : ℕ
  permission : String
  orgUnitId : Option ℕ
  validFrom : Option Time := none
  validTo : Option Time := none
deriving DecidableEq, Repr

structure Delegation where
  delegatorUserId : ℕ
  delegateUserId : ℕ
  definitionId : Option ℕ := none
  orgUnitId : Option ℕ := none
  startsAt : Time
  endsAt : Time
deriving DecidableEq, Repr

/-- What authorization reads: the live rows, in the order the database returns them, and the clock. -/
structure Directory where
  users : List User := []
  staff : List Staff := []
  orgUnits : List OrgUnit := []
  grants : List Grant := []
  delegations : List Delegation := []
  utcNow : Time := 0
deriving DecidableEq, Repr

namespace Directory

variable (dir : Directory)

def user? (id : ℕ) : Option User := dir.users.find? (·.id = id)

/-- A staff row by id; the soft-delete filter of the session hides deleted rows. -/
def staff? (id : ℕ) : Option Staff := dir.staff.find? fun s => s.id = id ∧ ¬ s.deleted

/-! ## Ancestry -/

def maxAncestryDepth : ℕ := 64

/-- The walk up the parent pointers from `unit`, at most `fuel` rows, stopped by a deleted row. -/
def ancestryFrom : ℕ → Option ℕ → List ℕ
  | 0, _ => []
  | _ + 1, none => []
  | fuel + 1, some unit =>
      match dir.orgUnits.find? fun o => o.id = unit ∧ ¬ o.deleted with
      | none => []
      | some o => o.id :: ancestryFrom fuel o.parentOrgUnitId

/-- `unit` and its ancestors, nearest first. -/
def ancestorsOrSelf (unit : Option ℕ) : List ℕ := dir.ancestryFrom (maxAncestryDepth + 1) unit

/-! ## Grants -/

def Grant.validAt (g : Grant) (now : Time) : Prop :=
  (∀ t ∈ g.validFrom, t ≤ now) ∧ ∀ t ∈ g.validTo, now < t

instance (g : Grant) (now : Time) : Decidable (Grant.validAt g now) :=
  inferInstanceAs (Decidable ((∀ t ∈ g.validFrom, t ≤ now) ∧ ∀ t ∈ g.validTo, now < t))

/-- The scopes at which the user holds `perm` now; `none` is a global grant. -/
def scopedOrgUnits (userId : ℕ) (perm : String) : List (Option ℕ) :=
  (dir.grants.filter fun g =>
    g.userId = userId ∧ g.permission = perm ∧ Grant.validAt g dir.utcNow).map (·.orgUnitId)

/-- Scopes compare by equality. -/
instance : LawfulBEq (Option ℕ) := inferInstance

def authorizeScoped (userId : ℕ) (perm : String) (target : Option ℕ) : Bool :=
  let scopes := dir.scopedOrgUnits userId perm
  if none ∈ scopes then true
  else if target = none then false
  else (dir.ancestorsOrSelf target).any fun unit => some unit ∈ scopes

/-- Pairs `(user, scope)` of the active users who hold `perm` over `target`. -/
def permissionHolders (perm : String) (target : Option ℕ) : List (ℕ × Option ℕ) :=
  let covered := dir.ancestorsOrSelf target
  ((dir.grants.filter fun g =>
    g.permission = perm ∧ Grant.validAt g dir.utcNow ∧
      (dir.users.any fun u => u.id = g.userId ∧ u.isActive) ∧
      (g.orgUnitId = none ∨ ∃ unit ∈ covered, g.orgUnitId = some unit)).map
    fun g => (g.userId, g.orgUnitId)).dedup

end Directory

end OfficeConnect
