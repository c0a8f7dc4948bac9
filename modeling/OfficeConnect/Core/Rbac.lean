import OfficeConnect.Core.Sessions
import Mathlib.Data.Finset.Basic

/-!
# Role grants and the permission cache

A grant or a revocation commits a new `permissions_version` of the user and then stamps it on the
user's live sessions; a request resolves its permissions through a cache entry of the user and the
version its session carries.  A transaction reads what is committed and, from its first audited
flush to its commit, holds the audit lock: that part is one command.
-/

namespace OfficeConnect

open Lib Lib.Threads

/-! ## Tables -/

/-- A grant without a validity window. -/
structure UserRole where
  userId : ℕ
  roleId : ℕ
  orgUnitId : Option ℕ := none
  deleted : Bool := false
deriving DecidableEq, Repr

/-- The committed rows: the `permissions_version` of each live user, the code of each live role and
the permission codes it carries, and the grants by id. -/
structure RbacTables where
  users : ℕ → Option ℕ
  roles : ℕ → Option String
  rolePermissions : ℕ → Finset String
  orgUnits : List ℕ := []
  userRoles : List UserRole := []

namespace RbacTables

/-- The codes of `load_permission_entry`. -/
def permissionCodes (db : RbacTables) (userId : ℕ) : Finset String :=
  (db.userRoles.filter fun g => g.userId = userId ∧ ¬ g.deleted).foldr
    (fun g codes => db.rolePermissions g.roleId ∪ codes) ∅

/-- The rows of a `(user, role, org_unit)` triple, tombstones included. -/
def grantsOf (db : RbacTables) (row : UserRole) : List (ℕ × UserRole) :=
  (db.userRoles.zipIdx.map fun p => (p.2, p.1)).filter fun p =>
    p.2.userId = row.userId ∧ p.2.roleId = row.roleId ∧ p.2.orgUnitId = row.orgUnitId

/-- `_bump_permissions_version` on a user row that was loaded with this version. -/
def bump (db : RbacTables) (userId version : ℕ) : RbacTables :=
  { db with users := Function.update db.users userId ((db.users userId).map fun _ => version + 1) }

/-- The flushes and the commit of `grant_role`, with the rows it loaded before. -/
def saveGrant (db : RbacTables) (existing : Option (ℕ × UserRole)) (row : UserRole)
    (version : ℕ) : Except Raised (ℕ × RbacTables) :=
  match existing with
  | none => do
      refuse (∃ g ∈ db.grantsOf row, ¬ g.2.deleted) (.integrityError "uq_core_user_roles_grant")
      refuse (∃ unit ∈ row.orgUnitId, unit ∉ db.orgUnits)
        (.integrityError "fk_core_user_roles_org_unit_id_core_org_units")
      return (db.userRoles.length,
        { db with userRoles := db.userRoles ++ [row] }.bump row.userId version)
  | some (id, loaded) =>
      if loaded.deleted then do
        refuse (∃ g ∈ db.grantsOf row, ¬ g.2.deleted ∧ g.1 ≠ id)
          (.integrityError "uq_core_user_roles_grant")
        return (id, { db with
          userRoles := db.userRoles.modify id fun g => { g with deleted := false } }.bump
            row.userId version)
      else return (id, db.bump row.userId version)

/-- The flushes and the commit of `revoke_role`; it loads the user after the first flush. -/
def saveRevocation (db : RbacTables) (grantId userId : ℕ) : Except Raised (ℕ × RbacTables) := do
  let version ← found (db.users userId) (.api 404 "not_found" "User not found.")
  return (version, { db with
    userRoles := db.userRoles.modify grantId fun g => { g with deleted := true } }.bump userId version)

end RbacTables

/-! ## Commands -/

/-- The database, the session keys, and the cache entries by user and version. -/
structure RbacWorld where
  db : RbacTables
  redis : Redis := {}
  cache : ℕ × ℕ → Option (Finset String) := fun _ => none

/-- One atomic request to the database or to Redis. -/
inductive RbacCommand : Type → Type 1
  | session {β : Type} (c : Command β) : RbacCommand β
  | selectUser (userId : ℕ) : RbacCommand (Option ℕ)
  | selectRole (roleId : ℕ) : RbacCommand (Option String)
  | selectGrants (row : UserRole) : RbacCommand (List (ℕ × UserRole))
  | selectLiveGrant (grantId userId : ℕ) : RbacCommand (Option UserRole)
  | saveGrant (existing : Option (ℕ × UserRole)) (row : UserRole) (version : ℕ) :
      RbacCommand (Except Raised ℕ)
  | saveRevocation (grantId userId : ℕ) : RbacCommand (Except Raised ℕ)
  | loadEntry (userId : ℕ) : RbacCommand (Finset String)
  | cacheGet (userId version : ℕ) : RbacCommand (Option (Finset String))
  | cacheSet (userId version : ℕ) (codes : Finset String) : RbacCommand Unit
  | cacheDelete (userId version : ℕ) : RbacCommand Unit

/-- Commit, or roll back. -/
def RbacWorld.commit {α : Type} (w : RbacWorld) (result : Except Raised (α × RbacTables)) :
    Except Raised α × RbacWorld :=
  match result with
  | .ok (a, db) => (.ok a, { w with db := db })
  | .error e => (.error e, w)

def RbacCommand.exec : {β : Type} → RbacCommand β → RbacWorld → β × RbacWorld
  | _, .session c, w => ((c.exec w.redis).1, { w with redis := (c.exec w.redis).2 })
  | _, .selectUser userId, w => (w.db.users userId, w)
  | _, .selectRole roleId, w => (w.db.roles roleId, w)
  | _, .selectGrants row, w => (w.db.grantsOf row, w)
  | _, .selectLiveGrant grantId userId, w =>
      (w.db.userRoles[grantId]?.filter fun g => g.userId = userId ∧ ¬ g.deleted, w)
  | _, .saveGrant existing row version, w => w.commit (w.db.saveGrant existing row version)
  | _, .saveRevocation grantId userId, w => w.commit (w.db.saveRevocation grantId userId)
  | _, .loadEntry userId, w => (w.db.permissionCodes userId, w)
  | _, .cacheGet userId version, w => (w.cache (userId, version), w)
  | _, .cacheSet userId version codes, w =>
      ((), { w with cache := Function.update w.cache (userId, version) (some codes) })
  | _, .cacheDelete userId version, w =>
      ((), { w with cache := Function.update w.cache (userId, version) none })

/-! ## The calls -/

inductive RbacAnswer where
  | granted (grantId : ℕ)
  | revoked (grantId : ℕ)
  /-- The user of the session and their permission codes; nothing without a session. -/
  | resolved (codes : Option (ℕ × Finset String))

abbrev Rbac := Prog RbacCommand Raised

/-- What both writers do after their commit. -/
def announce (userId newVersion : ℕ) (answer : RbacAnswer) : Rbac RbacAnswer := do
  let _ ← Prog.lift RbacCommand.session (setPermissionsVersion userId newVersion)
  perform (.cacheDelete userId (newVersion - 1))
  return answer

def grantRole (row : UserRole) : Rbac RbacAnswer := do
  match ← perform (.selectUser row.userId) with
  | none => .raise (.api 404 "not_found" "User not found.")
  | some version =>
      match ← perform (.selectRole row.roleId) with
      | none => .raise (.api 404 "not_found" "Role not found.")
      | some _ =>
          match ← perform (.selectGrants row) with
          | _ :: _ :: _ => .raise .multipleResultsFound
          | existing =>
              match ← perform (.saveGrant existing.head? row version) with
              | .error e => .raise e
              | .ok grantId => announce row.userId (version + 1) (.granted grantId)

def revokeRole (targetUserId grantId : ℕ) : Rbac RbacAnswer := do
  match ← perform (.selectLiveGrant grantId targetUserId) with
  | none => .raise (.api 404 "not_found" "Role grant not found.")
  | some _ =>
      match ← perform (.saveRevocation grantId targetUserId) with
      | .error e => .raise e
      | .ok version => announce targetUserId (version + 1) (.revoked grantId)

def getOrLoad (userId permissionsVersion : ℕ) : Rbac (Finset String) := do
  match ← perform (.cacheGet userId permissionsVersion) with
  | some cached => return cached
  | none => do
      let codes ← perform (.loadEntry userId)
      perform (.cacheSet userId permissionsVersion codes)
      return codes

/-- A request: the session is touched, and its version's entry resolved. -/
def effectivePermissionCodes (settings : SessionSettings) (sid : ℕ) (now : Time) :
    Rbac RbacAnswer := do
  match ← Prog.lift RbacCommand.session (touch settings sid now) with
  | none => return .resolved none
  | some rec => do
      let codes ← getOrLoad rec.userId rec.permissionsVersion
      return .resolved (some (rec.userId, codes))

inductive RbacCall where
  | grantRole (row : UserRole)
  | revokeRole (targetUserId grantId : ℕ)
  | request (sid : ℕ) (now : Time)
deriving DecidableEq, Repr

def rbacProg (settings : SessionSettings) : RbacCall → Rbac RbacAnswer
  | .grantRole row => grantRole row
  | .revokeRole targetUserId grantId => revokeRole targetUserId grantId
  | .request sid now => effectivePermissionCodes settings sid now

/-- A key that expires. -/
inductive RbacExpiry where
  | session (e : Expiry)
  | entry (userId version : ℕ)
deriving DecidableEq, Repr

def RbacExpiry.apply (e : RbacExpiry) (w : RbacWorld) : RbacWorld :=
  match e with
  | .session e => { w with redis := e.apply w.redis }
  | .entry userId version => { w with cache := Function.update w.cache (userId, version) none }

def rbacService (settings : SessionSettings) :
    Service RbacCommand Raised RbacAnswer RbacWorld RbacCall RbacExpiry where
  exec := RbacCommand.exec
  prog := rbacProg settings
  env := RbacExpiry.apply

abbrev RbacMove := Move RbacCall RbacExpiry

abbrev RbacSystem := System RbacCommand Raised RbacAnswer RbacWorld RbacCall

/-- The system after a list of moves, no call having been made before. -/
def runRbac (settings : SessionSettings) (w : RbacWorld) (moves : List RbacMove) : RbacSystem :=
  run (rbacService settings).step { store := w } moves

end OfficeConnect
