import OfficeConnect.Core.Base
import OfficeConnect.Lib.Threads
import Mathlib.Data.List.Sort

/-!
# The session store

A session is a Redis hash under its id, and each user has a sorted set of the ids of their sessions.
A call is a sequence of commands, a `MULTI`/`EXEC` pipeline being one; requests interleave between
them, and any key may expire, so its TTL is not kept.  An id is drawn in the pipeline that first
uses it: until then nobody knows it.
-/

namespace OfficeConnect

open Lib Lib.Threads

/-! ## Policy -/

structure SessionSettings where
  absoluteSeconds : ℤ := 12 * 3600
  idlePrivilegedSeconds : ℤ := 30 * 60
  idleStaffSeconds : ℤ := 60 * 60
  maxConcurrent : ℤ := 3
  capPolicy : String := "evict_oldest"
deriving DecidableEq, Repr

def privilegedRoleCodes : List String := ["system_admin", "approver", "auditor"]

def idleTierFor (roles : List String) : String :=
  if ∃ r ∈ roles, r ∈ privilegedRoleCodes then "privileged" else "staff"

def idleSecondsFor (idleTier : String) (settings : SessionSettings) : ℤ :=
  if idleTier = "privileged" then settings.idlePrivilegedSeconds else settings.idleStaffSeconds

/-- None while the session is valid. -/
def expiryReason (createdAt lastSeenAt : Time) (idleTier : String) (settings : SessionSettings)
    (now : Time) : Option String :=
  if createdAt + settings.absoluteSeconds ≤ now then some "absolute"
  else if lastSeenAt + idleSecondsFor idleTier settings ≤ now then some "idle"
  else none

/-! ## Records -/

structure SessionRecord where
  sid : ℕ
  userId : ℕ
  email : String
  permissionsVersion : ℕ
  createdAt : Time
  lastSeenAt : Time
  lastAuthAt : Time
  ip : Option String
  userAgent : Option String
  idleTier : String
  roles : List String
  mustChangePassword : Bool
  mfaSetupRequired : Bool
  mfaAuthenticated : Bool
deriving DecidableEq, Repr

/-- The fields of a session's hash; a missing one is `none`. -/
structure SessionHash where
  userId : Option ℕ := none
  email : Option String := none
  permissionsVersion : Option ℕ := none
  createdAt : Option Time := none
  lastSeenAt : Option Time := none
  lastAuthAt : Option Time := none
  ip : Option String := none
  userAgent : Option String := none
  idleTier : Option String := none
  roles : Option String := none
  mustChangePassword : Option Bool := none
  mfaSetupRequired : Option Bool := none
  mfaAuthenticated : Option Bool := none
deriving DecidableEq, Repr

def SessionRecord.encode (rec : SessionRecord) : SessionHash :=
  { userId := some rec.userId
    email := some rec.email
    permissionsVersion := some rec.permissionsVersion
    createdAt := some rec.createdAt
    lastSeenAt := some rec.lastSeenAt
    lastAuthAt := some rec.lastAuthAt
    ip := some (rec.ip.getD "")
    userAgent := some (rec.userAgent.getD "")
    idleTier := some rec.idleTier
    roles := some (",".intercalate rec.roles)
    mustChangePassword := some rec.mustChangePassword
    mfaSetupRequired := some rec.mfaSetupRequired
    mfaAuthenticated := some rec.mfaAuthenticated }

/-- `m.get(field) or None`. -/
def nonempty (x : Option String) : Option String := if blank x then none else x

def SessionHash.decode (sid : ℕ) (m : SessionHash) : Except Raised SessionRecord := do
  let userId ← found m.userId .keyError
  let createdAt ← found m.createdAt .keyError
  let lastSeenAt ← found m.lastSeenAt .keyError
  return {
    sid := sid
    userId := userId
    email := m.email.getD ""
    permissionsVersion := m.permissionsVersion.getD 0
    createdAt := createdAt
    lastSeenAt := lastSeenAt
    lastAuthAt := m.lastAuthAt.getD createdAt
    ip := nonempty m.ip
    userAgent := nonempty m.userAgent
    idleTier := (nonempty m.idleTier).getD "staff"
    roles := ((m.roles.getD "").splitOn ",").filter (· ≠ "")
    mustChangePassword := m.mustChangePassword.getD false
    mfaSetupRequired := m.mfaSetupRequired.getD false
    mfaAuthenticated := m.mfaAuthenticated.getD false }

/-! ## Redis -/

/-- Who an id was drawn for, and the session it replaces.  No call reads this. -/
structure Birth where
  userId : ℕ
  parent : Option ℕ := none
deriving DecidableEq, Repr

/-- The keys of the session database; the ids drawn so far are the positions of `births`. -/
structure Redis where
  hashes : ℕ → Option SessionHash := fun _ => none
  members : ℕ → List (ℕ × Time) := fun _ => []
  births : List Birth := []

namespace Redis

/-- `HSET`, which creates a missing key. -/
def hset (r : Redis) (sid : ℕ) (f : SessionHash → SessionHash) : Redis :=
  { r with hashes := Function.update r.hashes sid (some (f ((r.hashes sid).getD {}))) }

def delete (r : Redis) (sids : List ℕ) : Redis :=
  { r with hashes := fun sid => if sid ∈ sids then none else r.hashes sid }

def setMembers (r : Redis) (userId : ℕ) (members : List (ℕ × Time)) : Redis :=
  { r with members := Function.update r.members userId members }

def zadd (r : Redis) (userId sid : ℕ) (score : Time) : Redis :=
  r.setMembers userId ((r.members userId).filter (·.1 ≠ sid) ++ [(sid, score)])

def zrem (r : Redis) (userId : ℕ) (sids : List ℕ) : Redis :=
  r.setMembers userId ((r.members userId).filter (·.1 ∉ sids))

/-- Record a new id. -/
def bear (r : Redis) (b : Birth) : Redis := { r with births := r.births ++ [b] }

/-- The members of a user's index, by score. -/
def zrange (r : Redis) (userId : ℕ) : List ℕ :=
  ((r.members userId).insertionSort fun a b => a.2 < b.2 ∨ a.2 = b.2 ∧ a.1 ≤ b.1).map (·.1)

end Redis

/-- One atomic request to Redis. -/
inductive Command : Type → Type
  | hgetall (sid : ℕ) : Command (Option SessionHash)
  | hgetUserId (sid : ℕ) : Command (Option ℕ)
  | zrange (userId : ℕ) : Command (List ℕ)
  | zrangeTo (userId count : ℕ) : Command (List ℕ)
  | zcard (userId : ℕ) : Command ℕ
  | present (sids : List ℕ) : Command (List Bool)
  | zrem (userId : ℕ) (sids : List ℕ) : Command Unit
  /-- The pipeline of `create_session`. -/
  | mint (userId : ℕ) (hash : SessionHash) (score : Time) : Command ℕ
  /-- The pipeline of `touch`. -/
  | slide (sid : ℕ) (now : Time) : Command Unit
  /-- The pipeline of `regenerate_id`. -/
  | rotate (sid : ℕ) (hash : SessionHash) (userId : ℕ) (score : Time) : Command ℕ
  /-- The pipelines that delete sessions and take them out of an index. -/
  | drop (userId : Option ℕ) (sids : List ℕ) : Command Unit
  /-- The pipeline of `set_permissions_version`. -/
  | stamp (sids : List ℕ) (permissionsVersion : ℕ) : Command Unit

def Command.exec : {β : Type} → Command β → Redis → β × Redis
  | _, .hgetall sid, r => (r.hashes sid, r)
  | _, .hgetUserId sid, r => ((r.hashes sid).bind (·.userId), r)
  | _, .zrange userId, r => (r.zrange userId, r)
  | _, .zrangeTo userId count, r => ((r.zrange userId).take count, r)
  | _, .zcard userId, r => ((r.members userId).length, r)
  | _, .present sids, r => (sids.map fun sid => (r.hashes sid).isSome, r)
  | _, .zrem userId sids, r => ((), r.zrem userId sids)
  | _, .mint userId hash score, r =>
      let sid := r.births.length
      (sid, ((r.bear { userId := userId }).hset sid fun _ => hash).zadd userId sid score)
  | _, .slide sid now, r => ((), r.hset sid fun h => { h with lastSeenAt := some now })
  | _, .rotate old hash userId score, r =>
      let sid := r.births.length
      (sid, ((((r.bear { userId := userId, parent := some old }).hset sid fun _ => hash).zadd
        userId sid score).zrem userId [old]).delete [old])
  | _, .drop none sids, r => ((), r.delete sids)
  | _, .drop (some userId) sids, r => ((), (r.delete sids).zrem userId sids)
  | _, .stamp sids version, r =>
      ((), { r with hashes := fun sid =>
        if sid ∈ sids then (r.hashes sid).map fun h => { h with permissionsVersion := some version }
        else r.hashes sid })

/-! ## The calls -/

abbrev Sessions := Prog Command Raised

def destroy (sid : ℕ) (userId : Option ℕ) : Sessions Unit := do
  let userId ← match userId with
    | some id => pure (some id)
    | none => perform (.hgetUserId sid)
  perform (.drop userId [sid])

def getSessionRecord (settings : SessionSettings) (sid : ℕ) (now : Time) :
    Sessions (Option SessionRecord) := do
  match ← perform (.hgetall sid) with
  | none => return none
  | some mapping =>
      match mapping.decode sid with
      | .error e => .raise e
      | .ok rec =>
          if expiryReason rec.createdAt rec.lastSeenAt rec.idleTier settings now ≠ none then do
            destroy sid (some rec.userId)
            return none
          else return some rec

def touch (settings : SessionSettings) (sid : ℕ) (now : Time) : Sessions (Option SessionRecord) := do
  match ← getSessionRecord settings sid now with
  | none => return none
  | some rec => do
      perform (.slide sid now)
      return some { rec with lastSeenAt := now }

/-- The record fields a caller of `regenerate_id` may override. -/
structure Overrides where
  permissionsVersion : Option ℕ := none
  lastAuthAt : Option Time := none
  idleTier : Option String := none
  roles : Option (List String) := none
  mustChangePassword : Option Bool := none
  mfaSetupRequired : Option Bool := none
  mfaAuthenticated : Option Bool := none
deriving DecidableEq, Repr

def Overrides.applyTo (o : Overrides) (rec : SessionRecord) : SessionRecord :=
  { rec with
    permissionsVersion := o.permissionsVersion.getD rec.permissionsVersion
    lastAuthAt := o.lastAuthAt.getD rec.lastAuthAt
    idleTier := (o.idleTier.or (o.roles.map idleTierFor)).getD rec.idleTier
    roles := o.roles.getD rec.roles
    mustChangePassword := o.mustChangePassword.getD rec.mustChangePassword
    mfaSetupRequired := o.mfaSetupRequired.getD rec.mfaSetupRequired
    mfaAuthenticated := o.mfaAuthenticated.getD rec.mfaAuthenticated }

def regenerateId (settings : SessionSettings) (sid : ℕ) (overrides : Overrides) (now : Time) :
    Sessions (Option ℕ) := do
  match ← getSessionRecord settings sid now with
  | none => return none
  | some rec => do
      let newSid ← perform
        (.rotate sid (overrides.applyTo rec).encode rec.userId rec.createdAt)
      return some newSid

def pruneUserIndex (userId : ℕ) : Sessions Unit := do
  let sids ← perform (.zrange userId)
  if sids = [] then return ()
  else do
    let existing ← perform (.present sids)
    let stale := ((sids.zip existing).filter fun p => ¬ p.2).map (·.1)
    if stale = [] then return ()
    else perform (.zrem userId stale)

/-- What is left of `destroy_all_for_user` after it has read the index. -/
def destroyListed (userId : ℕ) (exceptSid : Option ℕ) (sids : List ℕ) : Sessions ℕ :=
  let doomed := sids.filter (some · ≠ exceptSid)
  if doomed = [] then return 0
  else do
    perform (.drop (some userId) doomed)
    return doomed.length

def destroyAllForUser (userId : ℕ) (exceptSid : Option ℕ) : Sessions ℕ := do
  let sids ← perform (.zrange userId)
  destroyListed userId exceptSid sids

/-- What is left of `set_permissions_version` after it has read the index. -/
def stampListed (permissionsVersion : ℕ) (sids : List ℕ) : Sessions ℕ :=
  if sids = [] then return 0
  else do
    perform (.stamp sids permissionsVersion)
    return sids.length

def setPermissionsVersion (userId permissionsVersion : ℕ) : Sessions ℕ := do
  pruneUserIndex userId
  let sids ← perform (.zrange userId)
  stampListed permissionsVersion sids

structure NewSession where
  userId : ℕ
  email : String
  permissionsVersion : ℕ
  roles : List String
  ip : Option String := none
  userAgent : Option String := none
  mustChangePassword : Bool := false
  mfaSetupRequired : Bool := false
  mfaAuthenticated : Bool := true
  now : Time
deriving DecidableEq, Repr

/-- The record of a login; its id is drawn by the pipeline. -/
def NewSession.record (a : NewSession) (sid : ℕ) : SessionRecord :=
  { sid := sid
    userId := a.userId
    email := a.email
    permissionsVersion := a.permissionsVersion
    createdAt := a.now
    lastSeenAt := a.now
    lastAuthAt := a.now
    ip := a.ip
    userAgent := a.userAgent
    idleTier := idleTierFor a.roles
    roles := a.roles
    mustChangePassword := a.mustChangePassword
    mfaSetupRequired := a.mfaSetupRequired
    mfaAuthenticated := a.mfaAuthenticated }

def sessionCapReached (userId count : ℕ) (cap : ℤ) : Raised :=
  .sessionCapReached s!"user {userId} already has {count} active sessions (cap {cap})"

/-- What is left of `_enforce_cap` after it has counted the sessions. -/
def makeRoom (settings : SessionSettings) (userId count : ℕ) : Sessions Unit :=
  if settings.capPolicy = "reject" then
    if settings.maxConcurrent ≤ count then
      .raise (sessionCapReached userId count settings.maxConcurrent)
    else return ()
  else
    let toRemove := count - (settings.maxConcurrent - 1)
    if toRemove ≤ 0 then return ()
    else do
      let oldest ← perform (.zrangeTo userId toRemove.toNat)
      perform (.drop (some userId) oldest)

def enforceCap (settings : SessionSettings) (userId : ℕ) : Sessions Unit :=
  if settings.maxConcurrent < 1 then return ()
  else do
    pruneUserIndex userId
    let count ← perform (.zcard userId)
    makeRoom settings userId count

/-- The insertion; the encoding of a record does not hold its id. -/
def insertSession (a : NewSession) : Sessions ℕ :=
  perform (.mint a.userId (a.record 0).encode a.now)

def createSession (settings : SessionSettings) (a : NewSession) : Sessions ℕ := do
  enforceCap settings a.userId
  insertSession a

/-! ## The service -/

inductive SessionCall where
  | createSession (a : NewSession)
  | getSessionRecord (sid : ℕ) (now : Time)
  | touch (sid : ℕ) (now : Time)
  | regenerateId (sid : ℕ) (overrides : Overrides) (now : Time)
  | destroy (sid : ℕ) (userId : Option ℕ)
  | destroyAllForUser (userId : ℕ) (exceptSid : Option ℕ)
  | setPermissionsVersion (userId permissionsVersion : ℕ)
deriving DecidableEq, Repr

inductive Answer where
  | created (sid : ℕ)
  | loaded (rec : Option SessionRecord)
  | rotated (sid : Option ℕ)
  | count (n : ℕ)
  | done
deriving DecidableEq, Repr

def sessionProg (settings : SessionSettings) : SessionCall → Sessions Answer
  | .createSession a => do return .created (← createSession settings a)
  | .getSessionRecord sid now => do return .loaded (← getSessionRecord settings sid now)
  | .touch sid now => do return .loaded (← touch settings sid now)
  | .regenerateId sid overrides now => do
      return .rotated (← regenerateId settings sid overrides now)
  | .destroy sid userId => do
      destroy sid userId
      return .done
  | .destroyAllForUser userId exceptSid => do
      return .count (← destroyAllForUser userId exceptSid)
  | .setPermissionsVersion userId version => do
      return .count (← setPermissionsVersion userId version)

/-- A key that expires. -/
inductive Expiry where
  | session (sid : ℕ)
  | userIndex (userId : ℕ)
deriving DecidableEq, Repr

def Expiry.apply (e : Expiry) (r : Redis) : Redis :=
  match e with
  | .session sid => r.delete [sid]
  | .userIndex userId => r.setMembers userId []

def sessionService (settings : SessionSettings) :
    Service Command Raised Answer Redis SessionCall Expiry where
  exec := Command.exec
  prog := sessionProg settings
  env := Expiry.apply

abbrev SessionMove := Move SessionCall Expiry

abbrev SessionSystem := System Command Raised Answer Redis SessionCall

/-- The system after a list of moves from an empty database. -/
def runSessions (settings : SessionSettings) (moves : List SessionMove) : SessionSystem :=
  run (sessionService settings).step { store := {} } moves

end OfficeConnect
