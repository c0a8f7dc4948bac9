import OfficeConnect.Core.Mfa
import OfficeConnect.Core.Sessions
import OfficeConnect.Core.Snapshots
import OfficeConnect.Core.Throttle

/-!
# Logging in

A login checks the throttle and the password and then opens a session, or leaves a token for the
second factor; a session opens the routes.  A request is a sequence of commands to the database, to
Redis and to the password hasher, and requests of anyone interleave between any two of them.
-/

namespace OfficeConnect.Auth

open Lib Lib.Threads

/-! ## What the code is given -/

/-- The hasher, Unicode and the authenticator. -/
structure Primitives where
  verifyPassword : String → String → Bool
  hashPassword : String → String → String
  needsRehash : String → Bool
  dummyHash : String
  normalize : String → String
  lower : String → String
  sqlLower : String → String
  casefold : String → String
  digest : String → String
  isBlocklisted : String → Bool
  totp : Mfa.Totp

structure AuthSettings where
  sessions : SessionSettings := {}
  throttle : ThrottleSettings := {}
  mfaRequiredRoleCodes : List String := ["system_admin", "approver"]
  mfaValidWindow : ℕ := 1
  pwdMinLength : ℕ := 12
  pwdMaxLength : ℕ := 128

def requiresMfa (roleCodes : List String) (settings : AuthSettings) : Bool :=
  ∃ code ∈ roleCodes, code ∈ settings.mfaRequiredRoleCodes

/-! ## The password policy -/

inductive PolicyError where
  | tooShort | tooLong | blocklisted | containsIdentifier
deriving DecidableEq, Repr

/-- The local part of the email is in the password, if it has at least four characters. -/
def containsIdentifier (P : Primitives) (password : String) (email : Option String) : Bool :=
  let pw := P.casefold password
  match email with
  | none => false
  | some email =>
      let c := P.casefold (Ingest.strip (String.ofList (email.toList.takeWhile (· ≠ '@'))))
      email ≠ "" ∧ 4 ≤ c.length ∧ c.toList <:+: pw.toList

/-- `validate_password`: every failure of the policy. -/
def policyErrors (P : Primitives) (settings : AuthSettings) (password : String)
    (email : Option String) : List PolicyError :=
  let normalized := P.normalize password
  (if normalized.length < settings.pwdMinLength then [.tooShort] else []) ++
    (if settings.pwdMaxLength < normalized.length then [.tooLong] else []) ++
    (if P.isBlocklisted normalized then [.blocklisted] else []) ++
    if containsIdentifier P normalized email then [.containsIdentifier] else []

/-! ## Tables and keys -/

/-- A live row of `core_users`. -/
structure Account where
  id : ℕ
  email : String
  passwordHash : Option String := none
  mustChangePassword : Bool := false
  passwordChangedAt : Option Time := none
  mfaEnabled : Bool := false
  mfaSecret : Option String := none
  isActive : Bool := true
  isBreakGlass : Bool := false
  permissionsVersion : ℕ := 0
  lastLoginAt : Option Time := none
deriving DecidableEq, Repr

inductive AttemptOutcome where
  | success | failure | throttled | mfaRequired | mfaFailure
deriving DecidableEq, Repr

/-- A row of `core_login_attempts`; a session is named by its id, which is stored hashed. -/
structure LoginAttempt where
  userId : Option ℕ
  attemptedIdentifier : String
  outcome : AttemptOutcome
  failureReason : Option String := none
  ip : Option String
  userAgent : Option String
  sessionId : Option ℕ := none
deriving DecidableEq, Repr

/-- What a login leaves for its second factor. -/
structure Pending where
  userId : ℕ
  ip : Option String
deriving DecidableEq, Repr

/-- The caller of a request, as its session's record names it. -/
structure Principal where
  userId : ℕ
  sessionId : ℕ
  email : String
  permissionsVersion : ℕ
  roles : List String
  idleTier : String
  isPrivileged : Bool
  mustChangePassword : Bool
  mfaAuthenticated : Bool
  mfaSetupRequired : Bool
deriving DecidableEq, Repr

def Principal.fromRecord (rec : SessionRecord) : Principal :=
  { userId := rec.userId
    sessionId := rec.sid
    email := rec.email
    permissionsVersion := rec.permissionsVersion
    roles := rec.roles
    idleTier := rec.idleTier
    isPrivileged := rec.idleTier = "privileged"
    mustChangePassword := rec.mustChangePassword
    mfaAuthenticated := rec.mfaAuthenticated
    mfaSetupRequired := rec.mfaSetupRequired }

/-- A check that a request passed, or the roles a login read. -/
inductive Proof where
  | password (userId : ℕ) (password hash : String)
  | code (userId : ℕ) (secret code : String)
  | roles (userId : ℕ) (codes : List String)
deriving DecidableEq, Repr

/-- The versions of rows that were ever committed, and the checks that passed.  No call reads this. -/
structure Ledger where
  versions : List Account := []
  proofs : List Proof := []

/-- The committed rows, the keys in Redis, and the clock of the throttle in milliseconds; a token is
the position of what it stands for.  Beside the ledger, `served` are the requests that reached their
route. -/
structure AuthWorld where
  accounts : List Account := []
  roles : ℕ → List String := fun _ => []
  attempts : List LoginAttempt := []
  clock : ℤ := 0
  throttle : Throttle ThrottleKey := {}
  pendings : List (Option Pending) := []
  desk : Mfa.Desk := {}
  redis : Redis := {}
  ledger : Ledger := {}
  served : List Principal := []

namespace AuthWorld

def selectUser (w : AuthWorld) (id : ℕ) : Option Account := w.accounts.find? (·.id = id)

/-- Commit rows of `core_users`. -/
def save (accounts : List Account) (w : AuthWorld) : AuthWorld :=
  { w with
    accounts := accounts
    ledger := { w.ledger with versions := w.ledger.versions ++ accounts } }

/-- An `UPDATE` of one row. -/
def update (id : ℕ) (f : Account → Account) (w : AuthWorld) : AuthWorld :=
  w.save (w.accounts.map fun a => if a.id = id then f a else a)

def prove (e : Proof) (w : AuthWorld) : AuthWorld :=
  { w with ledger := { w.ledger with proofs := w.ledger.proofs ++ [e] } }

end AuthWorld

/-! ## Commands -/

/-- One atomic request to the database, to Redis, or to the hasher. -/
inductive AuthCommand : Type → Type 1
  | session {β : Type} (c : Command β) : AuthCommand β
  /-- The pipeline of the throttle's `check`. -/
  | ttls (keys : List ThrottleKey) : AuthCommand (List ℤ)
  | incr (key : ThrottleKey) : AuthCommand ℕ
  | expire (key : ThrottleKey) (seconds : ℤ) : AuthCommand Unit
  | block (key : ThrottleKey) (seconds : ℤ) : AuthCommand Unit
  | reset (keys : List ThrottleKey) : AuthCommand Unit
  | selectByEmail (lowered : String) : AuthCommand (List Account)
  | selectUser (id : ℕ) : AuthCommand (Option Account)
  | roleCodes (id : ℕ) : AuthCommand (List String)
  | verify (owner : Option ℕ) (password hash : String) : AuthCommand Bool
  /-- Commit the rows a session added and the columns it changed. -/
  | commit (attempts : List LoginAttempt) (edit : Option (ℕ × (Account → Account))) :
      AuthCommand Unit
  | putPending (p : Pending) : AuthCommand ℕ
  | getPending (token : ℕ) : AuthCommand (Option Pending)
  | deletePending (token : ℕ) : AuthCommand Unit
  | verifyCode (userId : ℕ) (secret code : String) : AuthCommand Bool
  | matchCounter (secret code : String) : AuthCommand (Option ℤ)
  | useCounter (userId : ℕ) (counter : ℤ) : AuthCommand Bool
  /-- The route behind the gate. -/
  | serve (p : Principal) : AuthCommand Unit

def AuthCommand.exec (P : Primitives) (settings : AuthSettings) :
    {β : Type} → AuthCommand β → AuthWorld → β × AuthWorld
  | _, .session c, w => ((c.exec w.redis).1, { w with redis := (c.exec w.redis).2 })
  | _, .ttls keys, w => (keys.map fun key => w.throttle.pttl w.clock key, w)
  | _, .incr key, w =>
      let (fails, throttle) := w.throttle.incr w.clock key
      (fails, { w with throttle := throttle })
  | _, .expire key seconds, w => ((), { w with throttle := w.throttle.expire w.clock key seconds })
  | _, .block key seconds, w => ((), { w with throttle := w.throttle.block w.clock key seconds })
  | _, .reset keys, w => ((), { w with throttle := w.throttle.reset keys })
  | _, .selectByEmail lowered, w => (w.accounts.filter fun a => P.sqlLower a.email = lowered, w)
  | _, .selectUser id, w => (w.selectUser id, w)
  | _, .roleCodes id, w => (w.roles id, w.prove (.roles id (w.roles id)))
  | _, .verify owner password hash, w =>
      let ok := P.verifyPassword password hash
      match owner with
      | none => (ok, w)
      | some id => (ok, if ok then w.prove (.password id password hash) else w)
  | _, .commit attempts edit, w =>
      let w := { w with attempts := w.attempts ++ attempts }
      match edit with
      | none => ((), w)
      | some (id, f) => ((), w.update id f)
  | _, .putPending p, w => (w.pendings.length, { w with pendings := w.pendings ++ [some p] })
  | _, .getPending token, w => (w.pendings[token]?.join, w)
  | _, .deletePending token, w => ((), { w with pendings := w.pendings.set token none })
  | _, .verifyCode userId secret code, w =>
      let ok := P.totp.verifyCode settings.mfaValidWindow secret code w.desk.now
      (ok, if ok then w.prove (.code userId secret code) else w)
  | _, .matchCounter secret code, w =>
      (P.totp.matchedCounter settings.mfaValidWindow secret code w.desk.now, w)
  | _, .useCounter userId counter, w =>
      let (stored, desk) := w.desk.setNx (userId, counter)
        ((2 * settings.mfaValidWindow + 2) * P.totp.interval)
      (stored, { w with desk := desk })
  | _, .serve p, w => ((), { w with served := w.served ++ [p] })

abbrev Flow := Prog AuthCommand Raised

/-- A check of the request within its program. -/
def demand {α : Type} : Except Raised α → Flow α
  | .ok a => .ret a
  | .error e => .raise e

/-! ## The throttle and the second factor -/

/-- The loop of `register_failure`. -/
def registerFailure (settings : ThrottleSettings) : List ThrottleKey → Flow Unit
  | [] => return ()
  | key :: keys => do
      let fails ← perform (.incr key)
      perform (.expire key settings.windowSeconds)
      let delay := settings.backoffSeconds fails
      if 0 < delay then do
        perform (.block key delay)
        registerFailure settings keys
      else registerFailure settings keys

def checkAndConsume (userId : ℕ) (secret code : String) : Flow Bool := do
  let verified ← perform (.verifyCode userId secret code)
  if verified then
    match ← perform (.matchCounter secret code) with
    | none => return true
    | some counter => perform (.useCounter userId counter)
  else return false

/-! ## The service -/

/-- Who asks, from where, and the instants the call reads. -/
structure Client where
  ip : Option String := none
  userAgent : Option String := none
  now : Time := 0
deriving DecidableEq, Repr

inductive LoginResult where
  | success (sid userId : ℕ) (mustChangePassword mfaSetupRequired : Bool)
  | invalid
  | throttled (retryAfter : ℤ)
  | mfaRequired (userId token : ℕ)
  | mfaFailed (userId : ℕ)
deriving DecidableEq, Repr

def attempt (client : Client) (userId : Option ℕ) (identifier : String) (outcome : AttemptOutcome)
    (failureReason : Option String) (sessionId : Option ℕ) : LoginAttempt :=
  { userId := userId
    attemptedIdentifier := String.ofList (identifier.toList.take 320)
    outcome := outcome
    failureReason := failureReason
    ip := client.ip
    userAgent := client.userAgent
    sessionId := sessionId }

/-- The tail of both successes; `edit` is what the login changed on the row before. -/
def createSessionFor (settings : AuthSettings) (client : Client) (user : Account)
    (roles : List String) (mfaSetupRequired : Bool) (edit : Account → Account) :
    Flow LoginResult := do
  let sid ← Prog.lift AuthCommand.session (createSession settings.sessions {
    userId := user.id
    email := user.email
    permissionsVersion := user.permissionsVersion
    roles := roles
    ip := client.ip
    userAgent := client.userAgent
    mustChangePassword := user.mustChangePassword
    mfaSetupRequired := mfaSetupRequired
    mfaAuthenticated := true
    now := client.now })
  perform (.commit [attempt client (some user.id) user.email .success none (some sid)]
    (some (user.id, fun a => { edit a with lastLoginAt := some client.now })))
  return .success sid user.id user.mustChangePassword mfaSetupRequired

/-- The local verifier; a row without a hash has no password. -/
def verifyOwn (user : Account) (password : String) : Flow Bool :=
  if blank user.passwordHash then return false
  else perform (.verify (some user.id) password (user.passwordHash.getD ""))

/-- The verifier of a login: without a row or a hash, as much work on a hash of nobody's. -/
def verifyLogin (P : Primitives) (user : Option Account) (password : String) : Flow Bool := do
  match user.filter fun user => ¬ blank user.passwordHash with
  | some user => verifyOwn user password
  | none => do
      let _ ← perform (.verify none password P.dummyHash)
      return false

structure LoginRequest where
  identifier : String
  password : String
  /-- The salt of a new hash. -/
  salt : String := ""
  client : Client := {}
deriving DecidableEq, Repr

/-- The cost upgrade of a hash. -/
def rehash (P : Primitives) (r : LoginRequest) (user : Account) : Account → Account := fun a =>
  if P.needsRehash (user.passwordHash.getD "") then
    { a with passwordHash := some (P.hashPassword r.salt (P.normalize r.password)) }
  else a

/-- What is left of a login once the password is proven. -/
def admitLogin (P : Primitives) (settings : AuthSettings) (r : LoginRequest)
    (keys : List ThrottleKey) (user : Account) : Flow LoginResult := do
  perform (.reset keys)
  let roles ← perform (.roleCodes user.id)
  if user.mfaEnabled then do
    let token ← perform (.putPending { userId := user.id, ip := r.client.ip })
    perform (.commit [attempt r.client (some user.id) (Ingest.strip r.identifier) .mfaRequired none
      none] (some (user.id, rehash P r user)))
    return .mfaRequired user.id token
  else createSessionFor settings r.client user roles (requiresMfa roles settings) (rehash P r user)

def login (P : Primitives) (settings : AuthSettings) (r : LoginRequest) : Flow LoginResult := do
  let ident := Ingest.strip r.identifier
  let keys := throttleKeys P.digest P.casefold ident r.client.ip
  let decision := throttleDecision (← perform (.ttls keys))
  if decision.allowed then do
    let user ← demand (scalarOneOrNone (← perform (.selectByEmail (P.lower ident))))
    let ok ← verifyLogin P user (P.normalize r.password)
    match user.filter fun user => ok ∧ user.isActive with
    | none => do
        let reason := if user = none ∨ ¬ ok then "bad_credentials" else "inactive"
        registerFailure settings.throttle keys
        perform (.commit
          [attempt r.client (user.map (·.id)) ident .failure (some reason) none] none)
        return .invalid
    | some user => admitLogin P settings r keys user
  else do
    perform (.commit [attempt r.client none ident .throttled (some "throttled") none] none)
    return .throttled decision.retryAfter

def completeMfa (settings : AuthSettings) (client : Client) (token : ℕ) (code : String) :
    Flow LoginResult := do
  match ← perform (.getPending token) with
  | none => return .invalid
  | some pending => do
      match ← perform (.selectUser pending.userId) with
      | none => return .invalid
      | some user =>
          if user.isActive ∧ user.mfaEnabled ∧ ¬ blank user.mfaSecret then do
            let ok ← checkAndConsume user.id (user.mfaSecret.getD "") code
            if ok then do
              perform (.deletePending token)
              let roles ← perform (.roleCodes user.id)
              createSessionFor settings client user roles false id
            else do
              perform (.commit [attempt client (some user.id) user.email .mfaFailure none none] none)
              return .mfaFailed user.id
          else return .invalid

/-! ## Requests with a session -/

/-- A failure counts as no answer. -/
def rescue {α : Type} : Flow (Option α) → Flow (Option α)
  | .ret a => .ret a
  | .raise _ => .ret none
  | .call c k => .call c fun x => rescue (k x)

/-- The middleware: it touches the session, and whatever goes wrong, nobody is logged in. -/
def resolve (settings : AuthSettings) (sid : ℕ) (now : Time) : Flow (Option Principal) := do
  let rec ← rescue (Prog.lift AuthCommand.session (touch settings.sessions sid now))
  return rec.map .fromRecord

def unauthorized : Raised := .api 401 "unauthorized" "Authentication required."

def requireSessionPendingOk (user : Option Principal) : Except Raised Principal :=
  found user unauthorized

def requireSession (user : Option Principal) : Except Raised Principal := do
  let user ← requireSessionPendingOk user
  refuse user.mustChangePassword (.api 403 "password_change_required"
    "You must change your password before continuing.")
  refuse user.mfaSetupRequired (.api 403 "mfa_setup_required"
    "You must set up multi-factor authentication before continuing.")
  return user

def logout (sid userId : ℕ) : Flow Unit :=
  Prog.lift AuthCommand.session (destroy sid (some userId))

structure PasswordChange where
  currentPassword : String
  newPassword : String
  salt : String := ""
  now : Time := 0
deriving DecidableEq, Repr

/-- `change_password`; it returns the id of the session from now on. -/
def changePassword (P : Primitives) (settings : AuthSettings) (userId sid : ℕ) (r : PasswordChange) :
    Flow ℕ := do
  let user ← demand (found ((← perform (.selectUser userId)).filter fun user => user.isActive)
    unauthorized)
  let ok ← verifyOwn user (P.normalize r.currentPassword)
  if ok then
    if policyErrors P settings r.newPassword (some user.email) = [] then do
      let _ ← Prog.lift AuthCommand.session (destroyAllForUser user.id (some sid))
      let rotated ← Prog.lift AuthCommand.session (regenerateId settings.sessions sid
        { mustChangePassword := some false, lastAuthAt := some r.now } r.now)
      perform (.commit [] (some (user.id, fun a => { a with
        passwordHash := some (P.hashPassword r.salt (P.normalize r.newPassword))
        mustChangePassword := false
        passwordChangedAt := some r.now })))
      return rotated.getD sid
    else .raise (.api 422 "password_policy" "Password does not meet the policy.")
  else .raise (.api 401 "invalid_credentials" "Current password is incorrect.")

def mfaEnroll (userId : ℕ) (secret : String) : Flow Unit := do
  let user ← demand (found (← perform (.selectUser userId)) unauthorized)
  perform (.commit [] (some (user.id, fun a => { a with
    mfaSecret := some secret
    mfaEnabled := false })))

def mfaConfirm (settings : AuthSettings) (userId sid : ℕ) (code : String) (now : Time) :
    Flow (Option ℕ) := do
  let user ← demand (found
    ((← perform (.selectUser userId)).filter fun user => ¬ blank user.mfaSecret)
    (.api 400 "mfa_not_enrolled" "No pending MFA enrollment."))
  let ok ← perform (.verifyCode user.id (user.mfaSecret.getD "") code)
  if ok then do
    perform (.commit [] (some (user.id, fun a => { a with mfaEnabled := true })))
    Prog.lift AuthCommand.session (regenerateId settings.sessions sid
      { mfaSetupRequired := some false, mfaAuthenticated := some true, lastAuthAt := some now } now)
  else .raise (.api 401 "mfa_failed" "Invalid authentication code.")

/-! ## Requests of an administrator -/

def userNotFound : Raised := .api 404 "not_found" "User not found."

/-- A reset revokes the user's sessions before it commits the password. -/
def resetPassword (P : Primitives) (targetId : ℕ) (temp salt : String) (now : Time) : Flow ℕ := do
  let user ← demand (found (← perform (.selectUser targetId)) userNotFound)
  let revoked ← Prog.lift AuthCommand.session (destroyAllForUser user.id none)
  perform (.commit [] (some (user.id, fun a => { a with
    passwordHash := some (P.hashPassword salt (P.normalize temp))
    mustChangePassword := true
    passwordChangedAt := some now })))
  return revoked

def deactivateUser (actorId targetId : ℕ) : Flow ℕ :=
  if targetId = actorId then
    .raise (.api 409 "conflict" "You cannot deactivate your own account.")
  else do
    let user ← demand (found (← perform (.selectUser targetId)) userNotFound)
    if user.isBreakGlass then
      .raise (.api 409 "conflict" "The break-glass admin account cannot be deactivated.")
    else do
      let revoked ← Prog.lift AuthCommand.session (destroyAllForUser user.id none)
      perform (.commit [] (some (user.id, fun a => { a with isActive := false })))
      return revoked

def reactivateUser (targetId : ℕ) : Flow Unit := do
  let user ← demand (found (← perform (.selectUser targetId)) userNotFound)
  perform (.commit [] (some (user.id, fun a => { a with isActive := true })))

/-! ## The system -/

inductive AuthCall where
  | login (r : LoginRequest)
  | completeMfa (client : Client) (token : ℕ) (code : String)
  | logout (sid : ℕ) (now : Time)
  | changePassword (sid : ℕ) (r : PasswordChange)
  | mfaEnroll (sid : ℕ) (secret : String) (now : Time)
  | mfaConfirm (sid : ℕ) (code : String) (now : Time)
  /-- Any other route; `sid` is the cookie. -/
  | request (sid : ℕ) (now : Time)
  | resetPassword (targetId : ℕ) (temp salt : String) (now : Time)
  | deactivateUser (actorId targetId : ℕ)
  | reactivateUser (targetId : ℕ)
  | revoke (sid userId : ℕ)
  | revokeAll (userId : ℕ)
  | stampVersion (userId permissionsVersion : ℕ)
deriving DecidableEq, Repr

inductive AuthAnswer where
  | logged (result : LoginResult)
  | rotated (sid : Option ℕ)
  | count (n : ℕ)
  | done
deriving DecidableEq, Repr

def authProg (P : Primitives) (settings : AuthSettings) : AuthCall → Flow AuthAnswer
  | .login r => do return .logged (← login P settings r)
  | .completeMfa client token code => do return .logged (← completeMfa settings client token code)
  | .logout sid now => do
      let principal ← demand (requireSessionPendingOk (← resolve settings sid now))
      logout principal.sessionId principal.userId
      return .done
  | .changePassword sid r => do
      let principal ← demand (requireSessionPendingOk (← resolve settings sid r.now))
      return .rotated (some (← changePassword P settings principal.userId principal.sessionId r))
  | .mfaEnroll sid secret now => do
      let principal ← demand (requireSessionPendingOk (← resolve settings sid now))
      mfaEnroll principal.userId secret
      return .done
  | .mfaConfirm sid code now => do
      let principal ← demand (requireSessionPendingOk (← resolve settings sid now))
      return .rotated (← mfaConfirm settings principal.userId principal.sessionId code now)
  | .request sid now => do
      let principal ← demand (requireSession (← resolve settings sid now))
      perform (.serve principal)
      return .done
  | .resetPassword targetId temp salt now => do
      return .count (← resetPassword P targetId temp salt now)
  | .deactivateUser actorId targetId => do return .count (← deactivateUser actorId targetId)
  | .reactivateUser targetId => do
      reactivateUser targetId
      return .done
  | .revoke sid userId => do
      Prog.lift AuthCommand.session (destroy sid (some userId))
      return .done
  | .revokeAll userId => do
      return .count (← Prog.lift AuthCommand.session (destroyAllForUser userId none))
  | .stampVersion userId version => do
      return .count (← Prog.lift AuthCommand.session (setPermissionsVersion userId version))

/-- What happens on its own: the clocks go on, keys expire, and administrators add accounts and
change roles. -/
inductive AuthEvent where
  | tick (milliseconds codeTime : ℕ)
  | expires (e : Expiry)
  | pendingExpires (token : ℕ)
  | accountAdded (a : Account)
  | rolesChanged (userId : ℕ) (codes : List String)
deriving DecidableEq, Repr

def AuthEvent.apply (e : AuthEvent) (w : AuthWorld) : AuthWorld :=
  match e with
  | .tick milliseconds codeTime =>
      { w with
        clock := w.clock + milliseconds
        desk := { w.desk with now := w.desk.now + codeTime } }
  | .expires e => { w with redis := e.apply w.redis }
  | .pendingExpires token => { w with pendings := w.pendings.set token none }
  | .accountAdded a => w.save (w.accounts ++ [a])
  | .rolesChanged userId codes => { w with roles := Function.update w.roles userId codes }

def authService (P : Primitives) (settings : AuthSettings) :
    Service AuthCommand Raised AuthAnswer AuthWorld AuthCall AuthEvent where
  exec := AuthCommand.exec P settings
  prog := authProg P settings
  env := AuthEvent.apply

abbrev AuthMove := Move AuthCall AuthEvent

abbrev AuthSystem := System AuthCommand Raised AuthAnswer AuthWorld AuthCall

end OfficeConnect.Auth
