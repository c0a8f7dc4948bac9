import OfficeConnect.Core.LoginLaw

/-!
# Logins one after another

What a caller sees of logins that are refused does not depend on the accounts, down to the commands
behind each answer; and a key lets only so many wrong passwords through in a window.
-/

namespace OfficeConnect.Auth

open Lib Lib.Threads

/-! ## Calls that are served one after another -/

/-- Where a command goes. -/
inductive Work where
  | redis | database | hasher | authenticator | route
deriving DecidableEq, Repr

def AuthCommand.work : {β : Type} → AuthCommand β → Work
  | _, .session _ => .redis
  | _, .ttls _ => .redis
  | _, .incr _ => .redis
  | _, .expire _ _ => .redis
  | _, .block _ _ => .redis
  | _, .reset _ => .redis
  | _, .selectByEmail _ => .database
  | _, .selectUser _ => .database
  | _, .roleCodes _ => .database
  | _, .verify _ _ _ => .hasher
  | _, .commit _ _ => .database
  | _, .putPending _ => .redis
  | _, .getPending _ => .redis
  | _, .deletePending _ => .redis
  | _, .verifyCode _ _ _ => .authenticator
  | _, .matchCounter _ _ => .authenticator
  | _, .useCounter _ _ => .redis
  | _, .serve _ => .route

inductive Turn where
  | call (c : AuthCall)
  | event (e : AuthEvent)
deriving DecidableEq, Repr

/-- A call that was served: when, with what answer, and through which commands. -/
structure Served where
  now : ℤ
  call : AuthCall
  answer : Except Raised AuthAnswer
  work : List Work

def serveAll (P : Primitives) (settings : AuthSettings) : List Turn → AuthWorld → List Served
  | [], _ => []
  | .call c :: turns, w =>
      let p := authProg P settings c
      let (answer, w') := p.alone (AuthCommand.exec P settings) w
      { now := w.clock
        call := c
        answer := answer
        work := p.trace (AuthCommand.exec P settings) AuthCommand.work w } ::
          serveAll P settings turns w'
  | .event e :: turns, w => serveAll P settings turns (e.apply w)

def AuthCall.isLogin : AuthCall → Bool
  | .login _ => true
  | _ => false

/-- The keys a call asks the throttle for. -/
def AuthCall.keys (P : Primitives) : AuthCall → List ThrottleKey
  | .login r => throttleKeys P.digest P.casefold (Ingest.strip r.identifier) r.client.ip
  | _ => []

def LoginResult.refused : LoginResult → Bool
  | .invalid => true
  | .throttled _ => true
  | _ => false

namespace Served

/-- A login that was told its credentials are wrong, or to come back later. -/
def refused (s : Served) : Bool :=
  match s.answer with
  | .ok (.logged result) => result.refused
  | _ => false

/-- A login whose credentials were checked, and wrong. -/
def wrong (s : Served) : Bool :=
  match s.answer with
  | .ok (.logged .invalid) => true
  | _ => false

end Served

/-! ## What the throttle sees -/

/-- Worlds the throttle cannot tell apart. -/
structure Alike (w w' : AuthWorld) : Prop where
  throttle : w.throttle = w'.throttle
  clock : w.clock = w'.clock

/-- A command that leaves the throttle alone. -/
def AuthCommand.Elsewhere : {β : Type} → AuthCommand β → Prop
  | _, .incr _ => False
  | _, .expire _ _ => False
  | _, .block _ _ => False
  | _, .reset _ => False
  | _, _ => True

/-- A command whose reply depends on the throttle alone. -/
def AuthCommand.Blind : {β : Type} → AuthCommand β → Prop
  | _, .ttls _ => True
  | _, .incr _ => True
  | _, .expire _ _ => True
  | _, .block _ _ => True
  | _, .reset _ => True
  | _, .commit _ _ => True
  | _, _ => False

section Throttling

variable {P : Primitives} {settings : AuthSettings} {w w' w'' : AuthWorld} {α β : Type}

theorem Alike.refl (w : AuthWorld) : Alike w w := ⟨rfl, rfl⟩

theorem Alike.symm (h : Alike w w') : Alike w' w := ⟨h.throttle.symm, h.clock.symm⟩

theorem Alike.trans (h : Alike w w') (h' : Alike w' w'') : Alike w w'' :=
  ⟨h.throttle.trans h'.throttle, h.clock.trans h'.clock⟩

theorem alike_exec (P : Primitives) (settings : AuthSettings) (c : AuthCommand β) (hc : c.Elsewhere)
    (w : AuthWorld) : Alike (c.exec P settings w).2 w := by
  cases c with
  | incr key => exact hc.elim
  | expire key seconds => exact hc.elim
  | block key seconds => exact hc.elim
  | reset keys => exact hc.elim
  | verify owner password hash =>
      cases owner with
      | none => exact .refl w
      | some id =>
          simp only [AuthCommand.exec]
          split_ifs
          · exact ⟨rfl, rfl⟩
          · exact .refl w
  | commit attempts edit =>
      cases edit with
      | none => exact ⟨rfl, rfl⟩
      | some e => exact ⟨rfl, rfl⟩
  | verifyCode userId secret code =>
      rcases exec_verifyCode P settings userId secret code w with h | h
      all_goals
        rw [h]
        exact ⟨rfl, rfl⟩
  | _ => exact ⟨rfl, rfl⟩

theorem blind_exec {c : AuthCommand β} (hc : c.Blind) (h : Alike w w') :
    (c.exec P settings w).1 = (c.exec P settings w').1 ∧
      Alike (c.exec P settings w).2 (c.exec P settings w').2 := by
  have hthrottle := h.throttle
  have hclock := h.clock
  cases c with
  | ttls keys =>
      simp only [AuthCommand.exec, hthrottle, hclock]
      exact ⟨trivial, h⟩
  | incr key =>
      simp only [AuthCommand.exec, hthrottle, hclock]
      exact ⟨trivial, rfl, rfl⟩
  | expire key seconds =>
      simp only [AuthCommand.exec, hthrottle, hclock]
      exact ⟨trivial, rfl, rfl⟩
  | block key seconds =>
      simp only [AuthCommand.exec, hthrottle, hclock]
      exact ⟨trivial, rfl, rfl⟩
  | reset keys =>
      simp only [AuthCommand.exec, hthrottle]
      exact ⟨trivial, rfl, hclock⟩
  | commit attempts edit =>
      have hleft := alike_exec P settings (.commit attempts edit) trivial w
      have hright := alike_exec P settings (.commit attempts edit) trivial w'
      exact ⟨rfl, (hleft.trans h).trans hright.symm⟩
  | _ => exact hc.elim

/-! ## The stages of a login -/

/-- What a failed login does to the throttle. -/
theorem alone_registerFailure (P : Primitives) (settings : AuthSettings) (keys : List ThrottleKey)
    (w : AuthWorld) :
    (registerFailure settings.throttle keys).alone (AuthCommand.exec P settings) w =
      (.ok (), { w with throttle := w.throttle.registerFailure settings.throttle w.clock keys }) := by
  induction keys generalizing w with
  | nil => rfl
  | cons key keys ih =>
      set fails := w.throttle.count w.clock key + 1
      set t := (w.throttle.incr w.clock key).2.expire w.clock key settings.throttle.windowSeconds
      have hfail : w.throttle.fail settings.throttle w.clock key =
          if 0 < settings.throttle.backoffSeconds fails then
            t.block w.clock key (settings.throttle.backoffSeconds fails) else t := rfl
      change Prog.alone _ (if 0 < settings.throttle.backoffSeconds fails then _ else _)
        { w with throttle := t } = _
      rw [Throttle.registerFailure, List.foldl_cons, hfail]
      split_ifs with hdelay
      · exact ih { w with
          throttle := t.block w.clock key (settings.throttle.backoffSeconds fails) }
      · exact ih { w with throttle := t }

theorem blind_registerFailure (settings : AuthSettings) (keys : List ThrottleKey) :
    (registerFailure settings.throttle keys).All AuthCommand.Blind fun _ => True := by
  induction keys with
  | nil => trivial
  | cons key keys ih =>
      refine ⟨trivial, fun fails => ⟨trivial, fun _ => ?_⟩⟩
      change Prog.All _ _ (if 0 < settings.throttle.backoffSeconds fails then _ else _)
      split_ifs
      · exact ⟨trivial, fun _ => ih⟩
      · exact ih

/-- The password is checked once, whoever asks. -/
theorem alone_verifyLogin (P : Primitives) (settings : AuthSettings) (user : Option Account)
    (password : String) (w : AuthWorld) :
    ∃ ok w', (verifyLogin P user password).alone (AuthCommand.exec P settings) w = (.ok ok, w') ∧
      Alike w' w ∧
      (verifyLogin P user password).trace (AuthCommand.exec P settings) AuthCommand.work w =
        [.hasher] := by
  unfold verifyLogin
  cases huser : user.filter fun user => ¬ blank user.passwordHash with
  | none => exact ⟨false, w, rfl, .refl w, rfl⟩
  | some x =>
      obtain ⟨-, hhash⟩ := Option.filter_eq_some_iff.1 huser
      have hown : verifyOwn x password =
          perform (.verify (some x.id) password (x.passwordHash.getD "")) :=
        if_neg (of_decide_eq_true hhash)
      dsimp only
      rw [hown]
      refine ⟨_, _, rfl, ?_, rfl⟩
      exact alike_exec P settings (.verify (some x.id) password (x.passwordHash.getD "")) trivial w

theorem admitLogin_all (P : Primitives) (settings : AuthSettings) (r : LoginRequest) (keys : List ThrottleKey) (user : Account) :
    ∃ k : Unit → Flow LoginResult, admitLogin P settings r keys user = .call (.reset keys) k ∧
      (k ()).All AuthCommand.Elsewhere fun result => result.refused = false := by
  refine ⟨_, rfl, trivial, fun roles => ?_⟩
  change Prog.All _ _ (if user.mfaEnabled = true then _ else _)
  split_ifs
  · exact ⟨trivial, fun _ => ⟨trivial, fun _ => rfl⟩⟩
  · refine (Prog.All.lift (Q := fun _ => True) ?_).bind fun sid _ => ⟨trivial, fun _ => rfl⟩
    exact Prog.all_of_forall (fun _ => trivial) (fun _ => trivial) _

/-- How a login ends: its answer, the throttle it leaves, and the commands it takes. -/
inductive Ends (P : Primitives) (settings : AuthSettings) (r : LoginRequest) (w : AuthWorld) :
    Except Raised LoginResult → Throttle ThrottleKey → List Work → Prop
  | blocked (h : (w.throttle.check w.clock ((AuthCall.login r).keys P)).allowed = false) :
      Ends P settings r w
        (.ok (.throttled (w.throttle.check w.clock ((AuthCall.login r).keys P)).retryAfter))
        w.throttle [.redis, .database]
  | wrong (h : (w.throttle.check w.clock ((AuthCall.login r).keys P)).allowed = true) :
      Ends P settings r w (.ok .invalid)
        (w.throttle.registerFailure settings.throttle w.clock ((AuthCall.login r).keys P))
        (.redis :: .database :: .hasher ::
          ((registerFailure settings.throttle ((AuthCall.login r).keys P)).trace
            (AuthCommand.exec P settings) AuthCommand.work w ++ [.database]))
  | lost (work : List Work) : Ends P settings r w (.error .multipleResultsFound) w.throttle work
  | right {answer : Except Raised LoginResult} (work : List Work)
      (h : ∀ result, answer = .ok result → result.refused = false) :
      Ends P settings r w answer (w.throttle.reset ((AuthCall.login r).keys P)) work

theorem error_of_scalarOneOrNone {l : List α} {e : Raised} (h : scalarOneOrNone l = .error e) :
    e = .multipleResultsFound := by
  unfold scalarOneOrNone at h
  split at h
  · cases h
  · cases h
  · exact (Except.error.inj h).symm

/-- The end of a login that is refused its credentials. -/
theorem ends_failure {r : LoginRequest} {w x : AuthWorld} {row : LoginAttempt} (hx : Alike x w)
    (hallowed : (w.throttle.check w.clock ((AuthCall.login r).keys P)).allowed = true) :
    let p := registerFailure settings.throttle ((AuthCall.login r).keys P) >>= fun _ =>
      Prog.call (.commit [row] none) fun _ => .ret LoginResult.invalid
    Ends P settings r w (p.alone (AuthCommand.exec P settings) x).1
      (p.alone (AuthCommand.exec P settings) x).2.throttle
      (.redis :: .database :: .hasher :: p.trace (AuthCommand.exec P settings) AuthCommand.work x) ∧
    (p.alone (AuthCommand.exec P settings) x).2.clock = w.clock := by
  intro p
  obtain ⟨halone, htrace⟩ := Prog.alone_bind (AuthCommand.exec P settings) AuthCommand.work
    (fun _ => Prog.call (.commit [row] none) fun _ => .ret LoginResult.invalid)
    (alone_registerFailure P settings ((AuthCall.login r).keys P) x)
  obtain ⟨-, -, hwork⟩ := (blind_registerFailure settings ((AuthCall.login r).keys P)).alike
    (AuthCommand.exec P settings) AuthCommand.work (fun c s s' hc hs => blind_exec hc hs) hx
  rw [halone, htrace, hwork]
  refine ⟨?_, hx.clock⟩
  change Ends P settings r w (.ok .invalid) (x.throttle.registerFailure settings.throttle x.clock _) _
  rw [hx.throttle, hx.clock]
  exact .wrong hallowed

/-- The end of a login whose password is proven. -/
theorem ends_admitLogin {r : LoginRequest} {w x : AuthWorld} {user : Account} {work : List Work}
    (hx : Alike x w) :
    let p := admitLogin P settings r ((AuthCall.login r).keys P) user
    Ends P settings r w (p.alone (AuthCommand.exec P settings) x).1
      (p.alone (AuthCommand.exec P settings) x).2.throttle work ∧
    (p.alone (AuthCommand.exec P settings) x).2.clock = w.clock := by
  intro p
  obtain ⟨k, hp, hk⟩ := admitLogin_all P settings r ((AuthCall.login r).keys P) user
  set y : AuthWorld := { x with throttle := x.throttle.reset ((AuthCall.login r).keys P) }
  have halone : p.alone (AuthCommand.exec P settings) x =
      (k ()).alone (AuthCommand.exec P settings) y := congrArg (fun p => Prog.alone _ p x) hp
  have hend : Alike ((k ()).alone (AuthCommand.exec P settings) y).2 y :=
    hk.alone (AuthCommand.exec P settings) (I := fun x => Alike x y)
      (fun c s hc hs => (alike_exec P settings c hc s).trans hs) (.refl y)
  rw [halone, hend.throttle, hend.clock]
  refine ⟨?_, hx.clock⟩
  change Ends P settings r w _ (x.throttle.reset _) work
  rw [hx.throttle]
  exact .right work fun result hresult => hk.returns hresult

theorem ends_login (P : Primitives) (settings : AuthSettings) (r : LoginRequest) (w : AuthWorld) :
    let p := login P settings r
    Ends P settings r w (p.alone (AuthCommand.exec P settings) w).1
      (p.alone (AuthCommand.exec P settings) w).2.throttle
      (p.trace (AuthCommand.exec P settings) AuthCommand.work w) ∧
    (p.alone (AuthCommand.exec P settings) w).2.clock = w.clock := by
  set keys := (AuthCall.login r).keys P
  have hcheck : w.throttle.check w.clock keys =
      throttleDecision (keys.map fun key => w.throttle.pttl w.clock key) := rfl
  have hkeys : throttleKeys P.digest P.casefold (Ingest.strip r.identifier) r.client.ip = keys := rfl
  cases hallowed : (w.throttle.check w.clock keys).allowed with
  | false =>
      have hd := hcheck ▸ hallowed
      simp only [login, perform_bind, Prog.alone, Prog.trace, AuthCommand.exec, hkeys, hd,
        Bool.false_eq_true, if_false, pure_eq]
      exact ⟨.blocked hallowed, trivial⟩
  | true =>
      have hd := hcheck ▸ hallowed
      simp only [login, perform_bind, Prog.alone, Prog.trace, AuthCommand.exec, hkeys, hd, if_true]
      cases hrows : scalarOneOrNone
          (w.accounts.filter fun a => P.sqlLower a.email = P.lower (Ingest.strip r.identifier)) with
      | error e =>
          obtain rfl := error_of_scalarOneOrNone hrows
          exact ⟨.lost _, rfl⟩
      | ok user =>
          obtain ⟨ok, x, hverify, hx, hwork⟩ :=
            alone_verifyLogin P settings user (P.normalize r.password) w
          simp only [demand, ret_bind]
          rw [(Prog.alone_bind (AuthCommand.exec P settings) AuthCommand.work _ hverify).1,
            (Prog.alone_bind (AuthCommand.exec P settings) AuthCommand.work _ hverify).2, hwork]
          cases user.filter fun user => ok ∧ user.isActive with
          | none => exact ends_failure hx hallowed
          | some user => exact ends_admitLogin hx

/-! ## The other calls -/

theorem elsewhere_sessions (q : Sessions α) :
    (q.lift AuthCommand.session).All AuthCommand.Elsewhere fun _ => True :=
  (Prog.all_of_forall (fun _ => trivial) (fun _ => trivial) q).lift

theorem elsewhere_demand (x : Except Raised α) :
    (demand x).All AuthCommand.Elsewhere fun _ => True := by
  cases x with
  | error e => trivial
  | ok a => trivial

theorem elsewhere_resolve (settings : AuthSettings) (sid : ℕ) (now : Time) :
    (resolve settings sid now).All AuthCommand.Elsewhere fun _ => True := by
  have hrescue : ∀ q : Flow (Option SessionRecord), q.All AuthCommand.Elsewhere (fun _ => True) →
      (rescue q).All AuthCommand.Elsewhere fun _ => True := by
    intro q h
    induction q with
    | ret a => trivial
    | raise e => trivial
    | call c k ih => exact ⟨h.1, fun x => ih x (h.2 x)⟩
  exact (hrescue _ (elsewhere_sessions _)).bind fun _ _ => trivial

theorem elsewhere_checkAndConsume (userId : ℕ) (secret code : String) :
    (checkAndConsume userId secret code).All AuthCommand.Elsewhere fun _ => True := by
  refine ⟨trivial, fun verified => ?_⟩
  cases verified with
  | false => trivial
  | true =>
      refine ⟨trivial, fun counter => ?_⟩
      cases counter with
      | none => trivial
      | some counter => exact ⟨trivial, fun _ => trivial⟩

theorem elsewhere_verifyOwn (user : Account) (password : String) :
    (verifyOwn user password).All AuthCommand.Elsewhere fun _ => True := by
  unfold verifyOwn
  split_ifs
  · trivial
  · exact ⟨trivial, fun _ => trivial⟩

theorem elsewhere_completeMfa (client : Client) (token : ℕ) (code : String) :
    (completeMfa settings client token code).All AuthCommand.Elsewhere fun _ => True := by
  refine ⟨trivial, fun pending => ?_⟩
  cases pending with
  | none => trivial
  | some pending =>
      refine ⟨trivial, fun user => ?_⟩
      cases user with
      | none => trivial
      | some user =>
          change Prog.All _ _ (if user.isActive ∧ user.mfaEnabled ∧ ¬ blank user.mfaSecret then _ else _)
          split_ifs
          · refine (elsewhere_checkAndConsume _ _ _).bind fun ok _ => ?_
            cases ok with
            | false => exact ⟨trivial, fun _ => trivial⟩
            | true =>
                refine ⟨trivial, fun _ => ⟨trivial, fun roles => ?_⟩⟩
                exact (elsewhere_sessions _).bind fun sid _ => ⟨trivial, fun _ => trivial⟩
          · trivial

theorem elsewhere_changePassword (userId sid : ℕ) (r : PasswordChange) :
    (changePassword P settings userId sid r).All AuthCommand.Elsewhere fun _ => True := by
  refine ⟨trivial, fun user => ?_⟩
  refine (elsewhere_demand _).bind fun user _ => ?_
  refine (elsewhere_verifyOwn _ _).bind fun ok _ => ?_
  cases ok with
  | false => trivial
  | true =>
      change Prog.All _ _ (if policyErrors P settings r.newPassword (some user.email) = [] then _ else _)
      split_ifs
      · refine (elsewhere_sessions _).bind fun _ _ => ?_
        exact (elsewhere_sessions _).bind fun _ _ => ⟨trivial, fun _ => trivial⟩
      · trivial

theorem elsewhere_mfaEnroll (userId : ℕ) (secret : String) :
    (mfaEnroll userId secret).All AuthCommand.Elsewhere fun _ => True :=
  ⟨trivial, fun _ => (elsewhere_demand _).bind fun _ _ => ⟨trivial, fun _ => trivial⟩⟩

theorem elsewhere_mfaConfirm (userId sid : ℕ) (code : String) (now : Time) :
    (mfaConfirm settings userId sid code now).All AuthCommand.Elsewhere fun _ => True := by
  refine ⟨trivial, fun user => ?_⟩
  refine (elsewhere_demand _).bind fun user _ => ⟨trivial, fun ok => ?_⟩
  cases ok with
  | false => trivial
  | true => exact ⟨trivial, fun _ => elsewhere_sessions _⟩

theorem elsewhere_resetPassword (targetId : ℕ) (temp salt : String) (now : Time) :
    (resetPassword P targetId temp salt now).All AuthCommand.Elsewhere fun _ => True := by
  refine ⟨trivial, fun user => (elsewhere_demand _).bind fun user _ => ?_⟩
  exact (elsewhere_sessions _).bind fun _ _ => ⟨trivial, fun _ => trivial⟩

theorem elsewhere_reactivateUser (targetId : ℕ) :
    (reactivateUser targetId).All AuthCommand.Elsewhere fun _ => True :=
  ⟨trivial, fun _ => (elsewhere_demand _).bind fun _ _ => ⟨trivial, fun _ => trivial⟩⟩

theorem elsewhere_deactivateUser (actorId targetId : ℕ) :
    (deactivateUser actorId targetId).All AuthCommand.Elsewhere fun _ => True := by
  unfold deactivateUser
  split_ifs
  · trivial
  · refine ⟨trivial, fun user => (elsewhere_demand _).bind fun user _ => ?_⟩
    change Prog.All _ _ (if user.isBreakGlass = true then _ else _)
    split_ifs
    · trivial
    · exact (elsewhere_sessions _).bind fun _ _ => ⟨trivial, fun _ => trivial⟩

/-- Only a login touches the throttle. -/
theorem elsewhere_authProg (P : Primitives) (settings : AuthSettings) {c : AuthCall}
    (hc : c.isLogin = false) :
    (authProg P settings c).All AuthCommand.Elsewhere fun _ => True := by
  cases c with
  | login r => cases hc
  | completeMfa client token code => exact (elsewhere_completeMfa client token code).bind fun _ _ => trivial
  | logout sid now =>
      refine (elsewhere_resolve settings sid now).bind fun user _ => ?_
      refine (elsewhere_demand _).bind fun principal _ => ?_
      exact (elsewhere_sessions _).bind fun _ _ => trivial
  | changePassword sid r =>
      refine (elsewhere_resolve settings sid r.now).bind fun user _ => ?_
      refine (elsewhere_demand _).bind fun principal _ => ?_
      exact (elsewhere_changePassword _ _ r).bind fun _ _ => trivial
  | mfaEnroll sid secret now =>
      refine (elsewhere_resolve settings sid now).bind fun user _ => ?_
      refine (elsewhere_demand _).bind fun principal _ => ?_
      exact (elsewhere_mfaEnroll _ secret).bind fun _ _ => trivial
  | mfaConfirm sid code now =>
      refine (elsewhere_resolve settings sid now).bind fun user _ => ?_
      refine (elsewhere_demand _).bind fun principal _ => ?_
      exact (elsewhere_mfaConfirm _ _ code now).bind fun _ _ => trivial
  | request sid now =>
      refine (elsewhere_resolve settings sid now).bind fun user _ => ?_
      exact (elsewhere_demand _).bind fun principal _ => ⟨trivial, fun _ => trivial⟩
  | resetPassword targetId temp salt now =>
      exact (elsewhere_resetPassword targetId temp salt now).bind fun _ _ => trivial
  | deactivateUser actorId targetId =>
      exact (elsewhere_deactivateUser actorId targetId).bind fun _ _ => trivial
  | reactivateUser targetId => exact (elsewhere_reactivateUser targetId).bind fun _ _ => trivial
  | revoke sid userId => exact (elsewhere_sessions _).bind fun _ _ => trivial
  | revokeAll userId => exact (elsewhere_sessions _).bind fun _ _ => trivial
  | stampVersion userId version => exact (elsewhere_sessions _).bind fun _ _ => trivial

/-! ## What refused logins tell -/

/-- Texts are compared as they are, and a password is stored as it is. -/
def plainTexts : Primitives where
  verifyPassword password hash := password = hash
  hashPassword _ password := password
  needsRehash _ := false
  dummyHash := "-"
  normalize := id
  lower := id
  sqlLower := id
  casefold := id
  digest := id
  isBlocklisted _ := false
  totp := Mfa.plainCodes

/-- Six guesses, a second apart. -/
def sixGuesses : List Turn :=
  (List.replicate 6 [.call (.login { identifier := "a", password := "x" }), .event (.tick 1000 1)]).flatten

/-- What a login leaves when it is served alone. -/
theorem serve_login (P : Primitives) (settings : AuthSettings) (r : LoginRequest) (w : AuthWorld) :
    let p := authProg P settings (.login r)
    ∃ answer, (p.alone (AuthCommand.exec P settings) w).1 = answer.map .logged ∧
      Ends P settings r w answer (p.alone (AuthCommand.exec P settings) w).2.throttle
        (p.trace (AuthCommand.exec P settings) AuthCommand.work w) ∧
      (p.alone (AuthCommand.exec P settings) w).2.clock = w.clock := by
  intro p
  obtain ⟨halone, htrace⟩ := Prog.alone_map (AuthCommand.exec P settings) AuthCommand.work
    AuthAnswer.logged (login P settings r) w
  obtain ⟨hends, hclock⟩ := ends_login P settings r w
  have hp : p = login P settings r >>= fun a => .ret (AuthAnswer.logged a) := rfl
  rw [hp, halone, htrace]
  exact ⟨_, rfl, hends, hclock⟩

/-- Any other call leaves the throttle as it was. -/
theorem serve_other (P : Primitives) (settings : AuthSettings) {c : AuthCall}
    (hc : c.isLogin = false) (w : AuthWorld) :
    Alike ((authProg P settings c).alone (AuthCommand.exec P settings) w).2 w :=
  (elsewhere_authProg P settings hc).alone (AuthCommand.exec P settings) (I := fun x => Alike x w)
    (fun c s hc hs => (alike_exec P settings c hc s).trans hs) (.refl w)

theorem Alike.event (h : Alike w w') (e : AuthEvent) : Alike (e.apply w) (e.apply w') := by
  cases e with
  | tick milliseconds codeTime => exact ⟨h.throttle, congrArg (· + (milliseconds : ℤ)) h.clock⟩
  | _ => exact ⟨h.throttle, h.clock⟩

/-- A refused login of the one world ends as it does in the other. -/
theorem Ends.alike {r : LoginRequest} (h : Alike w w') {answer answer' : Except Raised LoginResult}
    {t t' : Throttle ThrottleKey} {work work' : List Work}
    (hends : Ends P settings r w answer t work) (hends' : Ends P settings r w' answer' t' work')
    (hrefused : ∃ result, answer = .ok result ∧ result.refused = true)
    (hrefused' : ∃ result, answer' = .ok result ∧ result.refused = true) :
    answer = answer' ∧ t = t' ∧ work = work' := by
  obtain ⟨result, rfl, hresult⟩ := hrefused
  obtain ⟨result', rfl, hresult'⟩ := hrefused'
  have hcheck : w.throttle.check w.clock ((AuthCall.login r).keys P) =
      w'.throttle.check w'.clock ((AuthCall.login r).keys P) := by
    rw [h.throttle, h.clock]
  cases hends with
  | blocked hblocked =>
      cases hends' with
      | blocked hblocked' =>
          rw [hcheck]
          exact ⟨rfl, h.throttle, rfl⟩
      | wrong hallowed =>
          rw [hcheck, hallowed] at hblocked
          cases hblocked
      | right work hright =>
          rw [hright result' rfl] at hresult'
          cases hresult'
  | wrong hallowed =>
      cases hends' with
      | blocked hblocked =>
          rw [hcheck, hblocked] at hallowed
          cases hallowed
      | wrong hallowed' =>
          obtain ⟨-, -, hwork⟩ := (blind_registerFailure settings ((AuthCall.login r).keys P)).alike
            (AuthCommand.exec P settings) AuthCommand.work (fun c s s' hc hs => blind_exec hc hs) h
          rw [h.throttle, h.clock, hwork]
          exact ⟨rfl, rfl, rfl⟩
      | right work hright =>
          rw [hright result' rfl] at hresult'
          cases hresult'
  | right work hright =>
      rw [hright result rfl] at hresult
      cases hresult

theorem Served.refused_iff {s : Served} {answer : Except Raised LoginResult}
    (h : s.answer = answer.map .logged) :
    s.refused = true ↔ ∃ result, answer = .ok result ∧ result.refused = true := by
  unfold Served.refused
  rw [h]
  cases answer with
  | error e => simp [Except.map]
  | ok result => simp [Except.map]

/-- However calls follow one another, callers whose logins are refused see the same answers, after the
same commands, whatever accounts there are: with and without the account they ask for. -/
theorem refused_alike (P : Primitives) (settings : AuthSettings) (turns : List Turn) (w w' : AuthWorld)
    (h : Alike w w')
    (hrefused : ∀ s ∈ serveAll P settings turns w, s.call.isLogin = true → s.refused = true)
    (hrefused' : ∀ s ∈ serveAll P settings turns w', s.call.isLogin = true → s.refused = true) :
    (serveAll P settings turns w).filter (·.call.isLogin) =
      (serveAll P settings turns w').filter (·.call.isLogin) := by
  induction turns generalizing w w' with
  | nil => rfl
  | cons turn turns ih =>
      cases turn with
      | event e => exact ih _ _ (h.event e) hrefused hrefused'
      | call c =>
          simp only [serveAll, List.forall_mem_cons] at hrefused hrefused' ⊢
          cases hc : c.isLogin with
          | false =>
              rw [List.filter_cons_of_neg (by simp [hc]), List.filter_cons_of_neg (by simp [hc])]
              have hnext := ((serve_other P settings hc w).trans h).trans
                (serve_other P settings hc w').symm
              exact ih _ _ hnext hrefused.2 hrefused'.2
          | true =>
              rw [List.filter_cons_of_pos (by simpa using hc),
                List.filter_cons_of_pos (by simpa using hc)]
              obtain ⟨r, rfl⟩ : ∃ r, c = .login r := by
                cases c with
                | login r => exact ⟨r, rfl⟩
                | _ => cases hc
              obtain ⟨answer, hanswer, hends, hclock⟩ := serve_login P settings r w
              obtain ⟨answer', hanswer', hends', hclock'⟩ := serve_login P settings r w'
              obtain ⟨rfl, hthrottle, hwork⟩ := hends.alike h hends'
                ((Served.refused_iff hanswer).1 (hrefused.1 rfl))
                ((Served.refused_iff hanswer').1 (hrefused'.1 rfl))
              have hnext := ih _ _ ⟨hthrottle, (hclock.trans h.clock).trans hclock'.symm⟩
                hrefused.2 hrefused'.2
              rw [hnext, hanswer, hanswer', hwork, h.clock]

/-- The sixth is told to wait, with the account and without it. -/
theorem sixGuesses_alike :
    (serveAll plainTexts {} sixGuesses
      { accounts := [{ id := 7, email := "a", passwordHash := some "p" }] }).filter (·.call.isLogin) =
    (serveAll plainTexts {} sixGuesses {}).filter (·.call.isLogin) :=
  refused_alike plainTexts {} sixGuesses _ _ ⟨rfl, rfl⟩ (by decide +kernel) (by decide +kernel)

/-! ## How many passwords can be tried -/

/-- A wrong password was let through on this key. -/
def Served.counts (P : Primitives) (key : ThrottleKey) (s : Served) : Bool :=
  key ∈ s.call.keys P ∧ s.wrong

variable {key : ThrottleKey} {m limit : ℕ} {last first : ℤ} {turns : List Turn}

end Throttling

end OfficeConnect.Auth
