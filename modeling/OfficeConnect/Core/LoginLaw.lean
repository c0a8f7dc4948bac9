import OfficeConnect.Core.Login
import OfficeConnect.Core.SessionCap

/-!
# What a session proves

However requests interleave, a session is only ever opened for an account whose password was
presented, and its second factor too unless the row it was checked against has none; a session that
passes the gate has shown a code, or was opened for roles that need none; and the throttle never
holds anyone longer than its ceiling.
-/

namespace OfficeConnect

open Lib Lib.Threads

/-! ## Sessions that open -/

/-- The session a command opens under an id of its own: its user and its hash. -/
def Command.opens : {β : Type} → Command β → Option (ℕ × SessionHash)
  | _, .mint userId hash _ => some (userId, hash)
  | _, .rotate _ hash userId _ => some (userId, hash)
  | _, _ => none

section Opening

variable {β : Type} {c : Command β} {r : Redis} {sid u : ℕ} {h : SessionHash}

theorem opens_eq_none (hc : ∀ u, ¬ c.AddsTo u) : c.opens = none := by
  cases c with
  | mint userId hash score => exact absurd rfl (hc userId)
  | rotate old hash userId score => exact absurd rfl (hc userId)
  | _ => rfl

/-- A command adds one id for the session it opens, and otherwise none. -/
theorem births_exec (c : Command β) (r : Redis) : (c.exec r).2.births = r.births ∧ c.opens = none ∨
    ∃ b hash, (c.exec r).2.births = r.births ++ [b] ∧ c.opens = some (b.userId, hash) := by
  cases c with
  | mint userId hash score => exact .inr ⟨{ userId := userId }, hash, rfl, rfl⟩
  | rotate old hash userId score =>
      exact .inr ⟨{ userId := userId, parent := some old }, hash, rfl, rfl⟩
  | drop userId sids =>
      cases userId with
      | none => exact .inl ⟨rfl, rfl⟩
      | some userId => exact .inl ⟨rfl, rfl⟩
  | _ => exact .inl ⟨rfl, rfl⟩

/-- Where a hash with an owner comes from: it stood there with its owner and its flag, or the command
opened it under the next id. -/
theorem hash_exec (hmap : (c.exec r).2.hashes sid = some h) (howner : h.userId = some u) :
    (∃ h₀, r.hashes sid = some h₀ ∧ h₀.userId = some u ∧
      h.mfaSetupRequired = h₀.mfaSetupRequired) ∨
    ∃ userId, c.opens = some (userId, h) ∧ sid = r.births.length := by
  have hset : ∀ (x : Redis) (n : ℕ) (hash : SessionHash), x.hashes = r.hashes →
      (x.hset n fun _ => hash).hashes sid = some h →
      sid = n ∧ hash = h ∨ r.hashes sid = some h := by
    intro x n hash hx hh
    by_cases hn : sid = n
    · subst hn
      exact .inl ⟨rfl, by simpa [Redis.hset] using hh⟩
    · exact .inr (by simpa [Redis.hset, Function.update_of_ne hn, hx] using hh)
  have hdelete : ∀ (x : Redis) (sids : List ℕ), (x.delete sids).hashes sid = some h →
      x.hashes sid = some h := by
    intro x sids hh
    simp only [Redis.delete] at hh
    split_ifs at hh
    exact hh
  cases c with
  | mint userId hash score =>
      rcases hset (r.bear _) _ _ rfl hmap with ⟨rfl, rfl⟩ | hold
      · exact .inr ⟨userId, rfl, rfl⟩
      · exact .inl ⟨h, hold, howner, rfl⟩
  | rotate old hash userId score =>
      rcases hset (r.bear _) _ _ rfl (hdelete _ [old] hmap) with ⟨rfl, rfl⟩ | hold
      · exact .inr ⟨userId, rfl, rfl⟩
      · exact .inl ⟨h, hold, howner, rfl⟩
  | slide v now =>
      by_cases hv : sid = v
      · subst hv
        obtain rfl : { (r.hashes sid).getD {} with lastSeenAt := some now } = h := by
          simpa [Command.exec, Redis.hset] using hmap
        cases hold : r.hashes sid with
        | none => simp [hold] at howner
        | some h₀ => exact .inl ⟨h₀, rfl, by simpa [hold] using howner, by simp⟩
      · exact .inl ⟨h, by simpa [Command.exec, Redis.hset, Function.update_of_ne hv] using hmap,
          howner, rfl⟩
  | drop v sids =>
      refine .inl ⟨h, ?_, howner, rfl⟩
      cases v with
      | none => exact hdelete r sids hmap
      | some v => exact hdelete r sids hmap
  | stamp sids version =>
      simp only [Command.exec] at hmap
      split_ifs at hmap
      · obtain ⟨h₀, hold, rfl⟩ := Option.map_eq_some_iff.1 hmap
        exact .inl ⟨h₀, hold, howner, rfl⟩
      · exact .inl ⟨h, hmap, howner, rfl⟩
  | _ => exact .inl ⟨h, hmap, howner, rfl⟩

end Opening

namespace Auth

/-! ## Evidence -/

/-- A password was presented for the account that fits this version of its row, an active one. -/
structure Presented (l : Ledger) (u : ℕ) (v : Account) : Prop where
  version : v ∈ l.versions
  owner : v.id = u
  active : v.isActive = true
  password : ∃ password hash, v.passwordHash = some hash ∧ .password u password hash ∈ l.proofs

/-- A code was presented that fits the secret of some version of the row. -/
def CodeProved (l : Ledger) (u : ℕ) : Prop :=
  ∃ v ∈ l.versions, v.id = u ∧ ∃ secret code, v.mfaSecret = some secret ∧
    .code u secret code ∈ l.proofs

/-- What opens a session. -/
def Entered (l : Ledger) (u : ℕ) : Prop :=
  ∃ v, Presented l u v ∧ (v.mfaEnabled = true → CodeProved l u)

/-- What lifts the demand for a second factor. -/
def Cleared (settings : AuthSettings) (l : Ledger) (u : ℕ) : Prop :=
  CodeProved l u ∨ ∃ codes, .roles u codes ∈ l.proofs ∧ requiresMfa codes settings = false

/-- What a session's hash says of its user is so. -/
structure Vouched (settings : AuthSettings) (l : Ledger) (h : SessionHash) (u : ℕ) : Prop where
  entered : Entered l u
  cleared : h.mfaSetupRequired ≠ some true → Cleared settings l u

/-- What stands behind a request that reached its route. -/
structure Admitted (settings : AuthSettings) (l : Ledger) (p : Principal) : Prop where
  entered : Entered l p.userId
  cleared : Cleared settings l p.userId
  password : p.mustChangePassword = false
  mfa : p.mfaSetupRequired = false

/-- The checks that were recorded passed. -/
def Proof.Genuine (P : Primitives) (settings : AuthSettings) : Proof → Prop
  | .password _ presented hash => P.verifyPassword presented hash = true
  | .code _ secret presented =>
      ∃ now, P.totp.verifyCode settings.mfaValidWindow secret presented now = true
  | .roles _ _ => True

/-- The longest the throttle closes a key, in milliseconds. -/
def AuthSettings.longest (settings : AuthSettings) : ℤ :=
  1000 * max 0 settings.throttle.backoffCeilingSeconds

/-- What every interleaving keeps. -/
structure AuthWorld.Sound (P : Primitives) (settings : AuthSettings) (w : AuthWorld) : Prop where
  current : ∀ a ∈ w.accounts, a ∈ w.ledger.versions
  genuine : ∀ e ∈ w.ledger.proofs, e.Genuine P settings
  births : ∀ b ∈ w.redis.births, Entered w.ledger b.userId
  hashes : ∀ sid h u, w.redis.hashes sid = some h → h.userId = some u →
    w.redis.BornTo sid u ∧ Vouched settings w.ledger h u
  pendings : ∀ p, some p ∈ w.pendings → ∃ v, Presented w.ledger p.userId v
  served : ∀ p ∈ w.served, Admitted settings w.ledger p
  closed : ∀ key u, w.throttle.untils key = some u → u ≤ w.clock + settings.longest

/-- Versions and checks are only added. -/
structure Ledger.Grows (l l' : Ledger) : Prop where
  versions : ∀ v ∈ l.versions, v ∈ l'.versions
  proofs : ∀ e ∈ l.proofs, e ∈ l'.proofs

/-- And so are ids. -/
structure AuthWorld.Grows (w w' : AuthWorld) : Prop where
  ledger : w.ledger.Grows w'.ledger
  births : ∃ more, w'.redis.births = w.redis.births ++ more

section Growth

variable {P : Primitives} {settings : AuthSettings} {w w' w'' : AuthWorld} {l l' l'' : Ledger}
  {u : ℕ} {v : Account} {h : SessionHash} {p : Principal} {sid : ℕ}

theorem Ledger.Grows.refl (l : Ledger) : l.Grows l := ⟨fun _ h => h, fun _ h => h⟩

theorem Ledger.Grows.trans (h : l.Grows l') (h' : l'.Grows l'') : l.Grows l'' :=
  ⟨fun v hv => h'.versions v (h.versions v hv), fun e he => h'.proofs e (h.proofs e he)⟩

/-- Nothing is added. -/
theorem grows_of_eq (hledger : w'.ledger = w.ledger) (hbirths : w'.redis.births = w.redis.births) :
    w.Grows w' := ⟨hledger ▸ .refl w.ledger, [], by rw [hbirths, List.append_nil]⟩

theorem AuthWorld.Grows.refl (w : AuthWorld) : w.Grows w := grows_of_eq rfl rfl

theorem AuthWorld.Grows.trans (h : w.Grows w') (h' : w'.Grows w'') : w.Grows w'' := by
  obtain ⟨more, hmore⟩ := h.births
  obtain ⟨more', hmore'⟩ := h'.births
  refine ⟨h.ledger.trans h'.ledger, more ++ more', ?_⟩
  rw [hmore', hmore, List.append_assoc]

theorem AuthWorld.Grows.bornTo (hg : w.Grows w') (h : w.redis.BornTo sid u) :
    w'.redis.BornTo sid u := by
  obtain ⟨more, hmore⟩ := hg.births
  exact h.append hmore

theorem Presented.grows (h : Presented l u v) (hg : l.Grows l') : Presented l' u v := by
  obtain ⟨password, hash, hhash, hproof⟩ := h.password
  exact ⟨hg.versions v h.version, h.owner, h.active, password, hash, hhash, hg.proofs _ hproof⟩

theorem CodeProved.grows (h : CodeProved l u) (hg : l.Grows l') : CodeProved l' u := by
  obtain ⟨v, hv, howner, secret, code, hsecret, hproof⟩ := h
  exact ⟨v, hg.versions v hv, howner, secret, code, hsecret, hg.proofs _ hproof⟩

theorem Entered.grows (h : Entered l u) (hg : l.Grows l') : Entered l' u := by
  obtain ⟨v, hpresented, hcode⟩ := h
  exact ⟨v, hpresented.grows hg, fun henabled => (hcode henabled).grows hg⟩

theorem Cleared.grows (h : Cleared settings l u) (hg : l.Grows l') : Cleared settings l' u := by
  rcases h with hcode | ⟨codes, hroles, hexempt⟩
  · exact .inl (hcode.grows hg)
  · exact .inr ⟨codes, hg.proofs _ hroles, hexempt⟩

theorem Vouched.grows (hv : Vouched settings l h u) (hg : l.Grows l') : Vouched settings l' h u :=
  ⟨hv.entered.grows hg, fun hflag => (hv.cleared hflag).grows hg⟩

theorem Vouched.of_flag {h' : SessionHash} (hv : Vouched settings l h u)
    (hflag : h'.mfaSetupRequired = h.mfaSetupRequired) : Vouched settings l h' u :=
  ⟨hv.entered, fun hne => hv.cleared (hflag ▸ hne)⟩

theorem Admitted.grows (h : Admitted settings l p) (hg : l.Grows l') : Admitted settings l' p :=
  ⟨h.entered.grows hg, h.cleared.grows hg, h.password, h.mfa⟩

/-- A change of the rows and the ledger. -/
theorem AuthWorld.Sound.grows (hw : w.Sound P settings) {accounts : List Account}
    (hg : w.ledger.Grows l) (hcurrent : ∀ a ∈ accounts, a ∈ l.versions)
    (hgenuine : ∀ e ∈ l.proofs, e.Genuine P settings) :
    AuthWorld.Sound P settings { w with accounts := accounts, ledger := l } ∧
      w.Grows { w with accounts := accounts, ledger := l } := by
  refine ⟨⟨hcurrent, hgenuine, fun b hb => (hw.births b hb).grows hg,
    fun sid h u hmap howner => ?_, fun p hp => ?_, fun p hp => (hw.served p hp).grows hg, hw.closed⟩,
    hg, [], by simp⟩
  · obtain ⟨hborn, hvouched⟩ := hw.hashes sid h u hmap howner
    exact ⟨hborn, hvouched.grows hg⟩
  · obtain ⟨v, hv⟩ := hw.pendings p hp
    exact ⟨v, hv.grows hg⟩

end Growth

/-! ## Commands -/

/-- What a call sees to before a command. -/
def AuthCommand.Proper (settings : AuthSettings) : {β : Type} → AuthCommand β → AuthWorld → Prop
  | _, .session c, w => ∀ e ∈ c.opens, e.2.userId = some e.1 ∧ Vouched settings w.ledger e.2 e.1
  | _, .block _ seconds, _ => seconds ≤ settings.throttle.backoffCeilingSeconds
  | _, .putPending p, w => ∃ v, Presented w.ledger p.userId v
  | _, .serve p, w => Admitted settings w.ledger p
  | _, _, _ => True

section Commands

variable {P : Primitives} {settings : AuthSettings} {w : AuthWorld}

/-- A command on the sessions. -/
theorem AuthWorld.Sound.session (hw : w.Sound P settings) {β : Type} {c : Command β}
    (hc : (AuthCommand.session c).Proper settings w) :
    AuthWorld.Sound P settings { w with redis := (c.exec w.redis).2 } ∧
      w.Grows { w with redis := (c.exec w.redis).2 } := by
  have hgrows : w.Grows { w with redis := (c.exec w.redis).2 } := by
    rcases births_exec c w.redis with ⟨hsame, -⟩ | ⟨b, hash, hmore, -⟩
    · exact grows_of_eq rfl hsame
    · exact ⟨.refl w.ledger, [b], hmore⟩
  refine ⟨⟨hw.current, hw.genuine, fun b hb => ?_, fun sid h u hmap howner => ?_, hw.pendings,
    hw.served, hw.closed⟩, hgrows⟩
  · rcases births_exec c w.redis with ⟨hsame, -⟩ | ⟨b', hash, hmore, hopens⟩
    · exact hw.births b (hsame ▸ hb)
    · have hmem : b ∈ w.redis.births ++ [b'] := hmore ▸ hb
      rcases List.mem_append.1 hmem with hold | hnew
      · exact hw.births b hold
      · obtain rfl := List.mem_singleton.1 hnew
        exact (hc _ hopens).2.entered
  · rcases hash_exec hmap howner with ⟨h₀, hold, howner₀, hflag⟩ | ⟨userId, hopens, rfl⟩
    · obtain ⟨hborn, hvouched⟩ := hw.hashes sid h₀ u hold howner₀
      exact ⟨hgrows.bornTo hborn, hvouched.of_flag hflag⟩
    · obtain ⟨huser, hvouched⟩ := hc _ hopens
      obtain rfl : userId = u := Option.some.inj (huser.symm.trans howner)
      refine ⟨?_, hvouched⟩
      rcases births_exec c w.redis with ⟨-, hnone⟩ | ⟨b, hash, hmore, hopens'⟩
      · rw [hopens] at hnone
        cases hnone
      · obtain ⟨rfl, -⟩ := Prod.mk.inj (Option.some.inj (hopens.symm.trans hopens'))
        exact ⟨b, by rw [hmore, List.getElem?_concat_length], rfl⟩

/-- A check is recorded. -/
theorem AuthWorld.Sound.prove (hw : w.Sound P settings) {e : Proof} (he : e.Genuine P settings) :
    (w.prove e).Sound P settings ∧ w.Grows (w.prove e) := by
  refine hw.grows ⟨fun _ h => h, fun _ h => List.mem_append_left _ h⟩ hw.current fun e' he' => ?_
  rcases List.mem_append.1 he' with hold | hnew
  · exact hw.genuine e' hold
  · obtain rfl := List.mem_singleton.1 hnew
    exact he

/-- Rows of `core_users` are committed. -/
theorem AuthWorld.Sound.save (hw : w.Sound P settings) (accounts : List Account) :
    (w.save accounts).Sound P settings ∧ w.Grows (w.save accounts) :=
  hw.grows ⟨fun _ h => List.mem_append_left _ h, fun _ h => h⟩
    (fun _ ha => List.mem_append_right _ ha) hw.genuine

/-- The throttle changes, within its ceiling. -/
theorem AuthWorld.Sound.throttled (hw : w.Sound P settings) {t : Throttle ThrottleKey}
    (ht : ∀ key u, t.untils key = some u →
      w.throttle.untils key = some u ∨ u ≤ w.clock + settings.longest) :
    AuthWorld.Sound P settings { w with throttle := t } ∧ w.Grows { w with throttle := t } := by
  refine ⟨⟨hw.current, hw.genuine, hw.births, hw.hashes, hw.pendings, hw.served, fun key u hu => ?_⟩,
    grows_of_eq rfl rfl⟩
  rcases ht key u hu with hold | hle
  · exact hw.closed key u hold
  · exact hle

/-- The tokens change. -/
theorem AuthWorld.Sound.tokens (hw : w.Sound P settings) {pendings : List (Option Pending)}
    (hp : ∀ p, some p ∈ pendings → some p ∈ w.pendings ∨ ∃ v, Presented w.ledger p.userId v) :
    AuthWorld.Sound P settings { w with pendings := pendings } ∧
      w.Grows { w with pendings := pendings } := by
  refine ⟨⟨hw.current, hw.genuine, hw.births, hw.hashes, fun p hmem => ?_, hw.served, hw.closed⟩,
    grows_of_eq rfl rfl⟩
  rcases hp p hmem with hold | hnew
  · exact hw.pendings p hold
  · exact hnew

theorem AuthWorld.Sound.exec (hw : w.Sound P settings) {β : Type} (c : AuthCommand β)
    (hc : c.Proper settings w) :
    (c.exec P settings w).2.Sound P settings ∧ w.Grows (c.exec P settings w).2 := by
  cases c with
  | session c => exact hw.session hc
  | ttls keys => exact ⟨hw, .refl w⟩
  | incr key => exact hw.throttled fun k u hu => .inl hu
  | expire key seconds => exact hw.throttled fun k u hu => .inl hu
  | block key seconds =>
      refine hw.throttled fun k u hu => ?_
      by_cases hk : k = key
      · subst hk
        have hu : some (w.clock + 1000 * seconds) = some u := by
          simpa [Throttle.block] using hu
        obtain rfl := Option.some.inj hu
        have hle : seconds ≤ settings.throttle.backoffCeilingSeconds := hc
        right
        unfold AuthSettings.longest
        omega
      · exact .inl (by simpa [Throttle.block, Function.update_of_ne hk] using hu)
  | reset keys =>
      refine hw.throttled fun k u hu => .inl ?_
      simp only [Throttle.reset] at hu
      split_ifs at hu
      exact hu
  | selectByEmail lowered => exact ⟨hw, .refl w⟩
  | selectUser id => exact ⟨hw, .refl w⟩
  | roleCodes id => exact hw.prove (e := .roles id (w.roles id)) trivial
  | verify owner password hash =>
      cases owner with
      | none => exact ⟨hw, .refl w⟩
      | some id =>
          simp only [AuthCommand.exec]
          split_ifs with hok
          · exact hw.prove (e := .password id password hash) hok
          · exact ⟨hw, .refl w⟩
  | commit attempts edit =>
      have hadded : AuthWorld.Sound P settings { w with attempts := w.attempts ++ attempts } :=
        ⟨hw.current, hw.genuine, hw.births, hw.hashes, hw.pendings, hw.served, hw.closed⟩
      cases edit with
      | none => exact ⟨hadded, grows_of_eq rfl rfl⟩
      | some e =>
          obtain ⟨id, f⟩ := e
          obtain ⟨hsound, hgrows⟩ :=
            hadded.save (w.accounts.map fun a => if a.id = id then f a else a)
          exact ⟨hsound, hgrows.ledger, hgrows.births⟩
  | putPending p =>
      refine hw.tokens fun p' hp' => ?_
      rcases List.mem_append.1 hp' with hold | hnew
      · exact .inl hold
      · obtain rfl := Option.some.inj (List.mem_singleton.1 hnew)
        exact .inr hc
  | getPending token => exact ⟨hw, .refl w⟩
  | deletePending token =>
      refine hw.tokens fun p hp => ?_
      rcases List.mem_or_eq_of_mem_set hp with hold | hnone
      · exact .inl hold
      · cases hnone
  | verifyCode userId secret code =>
      simp only [AuthCommand.exec]
      split_ifs with hok
      · exact hw.prove (e := .code userId secret code) ⟨w.desk.now, hok⟩
      · exact ⟨hw, .refl w⟩
  | matchCounter secret code => exact ⟨hw, .refl w⟩
  | useCounter userId counter =>
      exact ⟨⟨hw.current, hw.genuine, hw.births, hw.hashes, hw.pendings, hw.served, hw.closed⟩,
        grows_of_eq rfl rfl⟩
  | serve p =>
      refine ⟨⟨hw.current, hw.genuine, hw.births, hw.hashes, hw.pendings, fun p' hp' => ?_,
        hw.closed⟩, grows_of_eq rfl rfl⟩
      rcases List.mem_append.1 hp' with hold | hnew
      · exact hw.served p' hold
      · obtain rfl := List.mem_singleton.1 hnew
        exact hc

theorem AuthWorld.Sound.event (hw : w.Sound P settings) (e : AuthEvent) :
    (e.apply w).Sound P settings ∧ w.Grows (e.apply w) := by
  cases e with
  | tick milliseconds codeTime =>
      refine ⟨⟨hw.current, hw.genuine, hw.births, hw.hashes, hw.pendings, hw.served,
        fun key u hu => ?_⟩, grows_of_eq rfl rfl⟩
      have hold := hw.closed key u hu
      have hnow : (AuthEvent.apply (.tick milliseconds codeTime) w).clock =
          w.clock + milliseconds := rfl
      omega
  | expires e =>
      cases e with
      | session sid => exact hw.session (c := .drop none [sid]) fun e he => by cases he
      | userIndex u =>
          exact ⟨⟨hw.current, hw.genuine, hw.births, hw.hashes, hw.pendings, hw.served, hw.closed⟩,
            grows_of_eq rfl rfl⟩
  | pendingExpires token => exact hw.exec (.deletePending token) trivial
  | accountAdded a => exact hw.save _
  | rolesChanged userId codes =>
      exact ⟨⟨hw.current, hw.genuine, hw.births, hw.hashes, hw.pendings, hw.served, hw.closed⟩,
        grows_of_eq rfl rfl⟩

end Commands

/-! ## The discipline -/

def authDiscipline (P : Primitives) (settings : AuthSettings) :
    Discipline (authService P settings) where
  inv := AuthWorld.Sound P settings
  rel := AuthWorld.Grows
  proper := AuthCommand.Proper settings
  allowed _ _ := True
  calm _ _ := True
  expected _ := True
  refl := .refl
  trans := .trans
  keeps c _ hw hc _ := hw.exec c hc
  endures e _ hw _ := hw.event e

/-! ## The sessions -/

section Programs

variable {P : Primitives} {settings : AuthSettings} {w w' : AuthWorld} {α : Type}

/-- A command the discipline asks nothing of. -/
def Free {β : Type} (c : AuthCommand β) : Prop := ∀ settings w, c.Proper settings w

theorem ok_free {β : Type} {c : AuthCommand β} {k : β → Flow α} {post : α → AuthWorld → Prop}
    (hc : Free c) (hk : ∀ w', w'.Sound P settings → w.Grows w' →
      (authDiscipline P settings).Ok post (k (c.exec P settings w').1) (c.exec P settings w').2) :
    (authDiscipline P settings).Ok post (.call c k) w :=
  fun w' hw' hg => ⟨hc settings w', fun _ => hk w' hw' hg⟩

/-- A part that opens no session. -/
theorem ok_quiet {q : Sessions α} (hq : ∀ u, q.All (fun c => ¬ c.AddsTo u) fun _ => True) :
    (authDiscipline P settings).Ok (fun _ _ => True) (q.lift AuthCommand.session) w := by
  induction q generalizing w with
  | ret a => trivial
  | raise e => trivial
  | call c k ih =>
      have hopens : c.opens = none := opens_eq_none fun u => (hq u).1
      refine ok_free (fun settings w e he => ?_) fun w' _ _ => ih _ fun u => (hq u).2 _
      rw [hopens] at he
      cases he

/-- What is known of a record that was loaded. -/
structure Known (settings : AuthSettings) (w : AuthWorld) (sid : ℕ) (rec : SessionRecord) : Prop where
  own : rec.sid = sid
  born : w.redis.BornTo sid rec.userId
  entered : Entered w.ledger rec.userId
  cleared : rec.mfaSetupRequired = false → Cleared settings w.ledger rec.userId

theorem Known.grows {sid : ℕ} {rec : SessionRecord} (h : Known settings w sid rec)
    (hg : w.Grows w') : Known settings w' sid rec :=
  ⟨h.own, hg.bornTo h.born, h.entered.grows hg.ledger, fun hflag => (h.cleared hflag).grows hg.ledger⟩

theorem decode_fields {m : SessionHash} {sid : ℕ} {rec : SessionRecord}
    (h : m.decode sid = .ok rec) : rec.sid = sid ∧ m.userId = some rec.userId ∧
      rec.mfaSetupRequired = m.mfaSetupRequired.getD false := by
  simp only [SessionHash.decode, bind_eq_ok, found_eq_ok, pure_eq_ok] at h
  obtain ⟨u, hu, _, -, _, -, rfl⟩ := h
  exact ⟨rfl, hu, rfl⟩

theorem ok_getSessionRecord {sid : ℕ} {now : Time} :
    (authDiscipline P settings).Ok (fun rec w => ∀ x ∈ rec, Known settings w sid x)
      ((getSessionRecord settings.sessions sid now).lift AuthCommand.session) w := by
  obtain ⟨k, heq, hnone, herror, hok⟩ := getSessionRecord_eq settings.sessions sid now
  rw [heq]
  refine ok_free (fun _ _ e he => by cases he) fun w' hw' _ => ?_
  change Discipline.Ok _ _ ((k (w'.redis.hashes sid)).lift AuthCommand.session) w'
  cases hmap : w'.redis.hashes sid with
  | none =>
      rw [hnone]
      exact fun x hx => by cases hx
  | some m =>
      cases hrec : m.decode sid with
      | error e =>
          rw [herror m e hrec]
          trivial
      | ok rec =>
          rw [hok m rec hrec]
          obtain ⟨hsid, howner, hflag⟩ := decode_fields hrec
          obtain ⟨hborn, hvouched⟩ := hw'.hashes sid m rec.userId hmap howner
          split_ifs
          · exact ok_free (fun _ _ e he => by cases he) fun _ _ _ x hx => by cases hx
          · intro x hx
            obtain rfl := Option.some.inj hx
            refine ⟨hsid, hborn, hvouched.entered, fun hfalse => hvouched.cleared fun htrue => ?_⟩
            rw [htrue] at hflag
            rw [hflag] at hfalse
            cases hfalse

theorem ok_touch {sid : ℕ} {now : Time} :
    (authDiscipline P settings).Ok (fun rec w => ∀ x ∈ rec, Known settings w sid x)
      ((touch settings.sessions sid now).lift AuthCommand.session) w := by
  unfold touch
  change Discipline.Ok _ _ (Prog.lift _ (Prog.bind _ _)) w
  rw [Prog.lift_bind]
  refine ok_getSessionRecord.mono (fun rec w₁ hrec => ?_) |>.bind
  cases rec with
  | none => exact fun x hx => by cases hx
  | some rec =>
      refine ok_free (fun _ _ e he => by cases he) fun w₂ _ hg => ?_
      intro x hx
      obtain rfl := Option.some.inj hx
      have hknown := (hrec rec rfl).grows hg
      exact ⟨hknown.own, hknown.born, hknown.entered, hknown.cleared⟩

/-- What is known of the caller of a request. -/
structure Principal.Known (settings : AuthSettings) (w : AuthWorld) (p : Principal) : Prop where
  born : w.redis.BornTo p.sessionId p.userId
  entered : Entered w.ledger p.userId
  cleared : p.mfaSetupRequired = false → Cleared settings w.ledger p.userId

theorem Principal.Known.grows {p : Principal} (h : p.Known settings w) (hg : w.Grows w') :
    p.Known settings w' :=
  ⟨hg.bornTo h.born, h.entered.grows hg.ledger, fun hflag => (h.cleared hflag).grows hg.ledger⟩

/-- A rotation lifts the demand for a second factor only for a user who is cleared. -/
theorem ok_regenerateId {sid u : ℕ} {overrides : Overrides} {now : Time}
    (hborn : w.redis.BornTo sid u)
    (hlift : overrides.mfaSetupRequired = some false → Cleared settings w.ledger u) :
    (authDiscipline P settings).Ok (fun _ _ => True)
      ((regenerateId settings.sessions sid overrides now).lift AuthCommand.session) w := by
  unfold regenerateId
  change Discipline.Ok _ _ (Prog.lift _ (Prog.bind _ _)) w
  rw [Prog.lift_bind]
  refine ok_getSessionRecord.since.mono (fun rec w₁ hrec => ?_) |>.bind
  obtain ⟨hrec, hg₁⟩ := hrec
  cases rec with
  | none => trivial
  | some rec =>
      intro w₂ _ hg₂
      refine ⟨fun e he => ?_, fun _ => trivial⟩
      obtain rfl := Option.some.inj he
      have hknown := (hrec rec rfl).grows hg₂
      have howner : rec.userId = u := hknown.born.unique ((hg₁.trans hg₂).bornTo hborn)
      refine ⟨rfl, hknown.entered, fun hflag => ?_⟩
      cases hover : overrides.mfaSetupRequired with
      | none =>
          refine hknown.cleared (Bool.eq_false_iff.2 fun htrue => hflag ?_)
          simp [SessionRecord.encode, Overrides.applyTo, hover, htrue]
      | some flag =>
          cases flag with
          | true => exact absurd (by simp [SessionRecord.encode, Overrides.applyTo, hover]) hflag
          | false => exact howner ▸ (hlift hover).grows (hg₁.trans hg₂).ledger

theorem ok_createSession {a : NewSession} (hentered : Entered w.ledger a.userId)
    (hcleared : a.mfaSetupRequired = false → Cleared settings w.ledger a.userId) :
    (authDiscipline P settings).Ok (fun _ _ => True)
      ((createSession settings.sessions a).lift AuthCommand.session) w := by
  unfold createSession
  change Discipline.Ok _ _ (Prog.lift _ (Prog.bind _ _)) w
  rw [Prog.lift_bind]
  refine (ok_quiet fun u => SessionCap.quiet_enforceCap).since.mono (fun _ w₁ hg => ?_) |>.bind
  intro w₂ _ hg₂
  have hgrows := (hg.2.trans hg₂).ledger
  refine ⟨fun e he => ?_, fun _ => trivial⟩
  obtain rfl := Option.some.inj he
  refine ⟨rfl, hentered.grows hgrows, fun hflag => (hcleared ?_).grows hgrows⟩
  exact Bool.eq_false_iff.2 fun htrue => hflag (congrArg some htrue)

/-! ## The calls -/

theorem exec_verifyCode (P : Primitives) (settings : AuthSettings) (userId : ℕ)
    (secret code : String) (w : AuthWorld) :
    (AuthCommand.verifyCode userId secret code).exec P settings w =
      (true, w.prove (.code userId secret code)) ∨
    (AuthCommand.verifyCode userId secret code).exec P settings w = (false, w) := by
  simp only [AuthCommand.exec]
  cases P.totp.verifyCode settings.mfaValidWindow secret code w.desk.now with
  | true => exact .inl rfl
  | false => exact .inr rfl

/-- The row a call reads is a version. -/
theorem AuthWorld.Sound.select (hw : w.Sound P settings) {id : ℕ} {user : Account}
    (h : w.selectUser id = some user) : user ∈ w.ledger.versions ∧ user.id = id :=
  ⟨hw.current user (List.mem_of_find?_eq_some h), by simpa using List.find?_some h⟩

theorem follows (s : AuthSystem) (m : AuthMove) :
    (authDiscipline P settings).Follows (fun _ => True) s m := by
  cases m with
  | start call => trivial
  | act i =>
      intro t _
      cases t.2 with
      | ret a => trivial
      | raise e => trivial
      | call c k => trivial
  | environment e => trivial

end Programs

end Auth

end OfficeConnect
