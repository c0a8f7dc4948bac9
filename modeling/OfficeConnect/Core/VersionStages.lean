import OfficeConnect.Core.Rbac
import OfficeConnect.Core.SessionLaw

/-!
# The stages of grants, revocations and requests

A writer prunes the index, reads it and stamps the version it committed; a request reads the version
of its session and resolves it.  Each command of a call leaves the versions alone, stores an entry,
commits the next version or stamps the committed one.
-/

namespace OfficeConnect

open Lib Lib.Threads

/-- The user a grant or a revocation is for. -/
def RbacCall.target : RbacCall → Option ℕ
  | .grantRole row => some row.userId
  | .revokeRole targetUserId _ => some targetUserId
  | .request _ _ => none

def RbacCall.Writes (call : RbacCall) : Prop := call.target.isSome

/-- A session of the user carries this version. -/
def Redis.Carries (r : Redis) (u version : ℕ) : Prop :=
  ∃ sid h, r.hashes sid = some h ∧ h.userId = some u ∧ h.permissionsVersion.getD 0 = version

/-! ## Commands that leave the versions alone -/

/-- The commands that neither make nor stamp a session. -/
def Command.Keeps : {β : Type} → Command β → Prop
  | _, .mint _ _ _ => False
  | _, .rotate _ _ _ _ => False
  | _, .stamp _ _ => False
  | _, _ => True

/-- The entry a command stores. -/
def RbacCommand.stored : {β : Type} → RbacCommand β → Option (ℕ × ℕ × Finset String)
  | _, .cacheSet u version codes => some (u, version, codes)
  | _, _ => none

namespace Freshness

/-- The version `grant_role` read is still the committed one when it holds the lock. -/
def Unraced : {β : Type} → RbacCommand β → RbacWorld → Prop
  | _, .saveGrant _ row version, w => w.db.users row.userId = some version
  | _, _, _ => True

/-- The commands that change neither the user's grants nor the versions of sessions and entries. -/
def Harmless (u : ℕ) : {β : Type} → RbacCommand β → Prop
  | _, .session c => c.Keeps
  | _, .saveGrant _ _ _ => False
  | _, .saveRevocation _ _ => False
  | _, .cacheSet v _ _ => v ≠ u
  | _, _ => True

/-- Not an answer for the user. -/
def Foreign (u : ℕ) (a : RbacAnswer) : Prop := ∀ codes, a ≠ .resolved (some (u, codes))

section

variable {u x y sid : ℕ} {r r' : Redis} {w w' : RbacWorld}

theorem hash_of_keeps {β : Type} {c : Command β} (hc : c.Keeps) {h : SessionHash}
    (hhash : (c.exec r).2.hashes sid = some h) (howner : h.userId = some u) :
    ∃ h₀, r.hashes sid = some h₀ ∧ h₀.userId = some u ∧
      h₀.permissionsVersion = h.permissionsVersion := by
  cases c with
  | hgetall _ => exact ⟨h, hhash, howner, rfl⟩
  | hgetUserId _ => exact ⟨h, hhash, howner, rfl⟩
  | zrange _ => exact ⟨h, hhash, howner, rfl⟩
  | zrangeTo _ _ => exact ⟨h, hhash, howner, rfl⟩
  | zcard _ => exact ⟨h, hhash, howner, rfl⟩
  | present _ => exact ⟨h, hhash, howner, rfl⟩
  | zrem _ _ => exact ⟨h, hhash, howner, rfl⟩
  | mint _ _ _ => exact hc.elim
  | slide v now =>
      by_cases hv : sid = v
      · subst hv
        obtain rfl : { (r.hashes sid).getD {} with lastSeenAt := some now } = h := by
          simpa [Command.exec, Redis.hset] using hhash
        cases hold : r.hashes sid with
        | none => simp [hold] at howner
        | some h₀ => exact ⟨h₀, rfl, by simpa [hold] using howner, by simp⟩
      · exact ⟨h, by simpa [Command.exec, Redis.hset, Function.update_of_ne hv] using hhash,
          howner, rfl⟩
  | rotate _ _ _ _ => exact hc.elim
  | drop v sids =>
      refine ⟨h, ?_, howner, rfl⟩
      cases v <;>
      · simp only [Command.exec, Redis.zrem, Redis.hashes_setMembers, Redis.delete] at hhash
        split_ifs at hhash
        exact hhash
  | stamp _ _ => exact hc.elim

/-- What the moves of the others may do to what the user's requests read. -/
structure Steady (u : ℕ) (w w' : RbacWorld) : Prop where
  db : w'.db = w.db
  cache : ∀ y codes, w'.cache (u, y) = some codes → w.cache (u, y) = some codes
  carries : ∀ y, w'.redis.Carries u y → w.redis.Carries u y
  user : ∀ sid, w'.redis.user? sid = some u → w.redis.user? sid = some u

theorem Steady.refl (u : ℕ) (w : RbacWorld) : Steady u w w :=
  ⟨rfl, fun _ _ h => h, fun _ h => h, fun _ h => h⟩

theorem Steady.of_hashes (hdb : w'.db = w.db)
    (hcache : ∀ y codes, w'.cache (u, y) = some codes → w.cache (u, y) = some codes)
    (hhash : ∀ sid h, w'.redis.hashes sid = some h → h.userId = some u →
      ∃ h₀, w.redis.hashes sid = some h₀ ∧ h₀.userId = some u ∧
        h₀.permissionsVersion = h.permissionsVersion) : Steady u w w' := by
  refine ⟨hdb, hcache, ?_, fun sid huser => ?_⟩
  · rintro y ⟨sid, h, hmap, howner, rfl⟩
    obtain ⟨h₀, hmap₀, howner₀, hsame⟩ := hhash sid h hmap howner
    exact ⟨sid, h₀, hmap₀, howner₀, by rw [hsame]⟩
  · obtain ⟨h, hmap, howner⟩ := Option.bind_eq_some_iff.1 huser
    obtain ⟨h₀, hmap₀, howner₀, -⟩ := hhash sid h hmap howner
    exact Option.bind_eq_some_iff.2 ⟨h₀, hmap₀, howner₀⟩

theorem cache_update {v z : ℕ} {entry : Option (Finset String)} {codes : Finset String}
    (hentry : v = u → entry = none)
    (h : Function.update w.cache (v, z) entry (u, y) = some codes) :
    w.cache (u, y) = some codes := by
  by_cases hkey : (u, y) = (v, z)
  · obtain ⟨rfl, rfl⟩ := Prod.mk.inj hkey
    rw [Function.update_self, hentry rfl] at h
    cases h
  · rwa [Function.update_of_ne hkey] at h

theorem steady_exec {β : Type} {c : RbacCommand β} (hc : Harmless u c) :
    Steady u w (c.exec w).2 := by
  cases c with
  | session c =>
      exact .of_hashes rfl (fun _ _ h => h) fun sid h hmap howner =>
        hash_of_keeps hc hmap howner
  | selectUser _ => exact .refl u w
  | selectRole _ => exact .refl u w
  | selectGrants _ => exact .refl u w
  | selectLiveGrant _ _ => exact .refl u w
  | saveGrant _ _ _ => exact hc.elim
  | saveRevocation _ _ => exact hc.elim
  | loadEntry _ => exact .refl u w
  | cacheGet _ _ => exact .refl u w
  | cacheSet v z codes =>
      exact ⟨rfl, fun y found h => cache_update (fun heq => absurd heq hc) h, fun _ h => h,
        fun _ h => h⟩
  | cacheDelete v z =>
      exact ⟨rfl, fun y found h => cache_update (fun _ => rfl) h, fun _ h => h, fun _ h => h⟩

theorem steady_expiry (e : RbacExpiry) : Steady u w (e.apply w) := by
  cases e with
  | session e =>
      cases e with
      | session sid =>
          have hc : Harmless u (.session (.drop none [sid])) := trivial
          exact steady_exec hc
      | userIndex v => exact ⟨rfl, fun _ _ h => h, fun _ h => h, fun _ h => h⟩
  | entry v z =>
      exact ⟨rfl, fun y found h => cache_update (fun _ => rfl) h, fun _ h => h, fun _ h => h⟩

/-! ## The stages of a call -/

/-- A writer that has committed version `x` and has yet to read the user's index. -/
inductive Pruning (u x : ℕ) : Rbac RbacAnswer → Prop
  | list {k : List ℕ → Rbac RbacAnswer} (hnil : (k []).All (Harmless u) (Foreign u))
      (hk : ∀ sids ≠ [], ∃ k', k sids = .call (.session (.stamp sids x)) k' ∧
        ∀ a, (k' a).All (Harmless u) (Foreign u)) :
      Pruning u x (.call (.session (.zrange u)) k)
  | prune {β : Type} {c : RbacCommand β} {k : β → Rbac RbacAnswer} (hc : Harmless u c)
      (hk : ∀ a, Pruning u x (k a)) : Pruning u x (.call c k)

/-- A writer before its commit. -/
inductive Writing (u : ℕ) : Rbac RbacAnswer → Prop
  | failed (e : Raised) : Writing u (.raise e)
  | read {β : Type} {c : RbacCommand β} {k : β → Rbac RbacAnswer} (hc : Harmless u c)
      (hk : ∀ a, Writing u (k a)) : Writing u (.call c k)
  | grant {existing : Option (ℕ × UserRole)} {row : UserRole} {version : ℕ}
      {k : Except Raised ℕ → Rbac RbacAnswer} (hrow : row.userId = u)
      (hk : ∀ id, Pruning u (version + 1) (k (.ok id)))
      (hfail : ∀ e, k (.error e) = .raise e) : Writing u (.call (.saveGrant existing row version) k)
  | revoke {grantId : ℕ} {k : Except Raised ℕ → Rbac RbacAnswer}
      (hk : ∀ version, Pruning u (version + 1) (k (.ok version)))
      (hfail : ∀ e, k (.error e) = .raise e) : Writing u (.call (.saveRevocation grantId u) k)

/-- The load of an entry. -/
def loading (u y : ℕ) : Rbac RbacAnswer :=
  .call (.loadEntry u) fun codes =>
    .call (.cacheSet u y codes) fun _ => .ret (.resolved (some (u, codes)))

/-- A request of the user's session that has read version `y`. -/
inductive Resolving (u y : ℕ) : Rbac RbacAnswer → Prop
  | foreign {p : Rbac RbacAnswer} (h : p.All (Harmless u) (Foreign u)) : Resolving u y p
  | other {β : Type} {c : RbacCommand β} {k : β → Rbac RbacAnswer} (hc : Harmless u c)
      (hk : ∀ a, Resolving u y (k a)) : Resolving u y (.call c k)
  | lookup {k : Option (Finset String) → Rbac RbacAnswer}
      (hhit : ∀ codes, k (some codes) = .ret (.resolved (some (u, codes))))
      (hmiss : k none = loading u y) : Resolving u y (.call (.cacheGet u y) k)
  | load : Resolving u y (loading u y)

/-- Which version a call is about to stamp, or has read. -/
inductive Label where
  | idle
  | pending (version : ℕ)
  | holding (version : ℕ)

/-- How far a call is. -/
inductive Stage (u : ℕ) (r : Redis) (call : RbacCall) : Label → Rbac RbacAnswer → Prop
  | quiet {p : Rbac RbacAnswer} (h : p.All (Harmless u) (Foreign u)) : Stage u r call .idle p
  | opening {sid : ℕ} {k : Option SessionHash → Rbac RbacAnswer}
      (hown : ∀ h, h.userId = some u →
        Resolving u (h.permissionsVersion.getD 0) (k (some h)))
      (hother : ∀ m, (∀ h ∈ m, h.userId ≠ some u) → (k m).All (Harmless u) (Foreign u)) :
      Stage u r call .idle (.call (.session (.hgetall sid)) k)
  | writing {p : Rbac RbacAnswer} (hw : call.Writes) (h : Writing u p) : Stage u r call .idle p
  | pruning {x : ℕ} {p : Rbac RbacAnswer} (hw : call.Writes) (h : Pruning u x p) :
      Stage u r call (.pending x) p
  | listed {x : ℕ} {sids : List ℕ} {k : Unit → Rbac RbacAnswer} (hw : call.Writes)
      (hall : ∀ sid, r.user? sid = some u → sid ∈ sids)
      (hk : ∀ a, (k a).All (Harmless u) (Foreign u)) :
      Stage u r call (.pending x) (.call (.session (.stamp sids x)) k)
  | resolving {y : ℕ} {p : Rbac RbacAnswer} (h : Resolving u y p) : Stage u r call (.holding y) p
  | storing {y : ℕ} {codes : Finset String} : Stage u r call (.holding y)
      (.call (.cacheSet u y codes) fun _ => .ret (.resolved (some (u, codes))))
  | answered {y : ℕ} {codes : Finset String} : Stage u r call (.holding y)
      (.ret (.resolved (some (u, codes))))

variable {settings : SessionSettings} {call : RbacCall} {l : Label} {p : Rbac RbacAnswer}

theorem Stage.later (h : Stage u r call l p)
    (huser : ∀ sid, r'.user? sid = some u → r.user? sid = some u) : Stage u r' call l p := by
  cases h with
  | quiet h => exact .quiet h
  | opening hown hother => exact .opening hown hother
  | writing hw h => exact .writing hw h
  | pruning hw h => exact .pruning hw h
  | listed hw hall hk => exact .listed hw (fun sid hsid => hall sid (huser sid hsid)) hk
  | resolving h => exact .resolving h
  | storing => exact .storing
  | answered => exact .answered

/-! ## The programs -/

/-- After its commit a writer prunes the index, reads it and stamps what it read. -/
theorem pruning_announce {a : RbacAnswer} (ha : Foreign u a) : Pruning u x (announce u x a) := by
  have hdelete : (Prog.call (.cacheDelete u (x - 1)) fun _ => Prog.ret a : Rbac RbacAnswer).All
      (Harmless u) (Foreign u) := ⟨trivial, fun _ => ha⟩
  have hlist : Pruning u x (Prog.lift RbacCommand.session (Prog.call (.zrange u) fun sids =>
      stampListed x sids) >>= fun _ => Prog.call (.cacheDelete u (x - 1)) fun _ => Prog.ret a) := by
    refine .list hdelete fun sids hsids => ⟨fun _ => _, ?_, fun _ => hdelete⟩
    change Prog.lift _ (stampListed x sids) >>= _ = _
    rw [stampListed, if_neg hsids]
    rfl
  refine .prune (c := .session (.zrange u)) trivial fun sids => ?_
  change Pruning u x (Prog.lift _ ((if sids = [] then Prog.ret () else _) >>= _) >>= _)
  split_ifs
  · exact hlist
  · refine .prune (c := .session (.present sids)) trivial fun existing => ?_
    change Pruning u x (Prog.lift _ ((if _ then Prog.ret () else _) >>= _) >>= _)
    split_ifs
    · exact hlist
    · exact .prune (c := .session (.zrem u _)) trivial fun _ => hlist

theorem writing_grantRole (row : UserRole) : Writing row.userId (grantRole row) := by
  refine .read (c := .selectUser row.userId) trivial fun user => ?_
  cases user with
  | none => exact .failed _
  | some version =>
      refine .read (c := .selectRole row.roleId) trivial fun role => ?_
      cases role with
      | none => exact .failed _
      | some code =>
          refine .read (c := .selectGrants row) trivial fun existing => ?_
          match existing with
          | [] => exact .grant rfl (fun id => pruning_announce fun _ h => by cases h) fun _ => rfl
          | [g] => exact .grant rfl (fun id => pruning_announce fun _ h => by cases h) fun _ => rfl
          | _ :: _ :: _ => exact .failed _

theorem writing_revokeRole (u grantId : ℕ) : Writing u (revokeRole u grantId) := by
  refine .read (c := .selectLiveGrant grantId u) trivial fun grant => ?_
  cases grant with
  | none => exact .failed _
  | some row => exact .revoke (fun version => pruning_announce fun _ h => by cases h) fun _ => rfl

/-- What a request does once it has loaded its record. -/
theorem resolving_getOrLoad {rec : SessionRecord} (hrec : rec.userId = u) :
    Resolving u rec.permissionsVersion (getOrLoad rec.userId rec.permissionsVersion >>= fun codes =>
      Prog.ret (.resolved (some (rec.userId, codes)))) := by
  subst hrec
  exact .lookup (fun _ => rfl) rfl

theorem foreign_getOrLoad {rec : SessionRecord} (hrec : rec.userId ≠ u) :
    (getOrLoad rec.userId rec.permissionsVersion >>= fun codes =>
      Prog.ret (.resolved (some (rec.userId, codes)))).All (Harmless u) (Foreign u) := by
  have hanswer : ∀ codes, Foreign u (.resolved (some (rec.userId, codes))) := by
    rintro codes codes' heq
    cases heq
    exact hrec rfl
  refine ⟨trivial, fun cached => ?_⟩
  cases cached with
  | some codes => exact hanswer codes
  | none => exact ⟨trivial, fun codes => ⟨hrec, fun _ => hanswer codes⟩⟩

/-- What is left of a request once it has read its hash. -/
def resume (settings : SessionSettings) (sid : ℕ) (now : Time) :
    Option SessionHash → Rbac RbacAnswer
  | none => .ret (.resolved none)
  | some h =>
      match h.decode sid with
      | .error e => .raise e
      | .ok rec =>
          if expiryReason rec.createdAt rec.lastSeenAt rec.idleTier settings now ≠ none then
            .call (.session (.drop (some rec.userId) [sid])) fun _ => .ret (.resolved none)
          else .call (.session (.slide sid now)) fun _ =>
            getOrLoad rec.userId rec.permissionsVersion >>= fun codes =>
              .ret (.resolved (some (rec.userId, codes)))

theorem effectivePermissionCodes_eq (settings : SessionSettings) (sid : ℕ) (now : Time) :
    effectivePermissionCodes settings sid now =
      .call (.session (.hgetall sid)) (resume settings sid now) := by
  refine congrArg (Prog.call _) (funext fun m => ?_)
  cases m with
  | none => rfl
  | some h =>
      change Prog.lift RbacCommand.session ((match h.decode sid with
        | .error e => Prog.raise e
        | .ok rec => _) >>= _) >>= _ = _
      cases hrec : h.decode sid with
      | error e => simp only [resume, hrec]; rfl
      | ok rec =>
          simp only [resume, hrec]
          split_ifs <;> rfl

theorem stage_request (sid : ℕ) (now : Time) :
    Stage u r call .idle (effectivePermissionCodes settings sid now) := by
  have hnone : Foreign u (.resolved none) := fun _ h => by cases h
  rw [effectivePermissionCodes_eq]
  refine .opening (fun h howner => ?_) fun m hm => ?_
  · cases hrec : h.decode sid with
    | error e =>
        simp only [resume, hrec]
        exact .foreign trivial
    | ok rec =>
        simp only [resume, hrec]
        have huser : rec.userId = u :=
          Option.some.inj ((SessionHash.decode_userId hrec).symm.trans howner)
        split_ifs
        · exact .foreign ⟨trivial, fun _ => hnone⟩
        · rw [← SessionHash.decode_permissionsVersion hrec]
          exact .other (c := .session (.slide sid now)) trivial fun _ => resolving_getOrLoad huser
  · cases m with
    | none => exact hnone
    | some h =>
        cases hrec : h.decode sid with
        | error e =>
            simp only [resume, hrec]
            trivial
        | ok rec =>
            simp only [resume, hrec]
            have huser : rec.userId ≠ u := fun heq =>
              hm h rfl (heq ▸ SessionHash.decode_userId hrec)
            split_ifs
            · exact ⟨trivial, fun _ => hnone⟩
            · exact ⟨trivial, fun _ => foreign_getOrLoad huser⟩

/-- A call starts idle. -/
theorem stage_rbacProg (hcall : ∀ v ∈ call.target, v = u) :
    Stage u r call .idle (rbacProg settings call) := by
  cases call with
  | grantRole row =>
      obtain rfl : row.userId = u := hcall row.userId rfl
      exact .writing rfl (writing_grantRole row)
  | revokeRole v grantId =>
      obtain rfl : v = u := hcall v rfl
      exact .writing rfl (writing_revokeRole v grantId)
  | request sid now => exact stage_request sid now

/-! ## One command -/

/-- The entry a program is about to store. -/
def stores : Rbac RbacAnswer → Option (ℕ × ℕ × Finset String)
  | .call c _ => c.stored
  | _ => none

/-- What the next command of a call does: nothing to the versions, the store of an entry, the commit
of the next version, or the stamp of the committed one. -/
inductive Act (u : ℕ) (call : RbacCall) (w w' : RbacWorld) (p : Rbac RbacAnswer) :
    Label → Label → Rbac RbacAnswer → Prop
  | steady {l l' : Label} {p' : Rbac RbacAnswer} (h : Steady u w w')
      (hstage : Stage u w.redis call l' p')
      (hlabel : l' = l ∨ l = .idle ∧ ∃ y, l' = .holding y ∧ w.redis.Carries u y)
      (hstore : ∀ y codes, stores p' = some (u, y, codes) → codes = w.db.permissionCodes u)
      (hanswer : ∀ codes, p' = .ret (.resolved (some (u, codes))) →
        ∃ y, l = .holding y ∧ w.cache (u, y) = some codes) : Act u call w w' p l l' p'
  | store {y : ℕ} {codes : Finset String} (hp : stores p = some (u, y, codes))
      (hw' : w' = { w with cache := Function.update w.cache (u, y) (some codes) }) :
      Act u call w w' p (.holding y) (.holding y) (.ret (.resolved (some (u, codes))))
  | commit {version : ℕ} {p' : Rbac RbacAnswer} (hw : call.Writes) (hredis : w'.redis = w.redis)
      (hcache : w'.cache = w.cache) (hold : w.db.users u = some version)
      (hnew : w'.db.users u = some (version + 1)) (hstage : Pruning u (version + 1) p') :
      Act u call w w' p .idle (.pending (version + 1)) p'
  | stamp {x : ℕ} {p' : Rbac RbacAnswer} (hw : call.Writes) (hdb : w'.db = w.db)
      (hcache : w'.cache = w.cache) (hcarries : ∀ y, w'.redis.Carries u y → y = x)
      (huser : ∀ sid, w'.redis.user? sid = some u → w.redis.user? sid = some u)
      (hp' : p'.All (Harmless u) (Foreign u)) : Act u call w w' p (.pending x) .idle p'

theorem not_stored_of_harmless {β : Type} {c : RbacCommand β} (hc : Harmless u c)
    (codes : Finset String) : c.stored ≠ some (u, y, codes) := by
  cases c with
  | cacheSet v z found =>
      intro h
      cases h
      exact hc rfl
  | _ => nofun

theorem not_store_of_all (h : p.All (Harmless u) (Foreign u)) (codes : Finset String) :
    stores p ≠ some (u, y, codes) := by
  cases p with
  | ret a => nofun
  | raise e => nofun
  | call c k => exact not_stored_of_harmless h.1 codes

theorem not_answer_of_all (h : p.All (Harmless u) (Foreign u)) {codes : Finset String} :
    p ≠ .ret (.resolved (some (u, codes))) := by
  rintro rfl
  exact h codes rfl

theorem Pruning.not_store (h : Pruning u x p) (codes : Finset String) :
    stores p ≠ some (u, y, codes) := by
  cases h with
  | list _ _ => nofun
  | prune hc _ => exact not_stored_of_harmless hc codes

theorem Writing.not_store (h : Writing u p) (codes : Finset String) :
    stores p ≠ some (u, y, codes) := by
  cases h with
  | failed e => nofun
  | read hc _ => exact not_stored_of_harmless hc codes
  | grant _ _ _ => nofun
  | revoke _ _ => nofun

theorem Writing.not_answer (h : Writing u p) {codes : Finset String} :
    p ≠ .ret (.resolved (some (u, codes))) := by
  rintro rfl
  cases h

theorem Pruning.not_answer (h : Pruning u x p) {codes : Finset String} :
    p ≠ .ret (.resolved (some (u, codes))) := by
  rintro rfl
  cases h

theorem Resolving.not_store (h : Resolving u x p) (codes : Finset String) :
    stores p ≠ some (u, y, codes) := by
  cases h with
  | foreign h => exact not_store_of_all h codes
  | other hc _ => exact not_stored_of_harmless hc codes
  | lookup _ _ => nofun
  | load => nofun

theorem Resolving.not_answer (h : Resolving u x p) {codes : Finset String} :
    p ≠ .ret (.resolved (some (u, codes))) := by
  rintro rfl
  cases h with
  | foreign h => exact h codes rfl

/-- Only a request that has read a version stores an entry for it. -/
theorem Stage.of_store {codes : Finset String} (h : Stage u r call l p)
    (hstores : stores p = some (u, y, codes)) : l = .holding y := by
  cases h with
  | quiet h => exact absurd hstores (not_store_of_all h codes)
  | opening _ _ => cases hstores
  | writing _ h => exact absurd hstores (h.not_store codes)
  | pruning _ h => exact absurd hstores (h.not_store codes)
  | listed _ _ _ => cases hstores
  | resolving h => exact absurd hstores (h.not_store codes)
  | storing =>
      cases hstores
      rfl
  | answered => cases hstores

/-- A command that touches no version, of a call in the same stage after it. -/
theorem Act.of_harmless {β : Type} {c : RbacCommand β} (hc : Harmless u c) {p' : Rbac RbacAnswer}
    (hstage : Stage u w.redis call l p')
    (hstore : ∀ y codes, stores p' ≠ some (u, y, codes))
    (hanswer : ∀ codes, p' ≠ .ret (.resolved (some (u, codes)))) :
    Act u call w (c.exec w).2 p l l p' :=
  .steady (steady_exec hc) hstage (.inl rfl) (fun y codes h => absurd h (hstore y codes))
    fun codes h => absurd h (hanswer codes)

theorem Act.of_quiet {β : Type} {c : RbacCommand β} (hc : Harmless u c) {p' : Rbac RbacAnswer}
    (hp' : p'.All (Harmless u) (Foreign u)) : Act u call w (c.exec w).2 p .idle .idle p' :=
  .of_harmless hc (.quiet hp') (fun _ codes => not_store_of_all hp' codes)
    fun _ => not_answer_of_all hp'

/-- The commit of a grant that was not raced moves the version on by one. -/
theorem saveGrant_commit (existing : Option (ℕ × UserRole)) {row : UserRole} {version : ℕ}
    (hversion : w.db.users row.userId = some version) :
    (∃ e, RbacCommand.exec (.saveGrant existing row version) w = (.error e, w)) ∨
      ∃ id db, RbacCommand.exec (.saveGrant existing row version) w =
        (.ok id, { w with db := db }) ∧ db.users row.userId = some (version + 1) := by
  have hbump : ∀ rows : List UserRole,
      ({ w.db with userRoles := rows }.bump row.userId version).users row.userId =
        some (version + 1) := by
    intro rows
    simp [RbacTables.bump, hversion]
  cases hsave : w.db.saveGrant existing row version with
  | error e => exact .inl ⟨e, by simp [RbacCommand.exec, RbacWorld.commit, hsave]⟩
  | ok result =>
      obtain ⟨id, db⟩ := result
      refine .inr ⟨id, db, by simp [RbacCommand.exec, RbacWorld.commit, hsave], ?_⟩
      cases existing with
      | none =>
          simp only [RbacTables.saveGrant, bind_eq_ok, refuse_eq_ok, pure_eq_ok] at hsave
          obtain ⟨_, -, _, -, heq⟩ := hsave
          obtain ⟨-, rfl⟩ := Prod.mk.inj heq
          exact hbump _
      | some loaded =>
          obtain ⟨id', loaded⟩ := loaded
          simp only [RbacTables.saveGrant] at hsave
          split_ifs at hsave
          · simp only [bind_eq_ok, refuse_eq_ok, pure_eq_ok] at hsave
            obtain ⟨_, -, heq⟩ := hsave
            obtain ⟨-, rfl⟩ := Prod.mk.inj heq
            exact hbump _
          · obtain ⟨-, rfl⟩ := Prod.mk.inj (pure_eq_ok.1 hsave)
            exact hbump w.db.userRoles

theorem saveRevocation_commit (grantId : ℕ) {version : ℕ} (hversion : w.db.users u = some version) :
    ∃ db, RbacCommand.exec (.saveRevocation grantId u) w = (.ok version, { w with db := db }) ∧
      db.users u = some (version + 1) := by
  refine ⟨{ w.db with userRoles := w.db.userRoles.modify grantId fun g =>
    { g with deleted := true } }.bump u version, ?_, by simp [RbacTables.bump, hversion]⟩
  simp only [RbacCommand.exec, RbacTables.saveRevocation, hversion, found_some, ok_bind]
  rfl

/-- The load of a session's hash: a request of the user's session reads the version it carries. -/
theorem act_opening {sid : ℕ} {k : Option SessionHash → Rbac RbacAnswer}
    (hown : ∀ h, h.userId = some u → Resolving u (h.permissionsVersion.getD 0) (k (some h)))
    (hother : ∀ m, (∀ h ∈ m, h.userId ≠ some u) → (k m).All (Harmless u) (Foreign u)) :
    ∃ l', Act u call w w (.call (.session (.hgetall sid)) k) .idle l' (k (w.redis.hashes sid)) := by
  by_cases howner : w.redis.user? sid = some u
  · obtain ⟨h, hhash, hu⟩ := Option.bind_eq_some_iff.1 howner
    have hresolving := hown h hu
    rw [← hhash] at hresolving
    refine ⟨.holding (h.permissionsVersion.getD 0), .steady (.refl u w) (.resolving hresolving)
      (.inr ⟨rfl, _, rfl, sid, h, hhash, hu, rfl⟩) (fun y codes hs => ?_) fun codes ha => ?_⟩
    · exact absurd hs (hresolving.not_store codes)
    · exact absurd ha hresolving.not_answer
  · refine ⟨.idle, .of_quiet (c := .session (.hgetall sid)) trivial (hother _ ?_)⟩
    intro h hhash hu
    exact howner (Option.bind_eq_some_iff.2 ⟨h, hhash, hu⟩)

theorem Writing.act {β : Type} {c : RbacCommand β} {k : β → Rbac RbacAnswer}
    (h : Writing u (.call c k)) (hw : call.Writes) (huser : (w.db.users u).isSome)
    (hallowed : Unraced c w) :
    ∃ l', Act u call w (c.exec w).2 (.call c k) .idle l' (k (c.exec w).1) := by
  generalize hp : Prog.call c k = p at h
  cases h with
  | failed e => cases hp
  | read hc hk =>
      cases hp
      exact ⟨.idle, .of_harmless hc (.writing hw (hk _)) (fun _ codes => (hk _).not_store codes)
        fun _ => (hk _).not_answer⟩
  | @grant existing row version k' hrow hk hfail =>
      cases hp
      subst hrow
      have hversion : w.db.users row.userId = some version := hallowed
      rcases saveGrant_commit existing hversion with ⟨e, hexec⟩ | ⟨id, db, hexec, hnew⟩
      · rw [hexec, hfail]
        exact ⟨.idle, .steady (.refl _ w) (.quiet trivial) (.inl rfl) (fun _ _ h => by cases h)
          fun _ h => by cases h⟩
      · rw [hexec]
        exact ⟨.pending (version + 1), .commit hw rfl rfl hversion hnew (hk id)⟩
  | @revoke grantId k' hk hfail =>
      cases hp
      obtain ⟨version, hversion⟩ := Option.isSome_iff_exists.1 huser
      obtain ⟨db, hexec, hnew⟩ := saveRevocation_commit grantId hversion
      rw [hexec]
      exact ⟨.pending (version + 1), .commit hw rfl rfl hversion hnew (hk version)⟩

theorem Pruning.act {β : Type} {c : RbacCommand β} {k : β → Rbac RbacAnswer}
    (h : Pruning u x (.call c k)) (hw : call.Writes) (hindexed : w.redis.Indexed) :
    ∃ l', Act u call w (c.exec w).2 (.call c k) (.pending x) l' (k (c.exec w).1) := by
  generalize hp : Prog.call c k = p at h
  cases h with
  | prune hc hk =>
      cases hp
      exact ⟨.pending x, .of_harmless hc (.pruning hw (hk _))
        (fun _ codes => (hk _).not_store codes) fun _ => (hk _).not_answer⟩
  | @list k' hnil hk =>
      cases hp
      have hlisted : ∀ sid, w.redis.user? sid = some u → sid ∈ w.redis.zrange u :=
        fun sid huser => Redis.mem_zrange.2 (hindexed.owned sid u huser).2
      by_cases hsids : w.redis.zrange u = []
      · -- without a listed session the user has none, and there is nothing to stamp
        refine ⟨.idle, .stamp hw rfl rfl (fun y hy => ?_) (fun _ h => h) ?_⟩
        · obtain ⟨sid, h, hhash, howner, -⟩ := hy
          have hmem := hlisted sid (Option.bind_eq_some_iff.2 ⟨h, hhash, howner⟩)
          rw [hsids] at hmem
          cases hmem
        · change (k' (w.redis.zrange u)).All _ _
          rw [hsids]
          exact hnil
      · obtain ⟨k'', hcall, hquiet⟩ := hk _ hsids
        refine ⟨.pending x, .of_harmless (c := .session (.zrange u)) trivial ?_ ?_ ?_⟩
        · change Stage u w.redis call _ (k' (w.redis.zrange u))
          rw [hcall]
          exact .listed hw hlisted hquiet
        · change ∀ y codes, stores (k' (w.redis.zrange u)) ≠ _
          rw [hcall]
          exact fun _ _ h => by cases h
        · change ∀ codes, k' (w.redis.zrange u) ≠ _
          rw [hcall]
          exact fun _ h => by cases h

/-- A stamp of all the user's sessions leaves no other version on any. -/
theorem act_listed {sids : List ℕ} {k : Unit → Rbac RbacAnswer} (hw : call.Writes)
    (hall : ∀ sid, w.redis.user? sid = some u → sid ∈ sids)
    (hk : ∀ a, (k a).All (Harmless u) (Foreign u)) :
    Act u call w (RbacCommand.exec (.session (.stamp sids x)) w).2
      (.call (.session (.stamp sids x)) k) (.pending x) .idle (k ()) := by
  refine .stamp hw rfl rfl ?_ (fun sid h => Redis.user?_stamp.symm.trans h) (hk _)
  rintro y ⟨sid, h, hhash, howner, rfl⟩
  have huser : w.redis.user? sid = some u := by
    have hafter : (Command.exec (.stamp sids x) w.redis).2.user? sid = some u :=
      Option.bind_eq_some_iff.2 ⟨h, hhash, howner⟩
    rwa [Redis.user?_stamp] at hafter
  obtain ⟨h₀, -, rfl⟩ : ∃ h₀, w.redis.hashes sid = some h₀ ∧
      { h₀ with permissionsVersion := some x } = h := by
    simpa [RbacCommand.exec, Command.exec, hall sid huser] using hhash
  rfl

theorem Resolving.act {β : Type} {c : RbacCommand β} {k : β → Rbac RbacAnswer}
    (h : Resolving u y (.call c k)) :
    Act u call w (c.exec w).2 (.call c k) (.holding y) (.holding y) (k (c.exec w).1) := by
  generalize hp : Prog.call c k = p at h
  cases h with
  | foreign h =>
      subst hp
      exact .of_harmless h.1 (.resolving (.foreign (h.2 _)))
        (fun _ codes => not_store_of_all (h.2 _) codes) fun _ => not_answer_of_all (h.2 _)
  | other hc hk =>
      cases hp
      exact .of_harmless hc (.resolving (hk _)) (fun _ codes => (hk _).not_store codes)
        fun _ => (hk _).not_answer
  | @lookup k' hhit hmiss =>
      cases hp
      change Act u call w w _ _ _ (k' (w.cache (u, y)))
      cases hentry : w.cache (u, y) with
      | none =>
          rw [hmiss]
          exact .steady (.refl u w) (.resolving .load) (.inl rfl) (fun _ _ h => by cases h)
            fun _ h => by cases h
      | some codes =>
          rw [hhit]
          refine .steady (.refl u w) .answered (.inl rfl) (fun _ _ h => by cases h) fun codes' h => ?_
          cases h
          exact ⟨y, rfl, hentry⟩
  | load =>
      cases hp
      refine .steady (.refl u w) .storing (.inl rfl) (fun z codes h => ?_) fun _ h => by cases h
      cases h
      rfl

/-- One command of a call, in the stage it is in. -/
theorem Stage.act {β : Type} {c : RbacCommand β} {k : β → Rbac RbacAnswer}
    (h : Stage u w.redis call l (.call c k)) (hindexed : w.redis.Indexed)
    (huser : (w.db.users u).isSome) (hallowed : Unraced c w) :
    ∃ l', Act u call w (c.exec w).2 (.call c k) l l' (k (c.exec w).1) := by
  generalize hp : Prog.call c k = p at h
  cases h with
  | quiet h =>
      subst hp
      exact ⟨.idle, .of_quiet h.1 (h.2 _)⟩
  | opening hown hother =>
      cases hp
      exact act_opening hown hother
  | writing hw h =>
      subst hp
      exact h.act hw huser hallowed
  | pruning hw h =>
      subst hp
      exact h.act hw hindexed
  | listed hw hall hk =>
      cases hp
      exact ⟨.idle, act_listed hw hall hk⟩
  | @resolving y p h =>
      subst hp
      exact ⟨.holding y, h.act⟩
  | @storing y codes =>
      cases hp
      exact ⟨.holding y, .store rfl rfl⟩
  | answered => cases hp

end

end Freshness

end OfficeConnect
