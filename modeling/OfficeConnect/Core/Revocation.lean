import OfficeConnect.Core.SessionLaw
import OfficeConnect.Lib.Rows

/-!
# Revocation

`destroy_all_for_user` and `set_permissions_version` work through a list of a user's sessions that
they read before.  A rotation that copies an older record after the list was read makes a session
that is not on it.
-/

namespace OfficeConnect

open Lib Lib.Threads

/-- A call on all sessions of a user. -/
inductive BulkCall where
  | destroyAll (userId : ℕ) (exceptSid : Option ℕ)
  | setVersion (userId permissionsVersion : ℕ)
deriving DecidableEq, Repr

namespace BulkCall

def userId : BulkCall → ℕ
  | .destroyAll userId _ => userId
  | .setVersion userId _ => userId

def exceptSid : BulkCall → Option ℕ
  | .destroyAll _ exceptSid => exceptSid
  | .setVersion _ _ => none

def call : BulkCall → SessionCall
  | .destroyAll userId exceptSid => .destroyAllForUser userId exceptSid
  | .setVersion userId version => .setPermissionsVersion userId version

/-- What is left of the call once it has read the index. -/
def listed (b : BulkCall) (sids : List ℕ) : Sessions Answer :=
  match b with
  | .destroyAll userId exceptSid => do return .count (← destroyListed userId exceptSid sids)
  | .setVersion _ version => do return .count (← stampListed version sids)

/-- A session the user had in `r₀`, or one that rotations have made of such a session since. -/
inductive Reaches (b : BulkCall) (r₀ : Redis) (births : List Birth) : ℕ → Prop
  | existed {sid : ℕ} (huser : r₀.user? sid = some b.userId) (hkept : some sid ≠ b.exceptSid) :
      Reaches b r₀ births sid
  | rotated {sid old : ℕ} {birth : Birth} (hsince : r₀.births.length ≤ sid)
      (hborn : births[sid]? = some birth) (hparent : birth.parent = some old)
      (hold : Reaches b r₀ births old) (hkept : some sid ≠ b.exceptSid) : Reaches b r₀ births sid

/-- The session has no rights left but those the call grants. -/
def Settled (b : BulkCall) (settings : SessionSettings) (r : Redis) (sid : ℕ) : Prop :=
  match b with
  | .destroyAll _ _ =>
      ∀ now, ((getSessionRecord settings sid now).alone Command.exec r).1 = .ok none
  | .setVersion _ version =>
      ∀ now rec, ((getSessionRecord settings sid now).alone Command.exec r).1 = .ok (some rec) →
        rec.permissionsVersion = version

/-- Once the call has returned, every session it is about is settled. -/
def Complete (b : BulkCall) (settings : SessionSettings) (before after : List SessionMove) : Prop :=
  let s₀ := runSessions settings before
  let s := runSessions settings (before ++ .start b.call :: after)
  ∀ a, s.threads[s₀.threads.length]? = some (b.call, .ret a) →
    ∀ sid, b.Reaches s₀.store s.store.births sid → b.Settled settings s.store sid

end BulkCall

/-! ## The condition -/

/-- The write of a bulk call. -/
def Command.Walks : {β : Type} → Command β → Prop
  | _, .drop _ _ => True
  | _, .stamp _ _ => True
  | _, _ => False

namespace BulkCall

/-- Once the list is read, no session on it is rotated with its old rights, and no other version is
stamped; and a `touch` does not bring a destroyed session back. -/
def Spares (b : BulkCall) (r₀ : Redis) (read : Prop) {β : Type} (c : Command β) (r : Redis) :
    Prop :=
  match c, b with
  | .slide sid _, .destroyAll _ _ => b.Reaches r₀ r.births sid → (r.hashes sid).isSome
  | .rotate old _ _ _, .destroyAll _ _ => read → ¬ b.Reaches r₀ r.births old
  | .rotate old hash _ _, .setVersion _ version =>
      read → b.Reaches r₀ r.births old → hash.permissionsVersion = some version
  | .stamp sids version', .setVersion _ version =>
      read → ∀ sid ∈ sids, b.Reaches r₀ r.births sid → version' = version
  | _, _ => True

/-- The call of thread `i` has read the index. -/
def HasList (s : SessionSystem) (i : ℕ) : Prop := ∃ t ∈ s.threads[i]?, t.2.Next Command.Walks

def Allows (b : BulkCall) (r₀ : Redis) (i : ℕ) (s : SessionSystem) (m : SessionMove) : Prop :=
  match m with
  | .start _ => True
  | .act j => ∀ t ∈ s.threads[j]?, t.2.Next fun c => b.Spares r₀ (HasList s i) c s.store
  | .environment e => e.Ordered s.store

end BulkCall

namespace BulkCall

/-! ## The sessions a bulk call is about -/

section

variable {b : BulkCall} {r₀ r r' : Redis} {sid old : ℕ} {births : List Birth} {birth : Birth}

theorem Reaches.bornTo (h : b.Reaches r₀ r.births sid) (hr₀ : r₀.Indexed) (hlater : r₀.Later r)
    (hr : r.Indexed) : r.BornTo sid b.userId := by
  induction h with
  | existed huser _ => exact (hr₀.owned _ _ huser).1.later hlater
  | rotated _ hborn hparent _ _ ih =>
      have hsame := (hr.lineage _ (List.mem_of_getElem? hborn) _ hparent).unique ih
      exact ⟨_, hborn, hsame⟩

/-- A new id is reached exactly when the session it replaces was. -/
theorem Reaches.of_append (h : b.Reaches r₀ (births ++ [birth]) sid)
    (hstart : ∀ sid, r₀.user? sid = some b.userId → sid < births.length)
    (hold : ∀ x ∈ births, ∀ old, x.parent = some old → old < births.length)
    (hnew : ∀ old, birth.parent = some old → old < births.length) :
    (sid < births.length ∧ b.Reaches r₀ births sid) ∨
      (sid = births.length ∧ ∃ old, birth.parent = some old ∧ b.Reaches r₀ births old) := by
  induction h with
  | existed huser hkept => exact .inl ⟨hstart _ huser, .existed huser hkept⟩
  | @rotated sid p x hsince hborn hparent _ hkept ih =>
      rcases getElem?_concat_eq_some hborn with hx | ⟨rfl, rfl⟩
      · have hlt := hold x (List.mem_of_getElem? hx) p hparent
        rcases ih with ⟨-, hp⟩ | ⟨heq, -⟩
        · exact .inl ⟨(List.getElem?_eq_some_iff.1 hx).1, .rotated hsince hx hparent hp hkept⟩
        · omega
      · have hlt := hnew p hparent
        rcases ih with ⟨-, hp⟩ | ⟨heq, -⟩
        · exact .inr ⟨rfl, p, hparent, hp⟩
        · omega

/-- The session may still be used with rights that the call takes away. -/
def Open (b : BulkCall) (r : Redis) (sid : ℕ) : Prop :=
  match b with
  | .destroyAll _ _ => (r.hashes sid).isSome
  | .setVersion _ version =>
      ∃ h, r.hashes sid = some h ∧ h.userId.isSome ∧ h.permissionsVersion ≠ some version

theorem getSessionRecord_alone {settings : SessionSettings} {now : Time} {rec : SessionRecord}
    (h : ((getSessionRecord settings sid now).alone Command.exec r).1 = .ok (some rec)) :
    ∃ mapping, r.hashes sid = some mapping ∧ mapping.decode sid = .ok rec := by
  obtain ⟨k, heq, hnone, herror, hok⟩ := getSessionRecord_eq settings sid now
  rw [heq] at h
  change (Prog.alone Command.exec (k (r.hashes sid)) r).1 = _ at h
  cases hhash : r.hashes sid with
  | none =>
      rw [hhash, hnone] at h
      cases h
  | some mapping =>
      refine ⟨mapping, rfl, ?_⟩
      rw [hhash] at h
      cases hrec : mapping.decode sid with
      | error e =>
          rw [herror mapping e hrec] at h
          cases h
      | ok found =>
          rw [hok mapping found hrec] at h
          split_ifs at h
          · cases h
          · exact congrArg Except.ok (Option.some.inj (Except.ok.inj h))

theorem settled_of_not_open {settings : SessionSettings} (h : ¬ b.Open r sid) :
    b.Settled settings r sid := by
  cases b with
  | destroyAll u except =>
      intro now
      have hgone : r.hashes sid = none := Option.not_isSome_iff_eq_none.1 h
      obtain ⟨k, heq, hnone, -⟩ := getSessionRecord_eq settings sid now
      rw [heq]
      change (Prog.alone Command.exec (k (r.hashes sid)) r).1 = _
      rw [hgone, hnone]
      rfl
  | setVersion u version =>
      intro now rec hload
      obtain ⟨mapping, hhash, hrec⟩ := getSessionRecord_alone hload
      have howned : mapping.userId.isSome := by simp [SessionHash.decode_userId hrec]
      have hstamped : mapping.permissionsVersion = some version := by
        by_contra hother
        exact h ⟨mapping, hhash, howned, hother⟩
      rw [SessionHash.decode_permissionsVersion hrec, hstamped, Option.getD_some]

theorem Open.present (h : b.Open r sid) : (r.hashes sid).isSome := by
  cases b with
  | destroyAll u except => exact h
  | setVersion u version =>
      obtain ⟨mapping, hhash, -⟩ := h
      simp [hhash]

theorem Open.of_hashes (h : b.Open r' sid) (hsame : r'.hashes sid = r.hashes sid) :
    b.Open r sid ∧ r'.user? sid = r.user? sid := by
  refine ⟨?_, by rw [Redis.user?, Redis.user?, hsame]⟩
  cases b with
  | destroyAll u except =>
      unfold Open at h ⊢
      rwa [hsame] at h
  | setVersion u version =>
      unfold Open at h ⊢
      rwa [hsame] at h

theorem Reaches.of_bear (h : b.Reaches r₀ (r.births ++ [birth]) sid) (hr₀ : r₀.Indexed)
    (hlater : r₀.Later r) (hr : r.Indexed)
    (hnew : ∀ old, birth.parent = some old → r.BornTo old birth.userId) :
    (sid < r.births.length ∧ b.Reaches r₀ r.births sid) ∨
      (sid = r.births.length ∧ ∃ old, birth.parent = some old ∧ b.Reaches r₀ r.births old) :=
  h.of_append (fun _ huser => ((hr₀.owned _ _ huser).1.later hlater).lt)
    (fun x hx old hold => (hr.lineage x hx old hold).lt) fun old hold => (hnew old hold).lt

/-- A `touch` opens no session: the field it adds to a missing hash is no owner. -/
theorem Open.of_slide {v : ℕ} {now : Time} {read : Prop} (hs : b.Spares r₀ read (.slide v now) r)
    (hreach : b.Reaches r₀ r.births sid) (hopen : b.Open (Command.exec (.slide v now) r).2 sid) :
    b.Open r sid := by
  by_cases hv : sid = v
  · subst hv
    cases b with
    | destroyAll u except => exact hs hreach
    | setVersion u version =>
        obtain ⟨mapping, hhash, howned, hother⟩ := hopen
        obtain rfl : { (r.hashes sid).getD {} with lastSeenAt := some now } = mapping := by
          simpa [Command.exec, Redis.hset] using hhash
        cases hold : r.hashes sid with
        | none => simp [hold] at howned
        | some h => exact ⟨h, hold, by simpa [hold] using howned, by simpa [hold] using hother⟩
  · exact (hopen.of_hashes (Function.update_of_ne hv _ _)).1

theorem open_rotate (hr₀ : r₀.Indexed) (hlater : r₀.Later r) (hr : r.Indexed) {u : ℕ} {score : Time}
    {hash : SessionHash} {read : Prop} (hc : (Command.rotate old hash u score).Proper r)
    (hs : b.Spares r₀ read (.rotate old hash u score) r)
    (hreach : b.Reaches r₀ (Command.exec (.rotate old hash u score) r).2.births sid)
    (hopen : b.Open (Command.exec (.rotate old hash u score) r).2 sid) :
    (b.Reaches r₀ r.births sid ∧ b.Open r sid ∧
      (Command.exec (.rotate old hash u score) r).2.user? sid = r.user? sid) ∨
      (¬ read ∧ (Command.exec (.rotate old hash u score) r).2.user? sid = some b.userId) := by
  obtain ⟨hborn, hhash, hcomplete⟩ := hc
  have hnew : ∀ p, some old = some p → r.BornTo p u := fun p hp => Option.some.inj hp ▸ hborn
  have hkept : sid ≠ old := by
    rintro rfl
    simpa [Command.exec, Redis.delete] using hopen.present
  rcases Reaches.of_bear hreach hr₀ hlater hr hnew with ⟨hlt, hold⟩ | ⟨rfl, p, hp, hold⟩
  · refine .inl ⟨hold, hopen.of_hashes ?_⟩
    simp [Command.exec, Redis.delete, Redis.hset, Redis.zrem, Redis.zadd, Redis.bear, hkept,
      Function.update_of_ne hlt.ne]
  · obtain rfl := Option.some.inj hp
    have hput : (Command.exec (.rotate old hash u score) r).2.hashes r.births.length =
        some hash := by
      simp [Command.exec, Redis.delete, Redis.hset, Redis.zrem, Redis.zadd, Redis.bear, hkept]
    refine .inr ⟨fun hread => ?_, ?_⟩
    · cases b with
      | destroyAll v except => exact hs hread hold
      | setVersion v version =>
          obtain ⟨mapping, hmapping, -, hother⟩ := hopen
          obtain rfl := Option.some.inj (hput.symm.trans hmapping)
          exact hother (hs hread hold)
    · rw [Redis.user?, hput, Option.bind_some, hhash,
        hborn.unique (hold.bornTo hr₀ hlater hr)]

/-- A stamp of another version opens a session to a call that has not read the list. -/
theorem open_stamp (hr₀ : r₀.Indexed) (hlater : r₀.Later r) (hr : r.Indexed) {sids : List ℕ}
    {version' : ℕ} {read : Prop} (hs : b.Spares r₀ read (.stamp sids version') r)
    (hreach : b.Reaches r₀ r.births sid)
    (hopen : b.Open (Command.exec (.stamp sids version') r).2 sid) :
    (b.Reaches r₀ r.births sid ∧ b.Open r sid ∧
      (Command.exec (.stamp sids version') r).2.user? sid = r.user? sid) ∨
      (¬ read ∧ (Command.exec (.stamp sids version') r).2.user? sid = some b.userId) := by
  by_cases hsid : sid ∈ sids
  · cases b with
    | destroyAll u except =>
        refine .inl ⟨hreach, ?_, Redis.user?_stamp⟩
        simpa [Open, Command.exec, hsid] using hopen
    | setVersion u version =>
        obtain ⟨mapping, hmapping, howned, hother⟩ := hopen
        obtain ⟨h, hold, rfl⟩ : ∃ h, r.hashes sid = some h ∧
            { h with permissionsVersion := some version' } = mapping := by
          simpa [Command.exec, hsid] using hmapping
        refine .inr ⟨fun hread => hother (congrArg some (hs hread sid hsid hreach)), ?_⟩
        obtain ⟨owner, howner⟩ := Option.isSome_iff_exists.1 howned
        have huser : r.user? sid = some owner := by simpa [Redis.user?, hold] using howner
        have hborn : r.BornTo sid u := Reaches.bornTo (r := r) hreach hr₀ hlater hr
        rw [Redis.user?_stamp, huser, (hr.owned sid owner huser).1.unique hborn]
        rfl
  · refine .inl ⟨hreach, hopen.of_hashes ?_⟩
    simp [Command.exec, hsid]

/-- A session that is open after a command was open before, or a rotation made it before the list
was read. -/
theorem open_exec (hr₀ : r₀.Indexed) (hlater : r₀.Later r) (hr : r.Indexed) {β : Type}
    {c : Command β} (hc : c.Proper r) {read : Prop} (hs : b.Spares r₀ read c r) (sid : ℕ)
    (hreach : b.Reaches r₀ (c.exec r).2.births sid) (hopen : b.Open (c.exec r).2 sid) :
    (b.Reaches r₀ r.births sid ∧ b.Open r sid ∧ (c.exec r).2.user? sid = r.user? sid) ∨
      (¬ read ∧ (c.exec r).2.user? sid = some b.userId) := by
  cases c with
  | hgetall _ => exact .inl ⟨hreach, hopen, rfl⟩
  | hgetUserId _ => exact .inl ⟨hreach, hopen, rfl⟩
  | zrange _ => exact .inl ⟨hreach, hopen, rfl⟩
  | zrangeTo _ _ => exact .inl ⟨hreach, hopen, rfl⟩
  | zcard _ => exact .inl ⟨hreach, hopen, rfl⟩
  | present _ => exact .inl ⟨hreach, hopen, rfl⟩
  | zrem _ _ => exact .inl ⟨hreach, hopen.of_hashes rfl⟩
  | mint u hash score =>
      rcases Reaches.of_bear hreach hr₀ hlater hr (fun _ h => by cases h) with
        ⟨hlt, hold⟩ | ⟨-, _, hparent, -⟩
      · exact .inl ⟨hold, hopen.of_hashes (Function.update_of_ne hlt.ne _ _)⟩
      · cases hparent
  | slide v now => exact .inl ⟨hreach, Open.of_slide hs hreach hopen, Redis.user?_slide⟩
  | rotate old hash u score => exact open_rotate hr₀ hlater hr hc hs hreach hopen
  | drop userId sids =>
      have hdeleted : (Command.exec (.drop userId sids) r).2.hashes = (r.delete sids).hashes := by
        cases userId <;> rfl
      have hkept : sid ∉ sids := by
        intro hsid
        simpa [hdeleted, Redis.delete, hsid] using hopen.present
      have hbirths : (Command.exec (.drop userId sids) r).2.births = r.births := by
        cases userId <;> rfl
      refine .inl ⟨hbirths ▸ hreach, hopen.of_hashes ?_⟩
      simp [hdeleted, Redis.delete, hkept]
  | stamp sids version' => exact open_stamp hr₀ hlater hr hs hreach hopen

/-! ## The phases of the call -/

/-- The call has yet to read the index, and then works through all of it. -/
inductive Pending (b : BulkCall) : Sessions Answer → Prop
  | list {k : List ℕ → Sessions Answer} (hk : ∀ sids, k sids = b.listed sids) :
      Pending b (.call (.zrange b.userId) k)
  | prune {β : Type} {c : Command β} {k : β → Sessions Answer} (hc : ¬ c.Walks)
      (hk : ∀ x, Pending b (k x)) : Pending b (.call c k)

/-- What is known of the sessions in each phase of the call. -/
inductive Phase (b : BulkCall) (r₀ r : Redis) : Sessions Answer → Prop
  | pending {p : Sessions Answer} (hp : b.Pending p)
      (h : ∀ sid, b.Reaches r₀ r.births sid → b.Open r sid → r.user? sid = some b.userId) :
      Phase b r₀ r p
  | listed {sids : List ℕ} (h : ∀ sid, b.Reaches r₀ r.births sid → b.Open r sid → sid ∈ sids) :
      Phase b r₀ r (b.listed sids)
  | returned {a : Answer} (h : ∀ sid, b.Reaches r₀ r.births sid → ¬ b.Open r sid) :
      Phase b r₀ r (.ret a)

variable {p : Sessions Answer} {settings : SessionSettings}

theorem pending_call : b.Pending (sessionProg settings b.call) := by
  cases b with
  | destroyAll u except => exact .list fun _ => rfl
  | setVersion u version =>
      have hlist : Pending (.setVersion u version) ((Prog.call (.zrange u) fun sids =>
          stampListed version sids) >>= fun n => Prog.ret (Answer.count n)) := .list fun _ => rfl
      refine .prune (c := .zrange u) id fun sids => ?_
      change Pending _ (((if sids = [] then Prog.ret () else _) >>= _) >>= _)
      split_ifs
      · exact hlist
      · refine .prune (c := .present sids) id fun existing => ?_
        change Pending _ (((if _ then Prog.ret () else _) >>= _) >>= _)
        split_ifs
        · exact hlist
        · exact .prune (c := .zrem u _) id fun _ => hlist

theorem Pending.not_walks (h : b.Pending p) : ¬ p.Next Command.Walks := by
  cases h with
  | list => exact id
  | prune hc _ => exact hc

/-- With the list the call is done at once, or its one write closes every session on the list. -/
theorem listed_cases (b : BulkCall) (sids : List ℕ) :
    (∃ a, b.listed sids = .ret a ∧ ∀ sid ∈ sids, some sid = b.exceptSid) ∨
      ∃ (c : Command Unit) (a : Answer), b.listed sids = .call c (fun _ => .ret a) ∧ c.Walks ∧
        ∀ r, ∀ sid ∈ sids, some sid ≠ b.exceptSid → ¬ b.Open (c.exec r).2 sid := by
  cases b with
  | destroyAll u except =>
      by_cases hnil : sids.filter (some · ≠ except) = []
      · refine .inl ⟨.count 0, ?_, fun sid hsid => ?_⟩
        · change (destroyListed u except sids >>= fun n => Prog.ret (Answer.count n)) = _
          rw [destroyListed, if_pos hnil]
          rfl
        · change some sid = except
          simpa using List.filter_eq_nil_iff.1 hnil sid hsid
      · refine .inr ⟨.drop (some u) (sids.filter (some · ≠ except)),
          .count (sids.filter (some · ≠ except)).length, ?_, trivial,
          fun r sid hsid hkept hopen => ?_⟩
        · change (destroyListed u except sids >>= fun n => Prog.ret (Answer.count n)) = _
          rw [destroyListed, if_neg hnil]
          rfl
        · have hmem : sid ∈ sids.filter (some · ≠ except) :=
            List.mem_filter.2 ⟨hsid, decide_eq_true hkept⟩
          have hgone : (r.delete (sids.filter (some · ≠ except))).hashes sid = none := if_pos hmem
          exact absurd hopen (Option.not_isSome_iff_eq_none.2 hgone)
  | setVersion u version =>
      by_cases hnil : sids = []
      · refine .inl ⟨.count 0, ?_, by simp [hnil]⟩
        subst hnil
        rfl
      · refine .inr ⟨.stamp sids version, .count sids.length, ?_, trivial,
          fun r sid hsid _ hopen => ?_⟩
        · change (stampListed version sids >>= fun n => Prog.ret (Answer.count n)) = _
          rw [stampListed, if_neg hnil]
          rfl
        · obtain ⟨mapping, hmapping, -, hother⟩ := hopen
          obtain ⟨h, -, rfl⟩ : ∃ h, r.hashes sid = some h ∧
              { h with permissionsVersion := some version } = mapping := by
            simpa [Command.exec, hsid] using hmapping
          exact hother rfl

theorem listed_walks {sids : List ℕ} : (b.listed sids).Next Command.Walks := by
  rcases b.listed_cases sids with ⟨a, hret, -⟩ | ⟨c, a, hcall, hwalks, -⟩
  · rw [hret]
    trivial
  · rw [hcall]
    exact hwalks

/-- A phase lasts while others move. -/
theorem Phase.of_open (hp : b.Phase r₀ r p)
    (h : ∀ sid, b.Reaches r₀ r'.births sid → b.Open r' sid →
      (b.Reaches r₀ r.births sid ∧ b.Open r sid ∧ r'.user? sid = r.user? sid) ∨
        (¬ p.Next Command.Walks ∧ r'.user? sid = some b.userId)) : b.Phase r₀ r' p := by
  cases hp with
  | pending hpending hold =>
      refine .pending hpending fun sid hreach hopen => ?_
      rcases h sid hreach hopen with ⟨hreach, hopen, hsame⟩ | ⟨-, huser⟩
      · rw [hsame, hold sid hreach hopen]
      · exact huser
  | listed hold =>
      refine .listed fun sid hreach hopen => ?_
      rcases h sid hreach hopen with ⟨hreach, hopen, -⟩ | ⟨hnext, -⟩
      · exact hold sid hreach hopen
      · exact absurd listed_walks hnext
  | returned hold =>
      refine .returned fun sid hreach hopen => ?_
      rcases h sid hreach hopen with ⟨hreach, hopen, -⟩ | ⟨hnext, -⟩
      · exact hold sid hreach hopen
      · exact hnext trivial

theorem Reaches.kept (h : b.Reaches r₀ births sid) : some sid ≠ b.exceptSid := by
  cases h with
  | existed _ hkept => exact hkept
  | rotated _ _ _ _ hkept => exact hkept

/-- When the call has returned, no session it is about is open. -/
theorem Phase.closed {a : Answer} (hp : b.Phase r₀ r (.ret a)) (hreach : b.Reaches r₀ r.births sid) :
    ¬ b.Open r sid := by
  generalize hret : Prog.ret a = p at hp
  cases hp with
  | pending hpending _ =>
      subst hret
      exact absurd trivial hpending.not_walks
  | @listed sids hold =>
      intro hopen
      rcases b.listed_cases sids with ⟨_, -, hexcept⟩ | ⟨c, _, hcall, -⟩
      · exact hreach.kept (hexcept sid (hold sid hreach hopen))
      · rw [hcall] at hret
        cases hret
  | returned hold => exact hold sid hreach

/-! ## The run -/

/-- What a run keeps from the moment the call is made. -/
structure Tracks (b : BulkCall) (settings : SessionSettings) (r₀ : Redis) (i : ℕ)
    (s : SessionSystem) : Prop where
  holds : (sessionDiscipline settings False).Holds s
  later : r₀.Later s.store
  thread : ∃ p, s.threads[i]? = some (b.call, p) ∧ b.Phase r₀ s.store p

variable {s s' : SessionSystem} {m : SessionMove} {i : ℕ}

theorem Allows.indexLasts (h : b.Allows r₀ i s m) : IndexLasts s m := by
  cases m with
  | start call => trivial
  | act j => trivial
  | environment e => exact h

/-- The next step of the call itself. -/
theorem Phase.act {β : Type} {c : Command β} {k : β → Sessions Answer} (hr₀ : r₀.Indexed)
    (hlater : r₀.Later r) (hr : r.Indexed) (hp : b.Phase r₀ r (.call c k)) (hc : c.Proper r)
    (hs : b.Spares r₀ (Command.Walks c) c r) : b.Phase r₀ (c.exec r).2 (k (c.exec r).1) := by
  have hframe := open_exec hr₀ hlater hr hc hs
  generalize hcall : Prog.call c k = p at hp
  cases hp with
  | pending hpending hold =>
      subst hcall
      cases hpending with
      | list hk =>
          rw [hk]
          refine .listed fun sid hreach hopen => ?_
          exact Redis.mem_zrange.2 (hr.owned sid _ (hold sid hreach hopen)).2
      | prune hprune hk =>
          refine .pending (hk _) fun sid hreach hopen => ?_
          rcases hframe sid hreach hopen with ⟨hreach, hopen, hsame⟩ | ⟨-, huser⟩
          · rw [hsame, hold sid hreach hopen]
          · exact huser
  | @listed sids hold =>
      rcases b.listed_cases sids with ⟨_, hret, -⟩ | ⟨c', a, hcall', hwalks, hclosed⟩
      · rw [hret] at hcall
        cases hcall
      · rw [hcall'] at hcall
        cases hcall
        refine .returned fun sid hreach hopen => ?_
        rcases hframe sid hreach hopen with ⟨hreach', hopen', -⟩ | ⟨hread, -⟩
        · exact hclosed r sid (hold sid hreach' hopen') hreach.kept hopen
        · exact hread hwalks
  | returned hold => cases hcall

theorem hasList_eq {call : SessionCall} (hthread : s.threads[i]? = some (call, p)) :
    HasList s i = p.Next Command.Walks := by
  simp [HasList, hthread]

theorem Tracks.step (h : Tracks b settings r₀ i s) (hr₀ : r₀.Indexed) (hm : b.Allows r₀ i s m)
    (hstep : (sessionService settings).step m s = .ok s') : Tracks b settings r₀ i s' := by
  obtain ⟨hholds, hrel⟩ :=
    h.holds.step (fun call _ r _ => ok_sessionProg call r) (follows_of_indexLasts hm.indexLasts) hstep
  refine ⟨hholds, h.later.trans hrel, ?_⟩
  obtain ⟨p, hthread, hphase⟩ := h.thread
  have hindexed : s.store.Indexed := h.holds.store.1
  cases m with
  | start call =>
      obtain rfl := Except.ok.inj hstep
      refine ⟨p, ?_, hphase⟩
      rw [List.getElem?_append_left (List.getElem?_eq_some_iff.1 hthread).1, hthread]
  | act j =>
      obtain ⟨call, β, c, k, hj, rfl⟩ := Service.step_act_eq_ok.1 hstep
      have hproper : c.Proper s.store := h.holds.proper hj
      have hspares : b.Spares r₀ (HasList s i) c s.store := hm _ hj
      rw [hasList_eq hthread] at hspares
      by_cases hij : j = i
      · subst hij
        obtain ⟨rfl, rfl⟩ := Prod.mk.inj (Option.some.inj (hj.symm.trans hthread))
        refine ⟨k (c.exec s.store).1, ?_, hphase.act hr₀ h.later hindexed hproper hspares⟩
        exact List.getElem?_set_self (List.getElem?_eq_some_iff.1 hj).1
      · refine ⟨p, ?_, hphase.of_open (open_exec hr₀ h.later hindexed hproper hspares)⟩
        rw [List.getElem?_set_ne hij, hthread]
  | environment e =>
      obtain rfl := Except.ok.inj hstep
      refine ⟨p, hthread, ?_⟩
      cases e with
      | session sid =>
          have hspares : b.Spares r₀ (p.Next Command.Walks) (.drop none [sid]) s.store := trivial
          have hproper : Command.Proper (.drop none [sid]) s.store := trivial
          exact hphase.of_open (open_exec hr₀ h.later hindexed hproper hspares)
      | userIndex u =>
          exact hphase.of_open fun sid hreach hopen => .inl ⟨hreach, hopen.of_hashes rfl⟩

/-- When a bulk call has returned, it has settled every session the user had when it was made and
every session that rotations made of those: if no rotation writes an older record of one after the
call has read its list, no other version is stamped, no `touch` brings a destroyed one back, and the
user's index lasts as long as their sessions. -/
theorem bulkCall_complete (settings : SessionSettings) (b : BulkCall)
    (before after : List SessionMove) {s₀ : SessionSystem}
    (hs₀ : s₀ = runSessions settings before)
    (hbefore : Conforms (sessionService settings).step IndexLasts { store := {} } before)
    (hafter : Conforms (sessionService settings).step (b.Allows s₀.store s₀.threads.length) s₀
      (.start b.call :: after)) : b.Complete settings before after := by
  intro a hdone sid hsid
  rw [← hs₀] at hdone hsid
  set s := runSessions settings (before ++ .start b.call :: after) with hs
  have hbase : (sessionDiscipline settings False).Holds s₀ := by
    rw [hs₀]
    exact holds_empty.run (fun call _ r _ => ok_sessionProg call r)
      (hbefore.mono fun _ _ => follows_of_indexLasts)
  set s₁ : SessionSystem :=
    { s₀ with threads := s₀.threads ++ [(b.call, sessionProg settings b.call)] } with hs₁
  have hstart : Tracks b settings s₀.store s₀.threads.length s₁ := by
    have hmade : IndexLasts s₀ (.start b.call) := trivial
    have hstep : (sessionService settings).step (.start b.call) s₀ = .ok s₁ := rfl
    obtain ⟨hholds, -⟩ := hbase.step (fun call _ r _ => ok_sessionProg call r)
      (follows_of_indexLasts hmade) hstep
    refine ⟨hholds, .refl _, sessionProg settings b.call, by simp [hs₁], ?_⟩
    refine .pending pending_call fun sid hreach _ => ?_
    cases hreach with
    | existed huser _ => exact huser
    | rotated hsince hborn _ _ _ =>
        exact absurd (List.getElem?_eq_some_iff.1 hborn).1 (Nat.not_lt.2 hsince)
  have hend : Tracks b settings s₀.store s₀.threads.length s := by
    have hsplit : s = run (sessionService settings).step s₁ after := by
      rw [hs, runSessions, run_append, ← runSessions, ← hs₀]
      rfl
    rw [hsplit]
    exact run_invariant (fun _ _ _ hm h hstep => h.step hbase.store.1 hm hstep) after s₁ hstart
      hafter.2
  obtain ⟨p, hthread, hphase⟩ := hend.thread
  obtain ⟨-, rfl⟩ := Prod.mk.inj (Option.some.inj (hdone.symm.trans hthread))
  exact settled_of_not_open (hphase.closed hsid)

end

/-- A rotation that writes before the index is read is revoked with the rest. -/
theorem rotation_revoked :
    Complete (.destroyAll 7 none) {} [.start (.createSession aliceLogin), .act 0, .act 0, .act 0]
      [.start (.regenerateId 0 {} 60), .act 2, .act 2, .act 1, .act 1] := by
  refine bulkCall_complete {} _ _ _ rfl ⟨trivial, trivial, trivial, trivial, trivial⟩
    ⟨trivial, trivial, ?_, ?_, ?_, ?_, trivial⟩
  all_goals
    intro t ht
    obtain rfl := Option.some.inj ht
  · trivial
  · rintro ⟨t, ht, hread⟩
    obtain rfl := Option.some.inj ht
    exact hread.elim
  · trivial
  · trivial

/-- Alice's session is rotated after her password change has read the index and before it deletes
what it read; and likewise after a new version was stamped. -/
theorem rotation_escapes :
    ¬ Complete (.destroyAll 7 none) {} [.start (.createSession aliceLogin), .act 0, .act 0, .act 0]
        [.start (.regenerateId 0 {} 60), .act 2, .act 1, .act 1, .act 2] ∧
      ¬ Complete (.setVersion 7 2) {} [.start (.createSession aliceLogin), .act 0, .act 0, .act 0]
        [.start (.regenerateId 0 {} 60), .act 2, .act 1, .act 1, .act 1, .act 1, .act 2] := by
  constructor
  · intro h
    have hcopy := h (.count 1) rfl 1
      (.rotated (by decide) rfl rfl (.existed rfl (by decide)) (by decide))
    cases hcopy 60
  · intro h
    have hcopy := h (.count 1) rfl 1
      (.rotated (by decide) rfl rfl (.existed rfl (by decide)) (by decide))
    cases hcopy 60 _ rfl

end BulkCall

end OfficeConnect
