import OfficeConnect.Core.SessionLaw

/-!
# The session cap

A login prunes, counts and evicts before it inserts, in separate commands.  The cap holds as long as
no other login of the user is between its count and its insertion when one inserts.
-/

namespace OfficeConnect

open Lib Lib.Threads

namespace SessionCap

/-- No login is in progress. -/
def Settled (s : SessionSystem) : Prop :=
  ∀ t ∈ s.threads, ∀ a, t.1 = .createSession a → ¬ t.2.Issues fun _ => True

/-- While no login is in progress, the user has at most as many sessions as the cap. -/
def Respected (settings : SessionSettings) (u : ℕ) (s : SessionSystem) : Prop :=
  Settled s → ∀ sids : List ℕ, sids.Nodup → (∀ sid ∈ sids, s.store.user? sid = some u) →
    (sids.length : ℤ) ≤ settings.maxConcurrent

/-! ## The condition -/

end SessionCap

/-- The commands of a login after its count. -/
def Command.Enters : {β : Type} → Command β → Prop
  | _, .zrangeTo _ _ => True
  | _, .drop _ _ => True
  | _, .mint _ _ _ => True
  | _, _ => False

/-- The command adds to the index of the user. -/
def Command.AddsTo (u : ℕ) : {β : Type} → Command β → Prop
  | _, .mint v _ _ => v = u
  | _, .rotate _ _ v _ => v = u
  | _, _ => False

namespace SessionCap

/-- A login of the user that has counted the sessions and has yet to insert its own. -/
def Counted (u : ℕ) (t : SessionCall × Sessions Answer) : Prop :=
  (∃ a, t.1 = .createSession a ∧ a.userId = u) ∧ t.2.Issues Command.Enters

def Rotates : SessionCall → Prop
  | .regenerateId _ _ _ => True
  | _ => False

/-- Nothing is rotated, a login inserts while no other of the user has counted, and the user's index
expires after their sessions. -/
def Allows (u : ℕ) (s : SessionSystem) (m : SessionMove) : Prop :=
  match m with
  | .start call => ¬ Rotates call
  | .act i => ∀ t ∈ s.threads[i]?, t.2.Next fun c =>
      c.AddsTo u → ∀ j ≠ i, ∀ t' ∈ s.threads[j]?, ¬ Counted u t'
  | .environment e => e.Ordered s.store

/-! ## Room in the index -/

section

variable {settings : SessionSettings} {u : ℕ} {r r' : Redis} {a : NewSession}
  {p : Sessions Answer} {call : SessionCall}

/-- The insertion of a login, as its last command. -/
def insertion (a : NewSession) : Sessions Answer :=
  .call (.mint a.userId (a.record 0).encode a.now) fun sid => .ret (.created sid)

/-- Once it has counted, a login leaves room for its session whatever leaves the index. -/
inductive Room (settings : SessionSettings) (a : NewSession) (r : Redis) : Sessions Answer → Prop
  | select {n : ℕ} {k : List ℕ → Sessions Answer}
      (hk : ∀ sids, k sids = .call (.drop (some a.userId) sids) fun _ => insertion a)
      (h : ((r.members a.userId).length : ℤ) ≤ settings.maxConcurrent - 1 + n) :
      Room settings a r (.call (.zrangeTo a.userId n) k)
  | evict {sids : List ℕ}
      (h : (((r.members a.userId).filter (·.1 ∉ sids)).length : ℤ) ≤ settings.maxConcurrent - 1) :
      Room settings a r (.call (.drop (some a.userId) sids) fun _ => insertion a)
  | insert (h : ((r.members a.userId).length : ℤ) ≤ settings.maxConcurrent - 1) :
      Room settings a r (insertion a)

/-- Before it counts, a login may issue only commands that add nothing. -/
inductive Early (settings : SessionSettings) (u : ℕ) (call : SessionCall) : Sessions Answer → Prop
  | quiet {p : Sessions Answer} (h : p.All (fun c => ¬ c.AddsTo u) fun _ => True) : Early settings u call p
  | prune {β : Type} {c : Command β} {k : β → Sessions Answer} (hc : ¬ c.AddsTo u)
      (hk : ∀ x, Early settings u call (k x)) : Early settings u call (.call c k)
  | count {a : NewSession} {k : ℕ → Sessions Answer} (hcall : call = .createSession a)
      (hu : a.userId = u)
      (hk : ∀ n, k n = makeRoom settings u n >>= fun _ => insertion a) :
      Early settings u call (.call (.zcard u) k)

/-- How far a call is. -/
inductive Stage (settings : SessionSettings) (u : ℕ) (r : Redis) (call : SessionCall)
    (p : Sessions Answer) : Prop
  | early (h : Early settings u call p)
  | counted {a : NewSession} (hcall : call = .createSession a) (hu : a.userId = u)
      (h : Room settings a r p)

theorem Room.shrink (h : Room settings a r p)
    (hsub : (r'.members a.userId).Sublist (r.members a.userId)) : Room settings a r' p := by
  have hlength := hsub.length_le
  cases h with
  | select hk h => exact .select hk (by omega)
  | @evict sids h =>
      have hkept := (hsub.filter fun p => decide (p.1 ∉ sids)).length_le
      exact .evict (by omega)
  | insert h => exact .insert (by omega)

theorem Room.counted (h : Room settings a r p) : p.Issues Command.Enters := by
  cases h <;> trivial

theorem Stage.shrink (h : Stage settings u r call p)
    (hsub : (r'.members u).Sublist (r.members u)) : Stage settings u r' call p := by
  cases h with
  | early h => exact .early h
  | counted hcall hu h => exact .counted hcall hu (h.shrink (hu ▸ hsub))

/-- What the oldest members of an index leave when they are taken out. -/
theorem length_evict (r : Redis) (u n : ℕ) :
    ((r.members u).filter (·.1 ∉ (r.zrange u).take n)).length ≤ (r.members u).length - n := by
  set sorted := (r.members u).insertionSort
    fun a b => a.2 < b.2 ∨ a.2 = b.2 ∧ a.1 ≤ b.1 with hsorted
  have hperm : sorted.Perm (r.members u) := List.perm_insertionSort _ _
  have hids : (r.zrange u).take n = (sorted.take n).map (·.1) := by
    rw [Redis.zrange, ← hsorted, List.map_take]
  set p : ℕ × Time → Bool := fun x => decide (x.1 ∉ (r.zrange u).take n) with hp
  have hnone : (sorted.take n).filter p = [] := by
    refine List.filter_eq_nil_iff.2 fun x hx => ?_
    have hout : x.1 ∈ (r.zrange u).take n := hids ▸ List.mem_map_of_mem hx
    simp [hp, hout]
  calc ((r.members u).filter p).length
      = (sorted.filter p).length := ((hperm.filter p).length_eq).symm
    _ = ((sorted.take n).filter p ++ (sorted.drop n).filter p).length := by
        rw [← List.filter_append, List.take_append_drop]
    _ = ((sorted.drop n).filter p).length := by rw [hnone, List.nil_append]
    _ ≤ (sorted.drop n).length := List.length_filter_le _ _
    _ = (r.members u).length - n := by rw [List.length_drop, hperm.length_eq]

theorem members_setMembers_ne {v : ℕ} {m : List (ℕ × Time)} (hv : u ≠ v) :
    (r.setMembers v m).members u = r.members u := Function.update_of_ne hv _ _

theorem members_zrem {v : ℕ} {sids : List ℕ} :
    ((r.zrem v sids).members u).Sublist (r.members u) := by
  by_cases hv : u = v
  · subst hv
    simp [Redis.zrem, Redis.setMembers]
  · rw [Redis.zrem, members_setMembers_ne hv]

/-- Only an insertion adds to an index. -/
theorem members_exec {β : Type} {c : Command β} (hc : ¬ c.AddsTo u) :
    ((c.exec r).2.members u).Sublist (r.members u) := by
  cases c with
  | hgetall _ => exact .refl _
  | hgetUserId _ => exact .refl _
  | zrange _ => exact .refl _
  | zrangeTo _ _ => exact .refl _
  | zcard _ => exact .refl _
  | present _ => exact .refl _
  | zrem v sids => exact members_zrem
  | mint v hash score =>
      have hv : u ≠ v := fun heq => hc heq.symm
      change ((Redis.zadd _ v _ score).members u).Sublist _
      rw [Redis.zadd, members_setMembers_ne hv]
      exact .refl _
  | slide _ _ => exact .refl _
  | rotate old hash v score =>
      have hv : u ≠ v := fun heq => hc heq.symm
      change ((Redis.zrem (Redis.zadd _ v _ score) v [old]).members u).Sublist _
      rw [Redis.zrem, members_setMembers_ne hv, Redis.zadd, members_setMembers_ne hv]
      exact .refl _
  | drop v sids =>
      cases v with
      | none => exact .refl _
      | some v => exact members_zrem
  | stamp _ _ => exact .refl _

/-! ## The stages of a call -/

theorem quiet_destroy {sid : ℕ} {userId : Option ℕ} :
    (destroy sid userId).All (fun c => ¬ c.AddsTo u) fun _ => True := by
  cases userId with
  | none => exact ⟨id, fun _ => ⟨id, fun _ => trivial⟩⟩
  | some v => exact ⟨id, fun _ => trivial⟩

theorem quiet_getSessionRecord {sid : ℕ} {now : Time} :
    (getSessionRecord settings sid now).All (fun c => ¬ c.AddsTo u) fun _ => True := by
  obtain ⟨k, heq, hnone, herror, hok⟩ := getSessionRecord_eq settings sid now
  rw [heq]
  refine ⟨id, fun mapping => ?_⟩
  cases mapping with
  | none =>
      rw [hnone]
      trivial
  | some mapping =>
      cases hrec : mapping.decode sid with
      | error e =>
          rw [herror mapping e hrec]
          trivial
      | ok rec =>
          rw [hok mapping rec hrec]
          split_ifs
          · exact ⟨id, fun _ => trivial⟩
          · trivial

theorem quiet_touch {sid : ℕ} {now : Time} :
    (touch settings sid now).All (fun c => ¬ c.AddsTo u) fun _ => True := by
  refine quiet_getSessionRecord.bind fun rec _ => ?_
  cases rec with
  | none => trivial
  | some rec => exact ⟨id, fun _ => trivial⟩

theorem quiet_pruneUserIndex {v : ℕ} : (pruneUserIndex v).All (fun c => ¬ c.AddsTo u) fun _ => True := by
  refine ⟨id, fun sids => ?_⟩
  change Prog.All _ _ (if sids = [] then _ else _)
  split_ifs
  · trivial
  · refine ⟨id, fun existing => ?_⟩
    change Prog.All _ _ (if _ then _ else _)
    split_ifs
    · trivial
    · exact ⟨id, fun _ => trivial⟩

theorem quiet_destroyListed {v : ℕ} {except : Option ℕ} {sids : List ℕ} :
    (destroyListed v except sids).All (fun c => ¬ c.AddsTo u) fun _ => True := by
  unfold destroyListed
  dsimp only
  split_ifs
  · trivial
  · exact ⟨id, fun _ => trivial⟩

theorem quiet_stampListed {version : ℕ} {sids : List ℕ} :
    (stampListed version sids).All (fun c => ¬ c.AddsTo u) fun _ => True := by
  unfold stampListed
  split_ifs
  · trivial
  · exact ⟨id, fun _ => trivial⟩

theorem quiet_enforceCap {v : ℕ} : (enforceCap settings v).All (fun c => ¬ c.AddsTo u) fun _ => True := by
  unfold enforceCap
  split_ifs
  · trivial
  · refine quiet_pruneUserIndex.bind fun _ _ => ⟨id, fun count => ?_⟩
    change Prog.All _ _ (makeRoom settings v count)
    unfold makeRoom
    dsimp only
    split_ifs
    · trivial
    · trivial
    · trivial
    · exact ⟨id, fun _ => ⟨id, fun _ => trivial⟩⟩

/-- The rule of sequence for a part that adds nothing. -/
theorem Early.prune_bind {α : Type} {p : Sessions α} {f : α → Sessions Answer}
    (hp : p.All (fun c => ¬ c.AddsTo u) fun _ => True) (hf : ∀ a, Early settings u call (f a)) :
    Early settings u call (p >>= f) := by
  induction p with
  | ret a => exact hf a
  | raise e => exact .quiet trivial
  | call c k ih => exact .prune hp.1 fun x => ih x (hp.2 x)

/-- A call counts before it adds to the index. -/
theorem early_sessionProg (hcap : 1 ≤ settings.maxConcurrent) (hcall : ¬ Rotates call) :
    Early settings u call (sessionProg settings call) := by
  cases call with
  | createSession a =>
      by_cases hu : a.userId = u
      · have hprog : sessionProg settings (.createSession a) = pruneUserIndex u >>= fun _ =>
            Prog.call (.zcard u) fun n => makeRoom settings u n >>= fun _ => insertion a := by
          change (enforceCap settings a.userId >>= fun _ => insertSession a) >>= _ = _
          rw [enforceCap, if_neg (by omega), hu, bind_assoc, bind_assoc]
          refine congrArg _ (funext fun _ => congrArg (Prog.call _) (funext fun n => ?_))
          exact bind_assoc _ _ _
        rw [hprog]
        exact .prune_bind quiet_pruneUserIndex fun _ => .count rfl hu fun _ => rfl
      · have hinsert : (insertSession a).All (fun c => ¬ c.AddsTo u) fun _ => True :=
          ⟨hu, fun _ => trivial⟩
        exact .quiet ((quiet_enforceCap.bind fun _ _ => hinsert).bind fun _ _ => trivial)
  | getSessionRecord sid now => exact .quiet (quiet_getSessionRecord.bind fun _ _ => trivial)
  | touch sid now => exact .quiet (quiet_touch.bind fun _ _ => trivial)
  | regenerateId sid overrides now => exact absurd trivial hcall
  | destroy sid userId => exact .quiet (quiet_destroy.bind fun _ _ => trivial)
  | destroyAllForUser v except =>
      exact .quiet ⟨id, fun sids => quiet_destroyListed.bind fun _ _ => trivial⟩
  | setPermissionsVersion v version =>
      have hstamp : (setPermissionsVersion v version).All (fun c => ¬ c.AddsTo u) fun _ => True :=
        quiet_pruneUserIndex.bind fun _ _ => ⟨id, fun _ => quiet_stampListed⟩
      exact .quiet (hstamp.bind fun _ _ => trivial)

/-- What a login does with its count. -/
theorem Room.of_count (hcall : call = .createSession a) (hu : a.userId = u) :
    Stage settings u r call
      (makeRoom settings u (r.members u).length >>= fun _ => insertion a) := by
  subst hu
  unfold makeRoom
  dsimp only
  split_ifs with hpolicy hfull hroom
  · exact .early (.quiet trivial)
  · exact .counted hcall rfl (.insert (by omega))
  · exact .counted hcall rfl (.insert (by omega))
  · exact .counted hcall rfl (.select (fun _ => rfl) (by omega))

/-- The next step of a call: it adds nothing, or it inserts where it has left room. -/
theorem Stage.act {β : Type} {c : Command β} {k : β → Sessions Answer}
    (hcap : 1 ≤ settings.maxConcurrent) (h : Stage settings u r call (.call c k)) :
    (¬ c.AddsTo u ∧ Stage settings u (c.exec r).2 call (k (c.exec r).1)) ∨
      (c.AddsTo u ∧ (((c.exec r).2.members u).length : ℤ) ≤ settings.maxConcurrent ∧
        Early settings u call (k (c.exec r).1)) := by
  cases h with
  | early h =>
      generalize hp : Prog.call c k = p at h
      cases h with
      | quiet h =>
          subst hp
          exact .inl ⟨h.1, .early (.quiet (h.2 _))⟩
      | prune hc hk =>
          cases hp
          exact .inl ⟨hc, .early (hk _)⟩
      | count hcall hu hk =>
          cases hp
          refine .inl ⟨id, ?_⟩
          rw [hk]
          exact Room.of_count hcall hu
  | @counted a hcall hu h =>
      subst hu
      generalize hp : Prog.call c k = p at h
      cases h with
      | @select n k hk h =>
          cases hp
          refine .inl ⟨id, ?_⟩
          rw [hk]
          refine .counted hcall rfl (.evict ?_)
          have hleft := length_evict r a.userId n
          change (((r.members a.userId).filter
            (·.1 ∉ (r.zrange a.userId).take n)).length : ℤ) ≤ _
          omega
      | @evict sids h =>
          cases hp
          refine .inl ⟨id, .counted hcall rfl (.insert ?_)⟩
          have hkept : (Command.exec (.drop (some a.userId) sids) r).2.members a.userId =
              (r.members a.userId).filter (·.1 ∉ sids) := by
            simp [Command.exec, Redis.zrem, Redis.setMembers, Redis.delete]
          rw [hkept]
          exact h
      | insert h =>
          cases hp
          refine .inr ⟨rfl, ?_, .quiet trivial⟩
          have hadded : ((Command.exec (.mint a.userId (a.record 0).encode a.now) r).2.members
              a.userId).length ≤ (r.members a.userId).length + 1 := by
            simpa [Command.exec, Redis.zadd, Redis.setMembers, Redis.hset, Redis.bear] using
              List.length_filter_le _ _
          omega

/-! ## The run -/

/-- What a run keeps. -/
structure Capped (settings : SessionSettings) (u : ℕ) (s : SessionSystem) : Prop where
  holds : (sessionDiscipline settings False).Holds s
  room : ((s.store.members u).length : ℤ) ≤ settings.maxConcurrent
  stages : ∀ t ∈ s.threads, Stage settings u s.store t.1 t.2

variable {s s' : SessionSystem} {m : SessionMove}

theorem Allows.indexLasts (h : Allows u s m) : IndexLasts s m := by
  cases m with
  | start call => trivial
  | act j => trivial
  | environment e => exact h

theorem Capped.step (hcap : 1 ≤ settings.maxConcurrent) (h : Capped settings u s)
    (hm : Allows u s m) (hstep : (sessionService settings).step m s = .ok s') :
    Capped settings u s' := by
  obtain ⟨hholds, -⟩ := h.holds.step (fun call _ r _ => ok_sessionProg call r)
    (follows_of_indexLasts hm.indexLasts) hstep
  cases m with
  | start call =>
      obtain rfl := Except.ok.inj hstep
      refine ⟨hholds, h.room, fun t ht => ?_⟩
      rcases List.mem_append.1 ht with hold | hnew
      · exact h.stages t hold
      · obtain rfl := List.mem_singleton.1 hnew
        exact .early (early_sessionProg hcap hm)
  | act i =>
      obtain ⟨call, β, c, k, hthread, rfl⟩ := Service.step_act_eq_ok.1 hstep
      rcases (h.stages _ (List.mem_of_getElem? hthread)).act hcap with ⟨hc, hown⟩ | ⟨hc, hroom, hown⟩
      · have hsub : ((c.exec s.store).2.members u).Sublist (s.store.members u) := members_exec hc
        refine ⟨hholds, ?_, fun t ht => ?_⟩
        · have hlength := hsub.length_le
          have hroom := h.room
          change (((c.exec s.store).2.members u).length : ℤ) ≤ _
          omega
        · rcases List.mem_or_eq_of_mem_set ht with hold | rfl
          · exact (h.stages t hold).shrink hsub
          · exact hown
      · refine ⟨hholds, hroom, fun t ht => ?_⟩
        -- the others have not counted yet
        obtain ⟨j, hj⟩ := List.mem_iff_getElem?.1 ht
        by_cases hij : j = i
        · subst hij
          have hlt : j < s.threads.length := (List.getElem?_eq_some_iff.1 hthread).1
          obtain rfl := Option.some.inj ((List.getElem?_set_self hlt).symm.trans hj)
          exact .early hown
        · rw [List.getElem?_set_ne (Ne.symm hij)] at hj
          cases h.stages t (List.mem_of_getElem? hj) with
          | early hearly => exact .early hearly
          | counted hcall hu hcounted =>
              have hfree : ∀ j ≠ i, ∀ t' ∈ s.threads[j]?, ¬ Counted u t' := hm _ hthread hc
              exact absurd ⟨⟨_, hcall, hu⟩, hcounted.counted⟩ (hfree j hij t hj)
  | environment e =>
      obtain rfl := Except.ok.inj hstep
      have hsub : ((e.apply s.store).members u).Sublist (s.store.members u) := by
        cases e with
        | session sid => exact .refl _
        | userIndex v =>
            by_cases hv : u = v
            · subst hv
              simp [Expiry.apply, Redis.setMembers]
            · rw [Expiry.apply, members_setMembers_ne hv]
      refine ⟨hholds, ?_, fun t ht => (h.stages t ht).shrink hsub⟩
      have hlength := hsub.length_le
      have hroom := h.room
      change (((e.apply s.store).members u).length : ℤ) ≤ _
      omega

/-- However logins, touches, logouts and expiries interleave, the user stays within the cap, if no
login inserts while another of the user has counted and not inserted. -/
theorem sessions_capped (settings : SessionSettings) (u : ℕ) (hcap : 1 ≤ settings.maxConcurrent)
    (moves : List SessionMove)
    (h : Conforms (sessionService settings).step (Allows u) { store := {} } moves) :
    Respected settings u (runSessions settings moves) := by
  have hstart : Capped settings u { store := {} } :=
    ⟨holds_empty, by simpa using hcap.trans' (by decide), fun _ h => by cases h⟩
  have hend : Capped settings u (runSessions settings moves) :=
    run_invariant (fun _ _ _ hm h hstep => h.step hcap hm hstep) moves _ hstart h
  intro _ sids hnodup howned
  have hsub : sids ⊆ (runSessions settings moves).store.memberIds u := fun sid hsid =>
    (hend.holds.store.1.owned sid u (howned sid hsid)).2
  have hlength := (hnodup.subperm hsub).length_le
  rw [Redis.memberIds, List.length_map] at hlength
  have hroom := hend.room
  omega

end

/-- Two logins one after the other, with a cap of one. -/
theorem secondLogin_capped : Respected { maxConcurrent := 1 } 7
    (runSessions { maxConcurrent := 1 }
      [.start (.createSession aliceLogin), .act 0, .act 0, .act 0,
        .start (.createSession aliceLogin), .act 1, .act 1, .act 1, .act 1, .act 1, .act 1]) := by
  refine sessions_capped { maxConcurrent := 1 } 7 (by decide) _
    ⟨id, ?_, ?_, ?insertFirst, id, ?_, ?_, ?_, ?_, ?_, ?insertSecond, trivial⟩
  all_goals
    intro t ht
    obtain rfl := Option.some.inj ht
  case insertFirst =>
    intro _ j hj t ht
    cases j with
    | zero => exact absurd rfl hj
    | succ j => cases ht
  case insertSecond =>
    rintro - j hj t ht ⟨-, hissues⟩
    match j with
    | 0 =>
        obtain rfl := Option.some.inj ht
        exact hissues
    | 1 => exact hj rfl
    | j + 2 => cases ht
  all_goals exact fun hadds => hadds.elim

/-- Two logins that both count before either inserts. -/
def overlappingLogins : List SessionMove :=
  [.start (.createSession aliceLogin), .start (.createSession aliceLogin),
    .act 0, .act 0, .act 1, .act 1, .act 0, .act 1]

/-- They leave two sessions under a cap of one, with either policy. -/
theorem logins_overlap :
    ¬ Respected { maxConcurrent := 1 } 7
        (runSessions { maxConcurrent := 1 } overlappingLogins) ∧
      ¬ Respected { maxConcurrent := 1, capPolicy := "reject" } 7
        (runSessions { maxConcurrent := 1, capPolicy := "reject" } overlappingLogins) := by
  constructor
  all_goals
    intro h
    have htwo : ((2 : ℕ) : ℤ) ≤ 1 := by
      refine h (fun t ht a _ hissues => ?_) [0, 1] (by decide) fun sid hsid => ?_
      · have hdone : t ∈ [(SessionCall.createSession aliceLogin, Prog.ret (.created 0)),
            (SessionCall.createSession aliceLogin, Prog.ret (.created 1))] := ht
        rcases List.mem_pair.1 hdone with rfl | rfl
        · exact hissues
        · exact hissues
      · rcases List.mem_pair.1 hsid with rfl | rfl <;> rfl
    exact absurd htwo (by decide)

end SessionCap

end OfficeConnect
