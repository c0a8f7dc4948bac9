import OfficeConnect.Core.Sessions

/-!
# What interleaved session calls keep

A hash with an owner is in its owner's index and stays gone once it is gone.  Every hash can be
decoded as long as no `touch` writes to a hash that went away after it was read: that `HSET` brings
the key back with one field.
-/

namespace OfficeConnect

open Lib Lib.Threads

/-! ## The index -/

/-- The owner a session's hash names. -/
def Redis.user? (r : Redis) (sid : ℕ) : Option ℕ := (r.hashes sid).bind (·.userId)

def Redis.memberIds (r : Redis) (userId : ℕ) : List ℕ := (r.members userId).map (·.1)

/-- The id was drawn for this user. -/
def Redis.BornTo (r : Redis) (sid u : ℕ) : Prop := ∃ b, r.births[sid]? = some b ∧ b.userId = u

/-- Every owned hash is of an id drawn for its owner and in the owner's index, and a rotation stays
with the user. -/
structure Redis.Indexed (r : Redis) : Prop where
  owned : ∀ sid u, r.user? sid = some u → r.BornTo sid u ∧ sid ∈ r.memberIds u
  members : ∀ u, ∀ sid ∈ r.memberIds u, sid < r.births.length
  present : ∀ sid, (r.hashes sid).isSome → sid < r.births.length
  lineage : ∀ b ∈ r.births, ∀ old, b.parent = some old → r.BornTo old b.userId

/-- The ids drawn stay drawn, and a session that is gone does not get an owner again. -/
structure Redis.Later (r r' : Redis) : Prop where
  births : ∃ more, r'.births = r.births ++ more
  gone : ∀ sid < r.births.length, r.user? sid = none → r'.user? sid = none

/-- `_decode` finds the fields it needs. -/
def SessionHash.Complete (h : SessionHash) : Prop :=
  h.userId.isSome ∧ h.createdAt.isSome ∧ h.lastSeenAt.isSome

def Redis.Complete (r : Redis) : Prop := ∀ sid h, r.hashes sid = some h → h.Complete

section

variable {r r' r₁ : Redis} {sid u v : ℕ} {h : SessionHash} {score now : Time}

theorem Redis.Later.refl (r : Redis) : r.Later r := ⟨⟨[], by simp⟩, fun _ _ h => h⟩

theorem Redis.Later.length_le (h : r.Later r') : r.births.length ≤ r'.births.length := by
  obtain ⟨more, hmore⟩ := h.births
  simp [hmore]

theorem Redis.Later.trans (h : r.Later r₁) (h' : r₁.Later r') : r.Later r' := by
  obtain ⟨more, hmore⟩ := h.births
  obtain ⟨more', hmore'⟩ := h'.births
  refine ⟨⟨more ++ more', by rw [hmore', hmore, List.append_assoc]⟩, fun sid hsid hgone => ?_⟩
  exact h'.gone sid (hsid.trans_le h.length_le) (h.gone sid hsid hgone)

theorem Redis.BornTo.lt (h : r.BornTo sid u) : sid < r.births.length := by
  obtain ⟨b, hb, -⟩ := h
  exact (List.getElem?_eq_some_iff.1 hb).1

theorem Redis.BornTo.unique (h : r.BornTo sid u) (h' : r.BornTo sid v) : u = v := by
  obtain ⟨b, hb, rfl⟩ := h
  obtain ⟨b', hb', rfl⟩ := h'
  rw [Option.some.inj (hb.symm.trans hb')]

theorem Redis.BornTo.append (h : r.BornTo sid u) {more : List Birth}
    (hmore : r'.births = r.births ++ more) : r'.BornTo sid u := by
  obtain ⟨b, hb, hu⟩ := h
  refine ⟨b, ?_, hu⟩
  rw [hmore, List.getElem?_append_left (List.getElem?_eq_some_iff.1 hb).1, hb]

theorem Redis.BornTo.later (h : r.BornTo sid u) (hlater : r.Later r') : r'.BornTo sid u := by
  obtain ⟨more, hmore⟩ := hlater.births
  exact h.append hmore

theorem SessionHash.decode_of_complete (hc : h.Complete) (sid : ℕ) :
    ∃ rec, h.decode sid = .ok rec := by
  obtain ⟨hu, hcreated, hseen⟩ := hc
  obtain ⟨userId, hu⟩ := Option.isSome_iff_exists.1 hu
  obtain ⟨createdAt, hcreated⟩ := Option.isSome_iff_exists.1 hcreated
  obtain ⟨lastSeenAt, hseen⟩ := Option.isSome_iff_exists.1 hseen
  simp only [SessionHash.decode, hu, hcreated, hseen, found_some, ok_bind]
  exact ⟨_, rfl⟩

theorem SessionHash.decode_userId {rec : SessionRecord} (hrec : h.decode sid = .ok rec) :
    h.userId = some rec.userId := by
  simp only [SessionHash.decode, bind_eq_ok, found_eq_ok, pure_eq_ok] at hrec
  obtain ⟨userId, hu, _, -, _, -, rfl⟩ := hrec
  exact hu

theorem SessionHash.decode_permissionsVersion {rec : SessionRecord}
    (hrec : h.decode sid = .ok rec) : rec.permissionsVersion = h.permissionsVersion.getD 0 := by
  simp only [SessionHash.decode, bind_eq_ok, pure_eq_ok] at hrec
  obtain ⟨_, -, _, -, _, -, rfl⟩ := hrec
  rfl

theorem SessionRecord.encode_complete (rec : SessionRecord) : rec.encode.Complete :=
  ⟨rfl, rfl, rfl⟩

/-! ## The primitives -/

@[simp] theorem Redis.hashes_setMembers (r : Redis) (u : ℕ) (m : List (ℕ × Time)) :
    (r.setMembers u m).hashes = r.hashes := rfl

@[simp] theorem Redis.births_setMembers (r : Redis) (u : ℕ) (m : List (ℕ × Time)) :
    (r.setMembers u m).births = r.births := rfl

theorem Redis.memberIds_setMembers (r : Redis) (u v : ℕ) (m : List (ℕ × Time)) :
    (r.setMembers u m).memberIds v = if v = u then m.map (·.1) else r.memberIds v := by
  unfold Redis.memberIds Redis.setMembers
  split_ifs with hv
  · subst hv
    simp
  · simp [Function.update_of_ne hv]

theorem Redis.mem_memberIds_zrem {sids : List ℕ} :
    sid ∈ (r.zrem u sids).memberIds v ↔ sid ∈ r.memberIds v ∧ (v = u → sid ∉ sids) := by
  rw [Redis.zrem, Redis.memberIds_setMembers]
  split_ifs with hv
  · subst hv
    simp only [Redis.memberIds, List.mem_map, List.mem_filter, decide_eq_true_eq]
    constructor
    · rintro ⟨p, ⟨hp, hout⟩, rfl⟩
      exact ⟨⟨p, hp, rfl⟩, fun _ => hout⟩
    · rintro ⟨⟨p, hp, rfl⟩, hout⟩
      exact ⟨p, ⟨hp, hout trivial⟩, rfl⟩
  · simp [hv]

theorem Redis.mem_memberIds_zadd :
    sid ∈ (r.zadd u v score).memberIds u ↔ sid ∈ r.memberIds u ∨ sid = v := by
  rw [Redis.zadd, Redis.memberIds_setMembers, if_pos rfl]
  simp only [Redis.memberIds, List.map_append, List.mem_append, List.mem_map, List.mem_filter,
    List.mem_singleton, decide_eq_true_eq, List.map_cons, List.map_nil]
  constructor
  · rintro (⟨p, ⟨hp, -⟩, rfl⟩ | rfl)
    · exact .inl ⟨p, hp, rfl⟩
    · exact .inr rfl
  · rintro (⟨p, hp, rfl⟩ | rfl)
    · by_cases hv : p.1 = v
      · exact .inr hv
      · exact .inl ⟨p, ⟨hp, hv⟩, rfl⟩
    · exact .inr rfl

theorem Redis.memberIds_zadd_ne {w : ℕ} (hw : w ≠ u) :
    (r.zadd u v score).memberIds w = r.memberIds w := by
  rw [Redis.zadd, Redis.memberIds_setMembers, if_neg hw]

theorem Redis.user?_delete {sids : List ℕ} :
    (r.delete sids).user? sid = if sid ∈ sids then none else r.user? sid := by
  unfold Redis.user? Redis.delete
  split_ifs <;> simp_all

/-- A move that draws no id, gives no owner and keeps the owned in their indexes. -/
theorem Redis.Indexed.shrink (hr : r.Indexed) (hbirths : r'.births = r.births)
    (huser : ∀ sid, r'.user? sid = r.user? sid ∨ r'.user? sid = none)
    (hkeep : ∀ u sid, r'.user? sid = some u → sid ∈ r.memberIds u → sid ∈ r'.memberIds u)
    (hsub : ∀ u, ∀ sid ∈ r'.memberIds u, sid ∈ r.memberIds u)
    (hpresent : ∀ sid, (r'.hashes sid).isSome → sid < r.births.length) :
    r'.Indexed ∧ r.Later r' := by
  have hborn : ∀ {sid u}, r.BornTo sid u → r'.BornTo sid u := fun h =>
    h.append (hbirths.trans (List.append_nil _).symm)
  refine ⟨⟨fun sid u hu => ?_, fun u sid hsid => ?_, fun sid hsid => ?_, fun b hb old hold => ?_⟩,
    ⟨⟨[], by simp [hbirths]⟩, fun sid _ hgone => ?_⟩⟩
  · rcases huser sid with heq | hnone
    · obtain ⟨hdrawn, hmem⟩ := hr.owned sid u (heq ▸ hu)
      exact ⟨hborn hdrawn, hkeep u sid hu hmem⟩
    · rw [hnone] at hu
      cases hu
  · rw [hbirths]
    exact hr.members u sid (hsub u sid hsid)
  · rw [hbirths]
    exact hpresent sid hsid
  · exact hborn (hr.lineage b (hbirths ▸ hb) old hold)
  · rcases huser sid with heq | hnone
    · rw [heq, hgone]
    · exact hnone

/-- A new id with a hash of its owner, in the owner's index. -/
theorem Redis.Indexed.born (hr : r.Indexed) {b : Birth} (hh : h.userId = some b.userId)
    (hparent : ∀ old, b.parent = some old → r.BornTo old b.userId) :
    let r' := ((r.bear b).hset r.births.length fun _ => h).zadd b.userId r.births.length score
    r'.Indexed ∧ r.Later r' := by
  intro r'
  have hbirths : r'.births = r.births ++ [b] := rfl
  have hhashes : r'.hashes = Function.update r.hashes r.births.length (some h) := rfl
  have hmembers : ∀ u sid, sid ∈ r'.memberIds u ↔
      sid ∈ r.memberIds u ∨ (u = b.userId ∧ sid = r.births.length) := by
    intro u sid
    by_cases hu : u = b.userId
    · subst hu
      rw [Redis.mem_memberIds_zadd]
      simp [Redis.memberIds, Redis.hset, Redis.bear]
    · change sid ∈ (Redis.zadd _ _ _ _).memberIds u ↔ _
      rw [Redis.memberIds_zadd_ne hu]
      simp [Redis.memberIds, Redis.hset, Redis.bear, hu]
  have hself : r'.user? r.births.length = some b.userId := by
    simp [Redis.user?, hhashes, hh]
  have hother : ∀ sid, sid ≠ r.births.length → r'.user? sid = r.user? sid := by
    intro sid hsid
    simp [Redis.user?, hhashes, Function.update_of_ne hsid]
  refine ⟨⟨fun sid u hu => ?_, fun u sid hsid => ?_, fun sid hsid => ?_, fun b' hb' old hold => ?_⟩,
    ⟨⟨[b], hbirths⟩, fun sid hsid hgone => ?_⟩⟩
  · by_cases hsid : sid = r.births.length
    · subst hsid
      obtain rfl := Option.some.inj (hself.symm.trans hu)
      exact ⟨⟨b, by simp [hbirths], rfl⟩, (hmembers _ _).2 (.inr ⟨rfl, rfl⟩)⟩
    · rw [hother sid hsid] at hu
      obtain ⟨hdrawn, hmem⟩ := hr.owned sid u hu
      exact ⟨hdrawn.append hbirths, (hmembers u sid).2 (.inl hmem)⟩
  · rw [hbirths, List.length_append, List.length_singleton]
    rcases (hmembers u sid).1 hsid with hold | ⟨-, rfl⟩
    · exact (hr.members u sid hold).trans (Nat.lt_succ_self _)
    · exact Nat.lt_succ_self _
  · rw [hbirths, List.length_append, List.length_singleton]
    by_cases hnew : sid = r.births.length
    · omega
    · rw [hhashes, Function.update_of_ne hnew] at hsid
      exact (hr.present sid hsid).trans (Nat.lt_succ_self _)
  · rw [hbirths, List.mem_append, List.mem_singleton] at hb'
    rcases hb' with hb' | rfl
    · exact (hr.lineage b' hb' old hold).append hbirths
    · exact (hparent old hold).append hbirths
  · rw [hother sid hsid.ne, hgone]

/-! ## The commands -/

/-- What the calls see to before a command. -/
def Command.Proper : {β : Type} → Command β → Redis → Prop
  | _, .slide sid _, r => sid < r.births.length
  | _, .mint u hash _, _ => hash.userId = some u ∧ hash.Complete
  | _, .rotate old hash u _, r =>
      r.BornTo old u ∧ hash.userId = some u ∧ hash.Complete
  | _, .zrem _ sids, r => ∀ sid ∈ sids, r.user? sid = none
  | _, _, _ => True

/-- The missing guard: a `touch` writes only to a hash that is still there. -/
def Command.Guarded : {β : Type} → Command β → Redis → Prop
  | _, .slide sid _, r => (r.hashes sid).isSome
  | _, _, _ => True

/-- The index of a user outlives their sessions. -/
def Expiry.Ordered (e : Expiry) (r : Redis) : Prop :=
  match e with
  | .session _ => True
  | .userIndex u => ∀ sid, r.user? sid ≠ some u

theorem Redis.user?_slide : (Command.exec (.slide v now) r).2.user? sid = r.user? sid := by
  by_cases hsid : sid = v
  · subst hsid
    cases hh : r.hashes sid <;> simp [Redis.user?, Command.exec, Redis.hset, hh]
  · simp [Redis.user?, Command.exec, Redis.hset, Function.update_of_ne hsid]

theorem Redis.user?_stamp {sids : List ℕ} {version : ℕ} :
    (Command.exec (.stamp sids version) r).2.user? sid = r.user? sid := by
  by_cases hsid : sid ∈ sids
  · cases hh : r.hashes sid <;> simp [Redis.user?, Command.exec, hsid, hh]
  · simp [Redis.user?, Command.exec, hsid]

/-- Sessions that are deleted, and taken out of an index or not. -/
theorem Redis.Indexed.drop (hr : r.Indexed) (userId : Option ℕ) (sids : List ℕ) :
    (Command.exec (.drop userId sids) r).2.Indexed ∧
      r.Later (Command.exec (.drop userId sids) r).2 := by
  have hgone : ∀ sid, (r.delete sids).user? sid = r.user? sid ∨ (r.delete sids).user? sid = none := by
    intro sid
    rw [Redis.user?_delete]
    split_ifs
    · exact .inr rfl
    · exact .inl rfl
  have hpresent : ∀ sid, ((r.delete sids).hashes sid).isSome → sid < r.births.length := by
    intro sid hsid
    refine hr.present sid ?_
    simp only [Redis.delete] at hsid
    split_ifs at hsid
    · cases hsid
    · exact hsid
  cases userId with
  | none => exact hr.shrink rfl hgone (fun _ _ _ h => h) (fun _ _ h => h) hpresent
  | some u =>
      refine hr.shrink rfl hgone (fun v sid hv hmem => ?_) (fun v sid hmem => ?_) hpresent
      · refine Redis.mem_memberIds_zrem.2 ⟨hmem, fun _ hsid => ?_⟩
        have hnone : (r.delete sids).user? sid = none := by
          rw [Redis.user?_delete, if_pos hsid]
        exact absurd (hv.symm.trans hnone) (by simp)
      · exact (Redis.mem_memberIds_zrem.1 hmem).1

/-- Every proper command keeps the indexes. -/
theorem Redis.Indexed.exec (hr : r.Indexed) {β : Type} {c : Command β} (hc : c.Proper r) :
    (c.exec r).2.Indexed ∧ r.Later (c.exec r).2 := by
  cases c with
  | hgetall sid => exact ⟨hr, .refl r⟩
  | hgetUserId sid => exact ⟨hr, .refl r⟩
  | zrange u => exact ⟨hr, .refl r⟩
  | zrangeTo u n => exact ⟨hr, .refl r⟩
  | zcard u => exact ⟨hr, .refl r⟩
  | present sids => exact ⟨hr, .refl r⟩
  | zrem u sids =>
      refine hr.shrink rfl (fun _ => .inl rfl) (fun v sid hv hmem => ?_)
        (fun v sid hmem => (Redis.mem_memberIds_zrem.1 hmem).1) hr.present
      refine Redis.mem_memberIds_zrem.2 ⟨hmem, fun _ hsid => ?_⟩
      have hnone : r.user? sid = none := hc sid hsid
      exact absurd (hv.symm.trans hnone) (by simp)
  | mint u hash score => exact hr.born (b := { userId := u }) hc.1 fun old hold => by cases hold
  | slide sid now =>
      refine hr.shrink rfl (fun _ => .inl Redis.user?_slide) (fun _ _ _ h => h) (fun _ _ h => h)
        fun v hv => ?_
      by_cases hsid : v = sid
      · exact hsid ▸ hc
      · refine hr.present v ?_
        simpa [Command.exec, Redis.hset, Function.update_of_ne hsid] using hv
  | rotate old hash u score =>
      have hparent : ∀ p, some old = some p → r.BornTo p u := fun p hp => Option.some.inj hp ▸ hc.1
      obtain ⟨hborn, hlater⟩ := hr.born (b := { userId := u, parent := some old }) hc.2.1 hparent
      obtain ⟨hdrop, hlater'⟩ := hborn.drop (some u) [old]
      exact ⟨hdrop, hlater.trans hlater'⟩
  | drop userId sids => exact hr.drop userId sids
  | stamp sids version =>
      refine hr.shrink rfl (fun _ => .inl Redis.user?_stamp) (fun _ _ _ h => h) (fun _ _ h => h)
        fun v hv => hr.present v ?_
      simp only [Command.exec] at hv
      split_ifs at hv
      · simpa using hv
      · exact hv

/-- A guarded proper command keeps every hash decodable. -/
theorem Redis.Complete.exec (hr : r.Complete) {β : Type} {c : Command β} (hc : c.Proper r)
    (hg : c.Guarded r) : (c.exec r).2.Complete := by
  have hput : ∀ {x : Redis} {n : ℕ} {hash : SessionHash}, x.Complete → hash.Complete →
      (x.hset n fun _ => hash).Complete := by
    intro x n hash hx hhash sid h hsid
    by_cases hn : sid = n
    · subst hn
      obtain rfl : hash = h := by simpa [Redis.hset] using hsid
      exact hhash
    · exact hx sid h (by simpa [Redis.hset, Function.update_of_ne hn] using hsid)
  have hdelete : ∀ {x : Redis} (sids : List ℕ), x.Complete → (x.delete sids).Complete := by
    intro x sids hx sid h hsid
    simp only [Redis.delete] at hsid
    split_ifs at hsid
    exact hx sid h hsid
  cases c with
  | hgetall sid => exact hr
  | hgetUserId sid => exact hr
  | zrange u => exact hr
  | zrangeTo u n => exact hr
  | zcard u => exact hr
  | present sids => exact hr
  | zrem u sids => exact hr
  | mint u hash score => exact hput hr hc.2
  | slide sid now =>
      intro v h hv
      by_cases hsid : v = sid
      · subst hsid
        obtain ⟨old, hold⟩ := Option.isSome_iff_exists.1 hg
        have hcomplete := hr v old hold
        obtain rfl : { old with lastSeenAt := some now } = h := by
          simpa [Command.exec, Redis.hset, hold] using hv
        exact ⟨hcomplete.1, hcomplete.2.1, rfl⟩
      · exact hr v h (by simpa [Command.exec, Redis.hset, Function.update_of_ne hsid] using hv)
  | rotate old hash u score => exact hdelete [old] (hput (x := r.bear _) hr hc.2.2)
  | drop userId sids =>
      cases userId with
      | none => exact hdelete sids hr
      | some u => exact hdelete sids hr
  | stamp sids version =>
      intro v h hv
      simp only [Command.exec] at hv
      split_ifs at hv
      · obtain ⟨old, hold, rfl⟩ := Option.map_eq_some_iff.1 hv
        exact hr v old hold
      · exact hr v h hv

/-! ## The discipline -/

/-- The discipline of the session calls.  With `strict` the run guards its touches, every hash stays
decodable, and no call fails to decode one. -/
def sessionDiscipline (settings : SessionSettings) (strict : Prop) :
    Discipline (sessionService settings) where
  inv r := r.Indexed ∧ (strict → r.Complete)
  rel := Redis.Later
  proper := Command.Proper
  allowed c r := strict → c.Guarded r
  calm := Expiry.Ordered
  expected e := strict → e ≠ .keyError
  refl := .refl
  trans := .trans
  keeps c r hr hc hg := by
    obtain ⟨hindexed, hlater⟩ := hr.1.exec hc
    exact ⟨⟨hindexed, fun hs => (hr.2 hs).exec hc (hg hs)⟩, hlater⟩
  endures e r hr hcalm := by
    cases e with
    | session sid =>
        obtain ⟨hindexed, hlater⟩ := hr.1.drop none [sid]
        exact ⟨⟨hindexed, fun hs => (hr.2 hs).exec (c := .drop none [sid]) trivial trivial⟩, hlater⟩
    | userIndex u =>
        have hids : ∀ v, (r.setMembers u []).memberIds v = if v = u then [] else r.memberIds v :=
          fun v => Redis.memberIds_setMembers r u v []
        have hemptied : (r.setMembers u []).Indexed ∧ r.Later (r.setMembers u []) := by
          refine hr.1.shrink rfl (fun _ => .inl rfl) (fun v sid hv hmem => ?_)
            (fun v sid hmem => ?_) hr.1.present
          · have hne : v ≠ u := fun heq => hcalm sid (heq ▸ hv)
            rw [hids, if_neg hne]
            exact hmem
          · rw [hids] at hmem
            split_ifs at hmem
            · cases hmem
            · exact hmem
        exact ⟨⟨hemptied.1, hr.2⟩, hemptied.2⟩

/-! ## The calls follow it -/

variable {settings : SessionSettings} {strict : Prop} {userId : Option ℕ}

theorem ok_destroy (r : Redis) :
    (sessionDiscipline settings strict).Ok (fun _ _ => True) (destroy sid userId) r := by
  cases userId with
  | some u => exact fun _ _ _ => ⟨trivial, fun _ => trivial⟩
  | none => exact fun _ _ _ => ⟨trivial, fun _ _ _ _ => ⟨trivial, fun _ => trivial⟩⟩

/-- A load reads the hash, and destroys the session whose record has expired. -/
theorem getSessionRecord_eq (settings : SessionSettings) (sid : ℕ) (now : Time) :
    ∃ k, getSessionRecord settings sid now = .call (.hgetall sid) k ∧ k none = .ret none ∧
      (∀ mapping e, mapping.decode sid = .error e → k (some mapping) = .raise e) ∧
      ∀ mapping rec, mapping.decode sid = .ok rec → k (some mapping) =
        if expiryReason rec.createdAt rec.lastSeenAt rec.idleTier settings now ≠ none then
          .call (.drop (some rec.userId) [sid]) fun _ => .ret none
        else .ret (some rec) := by
  refine ⟨_, rfl, rfl, fun mapping e h => ?_, fun mapping rec h => ?_⟩
  · simp only [Prog.bind, h]
  · simp only [Prog.bind, h]
    rfl

/-- A record that was loaded is of a session drawn for its user. -/
theorem ok_getSessionRecord (r : Redis) :
    (sessionDiscipline settings strict).Ok
      (fun rec r => ∀ x ∈ rec, r.BornTo sid x.userId) (getSessionRecord settings sid now) r := by
  obtain ⟨k, heq, hnone, herror, hok⟩ := getSessionRecord_eq settings sid now
  rw [heq]
  intro r' hr hlater
  refine ⟨trivial, fun _ => ?_⟩
  change Discipline.Ok _ _ (k (r'.hashes sid)) r'
  cases hh : r'.hashes sid with
  | none =>
      rw [hnone]
      exact fun x hx => by cases hx
  | some h =>
      cases hrec : h.decode sid with
      | error e =>
          -- only a hash that cannot be decoded raises
          rw [herror h e hrec]
          intro hs _
          obtain ⟨rec, hok⟩ := SessionHash.decode_of_complete (hr.2 hs sid h hh) sid
          rw [hrec] at hok
          cases hok
      | ok rec =>
          have hborn : r'.BornTo sid rec.userId :=
            (hr.1.owned sid rec.userId (by simp [Redis.user?, hh, SessionHash.decode_userId hrec])).1
          rw [hok h rec hrec]
          split_ifs
          · exact fun _ _ _ => ⟨trivial, fun _ x hx => by cases hx⟩
          · intro x hx
            obtain rfl := Option.some.inj hx
            exact hborn

theorem ok_touch (r : Redis) :
    (sessionDiscipline settings strict).Ok (fun _ _ => True) (touch settings sid now) r := by
  refine (ok_getSessionRecord r).mono (fun rec r' hrec => ?_) |>.bind
  cases rec with
  | none => trivial
  | some rec =>
      intro r'' _ hlater
      exact ⟨((hrec rec rfl).later hlater).lt, fun _ => trivial⟩

theorem ok_regenerateId {overrides : Overrides} (r : Redis) :
    (sessionDiscipline settings strict).Ok (fun _ _ => True)
      (regenerateId settings sid overrides now) r := by
  refine (ok_getSessionRecord r).mono (fun rec r' hrec => ?_) |>.bind
  cases rec with
  | none => trivial
  | some rec =>
      intro r'' _ hlater
      exact ⟨⟨(hrec rec rfl).later hlater, rfl, SessionRecord.encode_complete _⟩, fun _ => trivial⟩

theorem Redis.mem_zrange : sid ∈ r.zrange u ↔ sid ∈ r.memberIds u := by
  simp only [Redis.zrange, Redis.memberIds, List.mem_map, List.mem_insertionSort]

/-- What `_prune_user_index` finds without a hash is a member of the index. -/
theorem gone_of_stale {sids : List ℕ}
    (h : sid ∈ ((sids.zip (sids.map fun sid => (r.hashes sid).isSome)).filter
      fun p => ¬ p.2).map (·.1)) :
    sid ∈ sids ∧ r.hashes sid = none := by
  obtain ⟨⟨sid', flag⟩, hp, rfl⟩ := List.mem_map.1 h
  obtain ⟨hzip, hflag⟩ := List.mem_filter.1 hp
  rw [← List.map_id' sids, List.map_map, List.zip_map', List.mem_map] at hzip
  obtain ⟨x, hx, heq⟩ := hzip
  obtain ⟨rfl, rfl⟩ := Prod.mk.inj heq
  refine ⟨hx, ?_⟩
  simpa using hflag

/-- The ids a prune finds without a hash keep without an owner, and so may leave the index. -/
theorem ok_pruneUserIndex (r : Redis) :
    (sessionDiscipline settings strict).Ok (fun _ _ => True) (pruneUserIndex u) r := by
  intro r₁ hr₁ _
  refine ⟨trivial, fun _ => ?_⟩
  change Discipline.Ok _ _ (if r₁.zrange u = [] then _ else _) r₁
  split_ifs with hnil
  · trivial
  · intro r₂ hr₂ hlater
    refine ⟨trivial, fun _ => ?_⟩
    set stale := (((r₁.zrange u).zip ((r₁.zrange u).map fun sid => (r₂.hashes sid).isSome)).filter
      fun p => ¬ p.2).map (·.1) with hstale
    change Discipline.Ok _ _ (if stale = [] then _ else _) r₂
    split_ifs
    · trivial
    · intro r₃ _ hlater'
      refine ⟨fun sid hsid => ?_, fun _ => trivial⟩
      obtain ⟨hmem, hgone⟩ := gone_of_stale (hstale ▸ hsid)
      have hborn : sid < r₁.births.length := hr₁.1.members u sid (Redis.mem_zrange.1 hmem)
      exact hlater'.gone sid (hborn.trans_le hlater.length_le) (by simp [Redis.user?, hgone])

theorem ok_destroyListed {except : Option ℕ} {sids : List ℕ} (r : Redis) :
    (sessionDiscipline settings strict).Ok (fun _ _ => True) (destroyListed u except sids) r := by
  unfold destroyListed
  dsimp only
  split_ifs
  · trivial
  · exact fun _ _ _ => ⟨trivial, fun _ => trivial⟩

theorem ok_stampListed {version : ℕ} {sids : List ℕ} (r : Redis) :
    (sessionDiscipline settings strict).Ok (fun _ _ => True) (stampListed version sids) r := by
  unfold stampListed
  split_ifs
  · trivial
  · exact fun _ _ _ => ⟨trivial, fun _ => trivial⟩

theorem ok_makeRoom {count : ℕ} (r : Redis) :
    (sessionDiscipline settings strict).Ok (fun _ _ => True) (makeRoom settings u count) r := by
  unfold makeRoom
  dsimp only
  split_ifs
  · exact fun _ heq => by cases heq
  · trivial
  · trivial
  · exact fun _ _ _ => ⟨trivial, fun _ _ _ _ => ⟨trivial, fun _ => trivial⟩⟩

theorem ok_enforceCap (r : Redis) :
    (sessionDiscipline settings strict).Ok (fun _ _ => True) (enforceCap settings u) r := by
  unfold enforceCap
  split_ifs
  · trivial
  · refine (ok_pruneUserIndex r).mono (fun _ r₁ _ => ?_) |>.bind
    exact fun r₂ _ _ => ⟨trivial, fun _ => ok_makeRoom _⟩

theorem ok_createSession {a : NewSession} (r : Redis) :
    (sessionDiscipline settings strict).Ok (fun _ _ => True) (createSession settings a) r := by
  refine (ok_enforceCap r).mono (fun _ r₁ _ => ?_) |>.bind
  exact fun _ _ _ => ⟨⟨rfl, SessionRecord.encode_complete _⟩, fun _ => trivial⟩

/-- Every call follows the discipline from every store. -/
theorem ok_sessionProg (call : SessionCall) (r : Redis) :
    (sessionDiscipline settings strict).Ok (fun _ _ => True) (sessionProg settings call) r := by
  cases call with
  | createSession a => exact ((ok_createSession r).mono fun _ _ _ => trivial).bind
  | getSessionRecord sid now => exact ((ok_getSessionRecord r).mono fun _ _ _ => trivial).bind
  | touch sid now => exact ((ok_touch r).mono fun _ _ _ => trivial).bind
  | regenerateId sid overrides now =>
      exact ((ok_regenerateId r).mono fun _ _ _ => trivial).bind
  | destroy sid userId => exact ((ok_destroy r).mono fun _ _ _ => trivial).bind
  | destroyAllForUser u except =>
      refine Discipline.Ok.bind fun r₁ _ _ => ⟨trivial, fun _ => ?_⟩
      exact (ok_destroyListed _).mono fun _ _ _ => trivial
  | setPermissionsVersion u version =>
      refine ((ok_pruneUserIndex r).mono fun _ r₁ _ r₂ _ _ => ⟨trivial, fun _ => ?_⟩).bind.bind
      exact (ok_stampListed _).mono fun _ _ _ => trivial

/-- The index of a user expires after their sessions. -/
def IndexLasts (s : SessionSystem) (m : SessionMove) : Prop :=
  match m with
  | .environment e => e.Ordered s.store
  | _ => True

/-- Such a run follows the discipline. -/
theorem follows_of_indexLasts {s : SessionSystem} {m : SessionMove} (h : IndexLasts s m) :
    (sessionDiscipline settings False).Follows (fun _ => True) s m := by
  cases m with
  | start call => trivial
  | act j =>
      intro t _
      cases hp : t.2 with
      | ret a => trivial
      | raise e => trivial
      | call c k => exact fun hfalse => hfalse.elim
  | environment e => exact h

/-! ## Sound sessions -/

/-- Every hash can be decoded and is in its user's index, and no call stopped at one it could not
decode. -/
structure Sound (s : SessionSystem) : Prop where
  stored : ∀ sid h, s.store.hashes sid = some h →
    ∃ rec, h.decode sid = .ok rec ∧ sid ∈ s.store.memberIds rec.userId
  raised : ∀ call, (call, .raise .keyError) ∉ s.threads

/-- A `touch` that writes finds the hash it read, and a user's index expires after their
sessions. -/
def TouchesPresent (s : SessionSystem) (m : SessionMove) : Prop :=
  match m with
  | .start _ => True
  | .act i => ∀ t ∈ s.threads[i]?, t.2.Next (·.Guarded s.store)
  | .environment e => e.Ordered s.store

theorem Sound.of_holds {s : SessionSystem} (h : (sessionDiscipline settings True).Holds s) :
    Sound s := by
  obtain ⟨⟨hindexed, hcomplete⟩, hthreads⟩ := h
  refine ⟨fun sid hash hsid => ?_, fun call hraised => ?_⟩
  · have hwhole := hcomplete trivial sid hash hsid
    obtain ⟨rec, hrec⟩ := SessionHash.decode_of_complete hwhole sid
    have huser : s.store.user? sid = some rec.userId := by
      simp [Redis.user?, hsid, SessionHash.decode_userId hrec]
    exact ⟨rec, hrec, (hindexed.owned sid _ huser).2⟩
  · exact hthreads _ hraised trivial rfl

theorem indexed_empty : Redis.Indexed {} :=
  ⟨fun _ _ h => (by cases h), fun _ _ h => (by cases h), fun _ h => (by cases h),
    fun _ h => (by cases h)⟩

theorem holds_empty : (sessionDiscipline settings strict).Holds { store := {} } :=
  ⟨⟨indexed_empty, fun _ _ _ h => (by cases h)⟩, fun _ h => (by cases h)⟩

/-- However the calls interleave and whatever expires, every session hash can be decoded and is in
its user's index, if each `touch` that writes still finds its hash. -/
theorem runSessions_sound (settings : SessionSettings) (moves : List SessionMove)
    (h : Conforms (sessionService settings).step TouchesPresent { store := {} } moves) :
    Sound (runSessions settings moves) := by
  have hfollows : Conforms (sessionService settings).step
      ((sessionDiscipline settings True).Follows fun _ => True) { store := {} } moves := by
    refine h.mono fun s m hm => ?_
    cases m with
    | start call => trivial
    | act i =>
        intro t ht
        have hnext := hm t ht
        cases hp : t.2 with
        | ret a => trivial
        | raise e => trivial
        | call c k =>
            rw [hp] at hnext
            exact fun _ => hnext
    | environment e => exact hm
  exact .of_holds (holds_empty.run (fun call _ r _ => ok_sessionProg call r) hfollows)

end

def aliceLogin : NewSession :=
  { userId := 7, email := "alice@x", permissionsVersion := 1, roles := [], now := 0 }

/-- Alice logs in, her session is touched a minute later and expires. -/
theorem loginTouch_sound : Sound (runSessions {} [.start (.createSession aliceLogin), .act 0, .act 0,
    .act 0, .start (.touch 0 60), .act 1, .act 1, .environment (.session 0)]) := by
  refine runSessions_sound {} _ ⟨trivial, ?_, ?_, ?_, trivial, ?_, ?_, trivial, trivial⟩
  all_goals
    intro t ht
    obtain rfl := Option.some.inj ht
    trivial

/-- A logout between the read and the write of a `touch`: the `HSET` brings the hash back with
`last_seen_at` alone. -/
theorem touch_revives : ¬ ∀ (settings : SessionSettings) (moves : List SessionMove),
    Sound (runSessions settings moves) := by
  intro h
  have hsound := h {} [.start (.createSession aliceLogin), .act 0, .act 0, .act 0,
    .start (.touch 0 60), .act 1, .start (.destroy 0 (some 7)), .act 2, .act 1]
  obtain ⟨rec, hrec, -⟩ := hsound.stored 0 { lastSeenAt := some 60 } rfl
  cases hrec

end OfficeConnect
