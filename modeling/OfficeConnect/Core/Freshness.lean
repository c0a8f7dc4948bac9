import OfficeConnect.Core.VersionStages
import OfficeConnect.Lib.Rows

/-!
# Permission freshness

Each writer stamps the version it committed on all sessions of the user, so what the sessions carry
in the end was committed last among the stamps and its cache entry was loaded after every commit.
That needs versions that no two writers share: `grant_role` adds one to a version it read before it
held the lock.
-/

namespace OfficeConnect

open Lib Lib.Threads

namespace Freshness

/-- No entry is newer than the user's version, and the entries the sessions lead to are current. -/
structure Current (u : ℕ) (w : RbacWorld) (version : ℕ) : Prop where
  indexed : w.redis.Indexed
  committed : w.db.users u = some version
  carried : ∀ y, w.redis.Carries u y → y ≤ version ∧
    ∀ codes, w.cache (u, y) = some codes → codes = w.db.permissionCodes u
  ahead : ∀ y, version < y → w.cache (u, y) = none

/-- The grants and revocations have returned. -/
def Returned (s : RbacSystem) : Prop := ∀ t ∈ s.threads, t.1.Writes → ¬ t.2.Issues fun _ => True

/-- Every request that starts once the grants and revocations have returned resolves the codes of
the committed grants. -/
def Fresh (settings : SessionSettings) (u : ℕ) (w : RbacWorld) (before after : List RbacMove) :
    Prop :=
  let s₁ := runRbac settings w before
  let s₂ := runRbac settings w (before ++ after)
  Returned s₁ →
    (∀ call, .start call ∈ after → ¬ call.Writes) →
    ∀ i t, s₁.threads.length ≤ i → s₂.threads[i]? = some t →
      ∀ codes, t.2 = .ret (.resolved (some (u, codes))) → codes = s₂.store.db.permissionCodes u

/-- The grants and revocations are for one user, none of them is raced, and the user's index expires
after their sessions. -/
def Allows (u : ℕ) (s : RbacSystem) (m : RbacMove) : Prop :=
  match m with
  | .start call => ∀ v ∈ call.target, v = u
  | .act i => ∀ t ∈ s.threads[i]?, t.2.Next (Unraced · s.store)
  | .environment (.session e) => e.Ordered s.store.redis
  | .environment (.entry _ _) => True

/-! ## The system -/

section

variable {u x y : ℕ} {w w' : RbacWorld} {settings : SessionSettings} {call : RbacCall}
  {l : Label} {p : Rbac RbacAnswer} {s s' : RbacSystem} {labels : ℕ → Label} {version i : ℕ}

/-- Nothing has been loaded or read under the version. -/
structure Untouched (u : ℕ) (labels : ℕ → Label) (w : RbacWorld) (y : ℕ) : Prop where
  cache : w.cache (u, y) = none
  carries : ¬ w.redis.Carries u y
  labels : ∀ i, labels i ≠ .holding y

/-- What is cached under the version, or about to be, are the codes of the committed grants. -/
structure UpToDate (u : ℕ) (s : RbacSystem) (y : ℕ) : Prop where
  cache : ∀ codes, s.store.cache (u, y) = some codes → codes = s.store.db.permissionCodes u
  storing : ∀ t ∈ s.threads, ∀ codes, stores t.2 = some (u, y, codes) →
    codes = s.store.db.permissionCodes u

/-- The writers that have committed hold different versions, nothing is loaded under a version
before it is stamped, and a version with older codes is not stamped any more and will be replaced on
every session that carries it. -/
structure Coherent (u : ℕ) (labels : ℕ → Label) (version : ℕ) (s : RbacSystem) : Prop where
  committed : s.store.db.users u = some version
  stages : ∀ i t, s.threads[i]? = some t → Stage u s.store.redis t.1 (labels i) t.2
  unused : ∀ i, s.threads.length ≤ i → labels i = .idle
  distinct : ∀ i j x, labels i = .pending x → labels j = .pending x → i = j
  ahead : ∀ y, version < y → Untouched u labels s.store y ∧ ∀ i, labels i ≠ .pending y
  untouched : ∀ i x, labels i = .pending x → Untouched u labels s.store x
  cover : ∀ y, UpToDate u s y ∨ (∀ i, labels i ≠ .pending y) ∧
    ((∃ i x, labels i = .pending x) ∨ ¬ s.store.redis.Carries u y)

theorem Untouched.steady (h : Untouched u labels w y) (hw : Steady u w w') :
    Untouched u labels w' y := by
  refine ⟨?_, fun hcarries => h.carries (hw.carries y hcarries), h.labels⟩
  cases hentry : w'.cache (u, y) with
  | none => rfl
  | some codes =>
      have hold := hw.cache y codes hentry
      rw [h.cache] at hold
      cases hold

theorem UpToDate.steady (h : UpToDate u s y) (hw : Steady u s.store w') :
    UpToDate u { s with store := w' } y := by
  refine ⟨fun codes hentry => ?_, fun t ht codes hstores => ?_⟩
  · change codes = w'.db.permissionCodes u
    rw [hw.db]
    exact h.cache codes (hw.cache y codes hentry)
  · change codes = w'.db.permissionCodes u
    rw [hw.db]
    exact h.storing t ht codes hstores

/-- A steady move of the store. -/
theorem Coherent.steady (h : Coherent u labels version s) (hw : Steady u s.store w') :
    Coherent u labels version { s with store := w' } := by
  refine ⟨hw.db ▸ h.committed, fun i t ht => (h.stages i t ht).later hw.user, h.unused, h.distinct,
    fun y hy => ⟨(h.ahead y hy).1.steady hw, (h.ahead y hy).2⟩,
    fun i x hi => (h.untouched i x hi).steady hw, fun y => ?_⟩
  rcases h.cover y with hfresh | ⟨hnot, hreplaced⟩
  · exact .inl (hfresh.steady hw)
  · refine .inr ⟨hnot, hreplaced.imp_right fun hno hcarries => hno (hw.carries y hcarries)⟩

theorem UpToDate.thread (h : UpToDate u s y) {p' : Rbac RbacAnswer}
    (hstore : ∀ codes, stores p' = some (u, y, codes) → codes = s.store.db.permissionCodes u) :
    UpToDate u { s with threads := s.threads.set i (call, p') } y := by
  refine ⟨h.cache, fun t ht codes hstores => ?_⟩
  rcases List.mem_or_eq_of_mem_set ht with hold | rfl
  · exact h.storing t hold codes hstores
  · exact hstore codes hstores

/-- The threads after one of them moved, with its new label. -/
theorem stages_set {r : Redis} {l' : Label} {p' : Rbac RbacAnswer}
    (h : ∀ j t, s.threads[j]? = some t → j ≠ i → Stage u r t.1 (labels j) t.2)
    (hi : s.threads[i]? = some (call, p)) (hstage : Stage u r call l' p') :
    ∀ j t, (s.threads.set i (call, p'))[j]? = some t →
      Stage u r t.1 (Function.update labels i l' j) t.2 := by
  intro j t hj
  by_cases hij : j = i
  · subst hij
    rw [List.getElem?_set_self (List.getElem?_eq_some_iff.1 hi).1] at hj
    obtain rfl := Option.some.inj hj
    rwa [Function.update_self]
  · rw [List.getElem?_set_ne (Ne.symm hij)] at hj
    rw [Function.update_of_ne hij]
    exact h j t hj hij

theorem unused_set {l' : Label} {p' : Rbac RbacAnswer}
    (h : ∀ j, s.threads.length ≤ j → labels j = .idle) (hi : s.threads[i]? = some (call, p)) :
    ∀ j, (s.threads.set i (call, p')).length ≤ j → Function.update labels i l' j = .idle := by
  intro j hj
  rw [List.length_set] at hj
  have hlt := (List.getElem?_eq_some_iff.1 hi).1
  rw [Function.update_of_ne (by omega)]
  exact h j hj

/-- A thread that moves on, or reads the version of a session. -/
theorem Coherent.thread (h : Coherent u labels version s) {l' : Label} {p' : Rbac RbacAnswer}
    (hi : s.threads[i]? = some (call, p)) (hstage : Stage u s.store.redis call l' p')
    (hlabel : l' = labels i ∨ labels i = .idle ∧ ∃ y, l' = .holding y ∧ s.store.redis.Carries u y)
    (hstore : ∀ y codes, stores p' = some (u, y, codes) → codes = s.store.db.permissionCodes u) :
    Coherent u (Function.update labels i l') version
      { s with threads := s.threads.set i (call, p') } := by
  have hpending : ∀ j x, Function.update labels i l' j = .pending x ↔ labels j = .pending x := by
    intro j x
    by_cases hij : j = i
    · subst hij
      rw [Function.update_self]
      rcases hlabel with rfl | ⟨hidle, y, rfl, -⟩
      · rfl
      · rw [hidle]
        exact ⟨nofun, nofun⟩
    · rw [Function.update_of_ne hij]
  have huntouched : ∀ y, Untouched u labels s.store y →
      Untouched u (Function.update labels i l') s.store y := by
    refine fun y hy => ⟨hy.cache, hy.carries, fun j hj => ?_⟩
    by_cases hij : j = i
    · subst hij
      rw [Function.update_self] at hj
      rcases hlabel with rfl | ⟨-, y', rfl, hcarries⟩
      · exact hy.labels j hj
      · obtain rfl := Label.holding.inj hj
        exact hy.carries hcarries
    · rw [Function.update_of_ne hij] at hj
      exact hy.labels j hj
  refine ⟨h.committed, stages_set (fun j t hj _ => h.stages j t hj) hi hstage,
    unused_set h.unused hi, fun j₁ j₂ x h₁ h₂ => ?_, fun y hy => ⟨huntouched y (h.ahead y hy).1,
      fun j hj => (h.ahead y hy).2 j ((hpending j y).1 hj)⟩,
    fun j x hj => huntouched x (h.untouched j x ((hpending j x).1 hj)), fun y => ?_⟩
  · exact h.distinct j₁ j₂ x ((hpending j₁ x).1 h₁) ((hpending j₂ x).1 h₂)
  · rcases h.cover y with hfresh | ⟨hnot, hreplaced⟩
    · exact .inl (hfresh.thread (hstore y))
    · refine .inr ⟨fun j hj => hnot j ((hpending j y).1 hj), hreplaced.imp_left ?_⟩
      rintro ⟨j, x, hj⟩
      exact ⟨j, x, (hpending j x).2 hj⟩

/-- The entry a request stores. -/
theorem UpToDate.stored {y' : ℕ} (h : UpToDate u s y') {codes : Finset String}
    {t : RbacCall × Rbac RbacAnswer} (ht : t ∈ s.threads)
    (hstores : stores t.2 = some (u, y, codes)) :
    UpToDate u { s with store := { s.store with
      cache := Function.update s.store.cache (u, y) (some codes) } } y' := by
  refine ⟨fun found hentry => ?_, h.storing⟩
  change Function.update s.store.cache (u, y) (some codes) (u, y') = some found at hentry
  by_cases hkey : (u, y') = (u, y)
  · obtain ⟨-, rfl⟩ := Prod.mk.inj hkey
    rw [Function.update_self] at hentry
    exact Option.some.inj hentry ▸ h.storing t ht codes hstores
  · rw [Function.update_of_ne hkey] at hentry
    exact h.cache found hentry

theorem Coherent.stored (h : Coherent u labels version s) {codes : Finset String}
    (hi : s.threads[i]? = some (call, p)) (hlabel : labels i = .holding y)
    (hstores : stores p = some (u, y, codes)) :
    Coherent u labels version { s with store := { s.store with
      cache := Function.update s.store.cache (u, y) (some codes) } } := by
  have huntouched : ∀ x, Untouched u labels s.store x → Untouched u labels { s.store with
      cache := Function.update s.store.cache (u, y) (some codes) } x := by
    refine fun x hx => ⟨?_, hx.carries, hx.labels⟩
    have hkey : (u, x) ≠ (u, y) := by
      rintro heq
      obtain ⟨-, rfl⟩ := Prod.mk.inj heq
      exact hx.labels i hlabel
    exact (Function.update_of_ne hkey _ _).trans hx.cache
  refine ⟨h.committed, h.stages, h.unused, h.distinct,
    fun x hx => ⟨huntouched x (h.ahead x hx).1, (h.ahead x hx).2⟩,
    fun j x hj => huntouched x (h.untouched j x hj), fun x => ?_⟩
  rcases h.cover x with hfresh | hreplaced
  · exact .inl (hfresh.stored (List.mem_of_getElem? hi) hstores)
  · exact .inr hreplaced

/-- What nobody has read or stored is up to date. -/
theorem upToDate_of_unread
    (hstages : ∀ i t, s.threads[i]? = some t → Stage u s.store.redis t.1 (labels i) t.2)
    (hcache : s.store.cache (u, y) = none) (hlabels : ∀ i, labels i ≠ .holding y) :
    UpToDate u s y := by
  refine ⟨fun codes hentry => ?_, fun t ht codes hstores => ?_⟩
  · rw [hcache] at hentry
    cases hentry
  · obtain ⟨j, hj⟩ := List.mem_iff_getElem?.1 ht
    exact absurd ((hstages j t hj).of_store hstores) (hlabels j)

/-- The commit of the next version. -/
theorem Coherent.commit (h : Coherent u labels version s) {p' : Rbac RbacAnswer}
    (hi : s.threads[i]? = some (call, p)) (hw : call.Writes) (hidle : labels i = .idle)
    (hredis : w'.redis = s.store.redis) (hcache : w'.cache = s.store.cache)
    (hnew : w'.db.users u = some (version + 1)) (hstage : Pruning u (version + 1) p') :
    Coherent u (Function.update labels i (.pending (version + 1))) (version + 1)
      { store := w', threads := s.threads.set i (call, p') } := by
  have hself : Function.update labels i (.pending (version + 1)) i = .pending (version + 1) :=
    Function.update_self _ _ _
  have hother : ∀ j, j ≠ i →
      Function.update labels i (.pending (version + 1)) j = labels j :=
    fun j hj => Function.update_of_ne hj _ _
  have hpending : ∀ j x, Function.update labels i (.pending (version + 1)) j = .pending x →
      labels j = .pending x ∨ (j = i ∧ x = version + 1) := by
    intro j x hj
    by_cases hij : j = i
    · subst hij
      rw [hself] at hj
      exact .inr ⟨rfl, (Label.pending.inj hj).symm⟩
    · exact .inl (hother j hij ▸ hj)
  have hkept : ∀ y, Untouched u labels s.store y →
      Untouched u (Function.update labels i (.pending (version + 1))) w' y := by
    refine fun y hy => ⟨hcache ▸ hy.cache, hredis ▸ hy.carries, fun j hj => ?_⟩
    by_cases hij : j = i
    · subst hij
      rw [hself] at hj
      cases hj
    · exact hy.labels j (hother j hij ▸ hj)
  have hnext : Untouched u labels s.store (version + 1) := (h.ahead _ (Nat.lt_succ_self _)).1
  have hstages : ∀ j t, (s.threads.set i (call, p'))[j]? = some t →
      Stage u w'.redis t.1 (Function.update labels i (.pending (version + 1)) j) t.2 := by
    rw [hredis]
    exact stages_set (fun j t hj _ => h.stages j t hj) hi (.pruning hw hstage)
  refine ⟨hnew, hstages, unused_set h.unused hi, fun j₁ j₂ x h₁ h₂ => ?_, fun y hy => ?_,
    fun j x hj => ?_, fun y => ?_⟩
  · have hfree : ∀ j, labels j ≠ .pending (version + 1) := (h.ahead _ (Nat.lt_succ_self _)).2
    rcases hpending j₁ x h₁ with hold₁ | ⟨hj₁, hx₁⟩ <;> rcases hpending j₂ x h₂ with hold₂ | ⟨hj₂, hx₂⟩
    · exact h.distinct j₁ j₂ x hold₁ hold₂
    · exact absurd (hx₂ ▸ hold₁) (hfree j₁)
    · exact absurd (hx₁ ▸ hold₂) (hfree j₂)
    · rw [hj₁, hj₂]
  · obtain ⟨hun, hnot⟩ := h.ahead y (by omega)
    refine ⟨hkept y hun, fun j hj => ?_⟩
    rcases hpending j y hj with hj | ⟨-, rfl⟩
    · exact hnot j hj
    · omega
  · rcases hpending j x hj with hj | ⟨-, rfl⟩
    · exact hkept x (h.untouched j x hj)
    · exact hkept _ hnext
  · -- what is untouched is up to date, and the new version will replace every other
    by_cases hun : Untouched u (Function.update labels i (.pending (version + 1))) w' y
    · exact .inl (upToDate_of_unread hstages hun.cache hun.labels)
    · refine .inr ⟨fun j hj => hun ?_, .inl ⟨i, version + 1, hself⟩⟩
      rcases hpending j y hj with hj | ⟨-, rfl⟩
      · exact hkept y (h.untouched j y hj)
      · exact hkept _ hnext

/-- The stamp of a committed version. -/
theorem Coherent.stamp (h : Coherent u labels version s) {p' : Rbac RbacAnswer}
    (hi : s.threads[i]? = some (call, p)) (hx : labels i = .pending x)
    (hdb : w'.db = s.store.db) (hcache : w'.cache = s.store.cache)
    (hcarries : ∀ y, w'.redis.Carries u y → y = x)
    (huser : ∀ sid, w'.redis.user? sid = some u → s.store.redis.user? sid = some u)
    (hp' : p'.All (Harmless u) (Foreign u)) :
    Coherent u (Function.update labels i .idle) version
      { store := w', threads := s.threads.set i (call, p') } := by
  have hpending : ∀ j y, Function.update labels i .idle j = .pending y →
      labels j = .pending y ∧ j ≠ i := by
    intro j y hj
    by_cases hij : j = i
    · subst hij
      rw [Function.update_self] at hj
      cases hj
    · rw [Function.update_of_ne hij] at hj
      exact ⟨hj, hij⟩
  have hkept : ∀ y, y ≠ x → Untouched u labels s.store y →
      Untouched u (Function.update labels i .idle) w' y := by
    refine fun y hne hy => ⟨hcache ▸ hy.cache, fun hc => hne (hcarries y hc), fun j hj => ?_⟩
    by_cases hij : j = i
    · subst hij
      rw [Function.update_self] at hj
      cases hj
    · rw [Function.update_of_ne hij] at hj
      exact hy.labels j hj
  have hstages : ∀ j t, (s.threads.set i (call, p'))[j]? = some t →
      Stage u w'.redis t.1 (Function.update labels i .idle j) t.2 :=
    stages_set (fun j t hj _ => (h.stages j t hj).later huser) hi (.quiet hp')
  refine ⟨hdb ▸ h.committed, hstages, unused_set h.unused hi, fun j₁ j₂ y h₁ h₂ => ?_,
    fun y hy => ?_, fun j y hj => ?_, fun y => ?_⟩
  · exact h.distinct j₁ j₂ y (hpending j₁ y h₁).1 (hpending j₂ y h₂).1
  · obtain ⟨hun, hnot⟩ := h.ahead y hy
    have hne : y ≠ x := fun heq => hnot i (heq ▸ hx)
    exact ⟨hkept y hne hun, fun j hj => hnot j (hpending j y hj).1⟩
  · obtain ⟨hj, hij⟩ := hpending j y hj
    have hne : y ≠ x := fun heq => hij (h.distinct j i x (heq ▸ hj) hx)
    exact hkept y hne (h.untouched j y hj)
  · -- the stamped version was untouched till now, and no session carries another
    by_cases hy : y = x
    · have hun : Untouched u labels s.store y := hy ▸ h.untouched i x hx
      refine .inl (upToDate_of_unread hstages (hcache ▸ hun.cache) fun j hj => ?_)
      by_cases hij : j = i
      · subst hij
        rw [Function.update_self] at hj
        cases hj
      · rw [Function.update_of_ne hij] at hj
        exact hun.labels j hj
    · by_cases hsome : ∃ j, Function.update labels i .idle j = .pending y
      · obtain ⟨j, hj⟩ := hsome
        have hun := hkept y hy (h.untouched j y (hpending j y hj).1)
        exact .inl (upToDate_of_unread hstages hun.cache hun.labels)
      · refine .inr ⟨fun j hj => hsome ⟨j, hj⟩, .inr fun hc => hy (hcarries y hc)⟩

/-- One command of a thread. -/
theorem Coherent.act {β : Type} {c : RbacCommand β} {k : β → Rbac RbacAnswer}
    (h : Coherent u labels version s) (hindexed : s.store.redis.Indexed)
    (hi : s.threads[i]? = some (call, .call c k)) (hallowed : Unraced c s.store) :
    ∃ labels' version', Coherent u labels' version' { store := (c.exec s.store).2
                                                      threads := s.threads.set i
                                                        (call, k (c.exec s.store).1) } := by
  have huser : (s.store.db.users u).isSome := by rw [h.committed]; rfl
  obtain ⟨l', hact⟩ := (h.stages i _ hi).act hindexed huser hallowed
  generalize hl : labels i = l at hact
  generalize k (c.exec s.store).1 = p' at hact ⊢
  cases hact with
  | steady hw hstage hlabel hstore _ =>
      subst hl
      exact ⟨_, _, (h.thread hi hstage hlabel hstore).steady hw⟩
  | store hp hw' =>
      rw [hw']
      have hstored := h.stored hi hl hp
      exact ⟨_, _, hstored.thread hi .answered (.inl hl.symm) fun _ _ => nofun⟩
  | commit hw hredis hcache hold hnew hstage =>
      obtain rfl := Option.some.inj (h.committed.symm.trans hold)
      exact ⟨_, _, h.commit hi hw hl hredis hcache hnew hstage⟩
  | stamp hw hdb hcache hcarries huser hp' =>
      exact ⟨_, _, h.stamp hi hl hdb hcache hcarries huser hp'⟩

theorem UpToDate.start (h : UpToDate u s y) (hstage : Stage u s.store.redis call .idle p) :
    UpToDate u { s with threads := s.threads ++ [(call, p)] } y := by
  refine ⟨h.cache, fun t ht codes hstores => ?_⟩
  rcases List.mem_append.1 ht with hold | hnew
  · exact h.storing t hold codes hstores
  · obtain rfl := List.mem_singleton.1 hnew
    cases hstage.of_store hstores

/-- A call that starts. -/
theorem Coherent.start (h : Coherent u labels version s)
    (hstage : Stage u s.store.redis call .idle p) :
    Coherent u labels version { s with threads := s.threads ++ [(call, p)] } := by
  refine ⟨h.committed, fun j t hj => ?_, fun j hj => h.unused j ?_, h.distinct, h.ahead,
    h.untouched, fun y => (h.cover y).imp_left fun hfresh => hfresh.start hstage⟩
  · rcases getElem?_concat_eq_some hj with hj | ⟨rfl, rfl⟩
    · exact h.stages j t hj
    · rw [h.unused _ le_rfl]
      exact hstage
  · rw [List.length_append] at hj
    omega

/-! ## The indexes -/

/-- The session commands keep the discipline of the sessions. -/
def Proper : {β : Type} → RbacCommand β → RbacWorld → Prop
  | _, .session c, w => c.Proper w.redis
  | _, _, _ => True

def Calm (e : RbacExpiry) (w : RbacWorld) : Prop :=
  match e with
  | .session e => e.Ordered w.redis
  | .entry _ _ => True

theorem redis_commit {α : Type} (w : RbacWorld) (result : Except Raised (α × RbacTables)) :
    (w.commit result).2.redis = w.redis := by
  cases result <;> rfl

def rbacDiscipline (settings : SessionSettings) : Discipline (rbacService settings) where
  inv w := w.redis.Indexed
  rel w w' := w.redis.Later w'.redis
  proper := Proper
  allowed _ _ := True
  calm := Calm
  expected _ := True
  refl w := .refl w.redis
  trans := .trans
  keeps c w hw hc _ := by
    cases c with
    | session c => exact hw.exec hc
    | saveGrant existing row version =>
        change ((w.commit _).2.redis).Indexed ∧ w.redis.Later (w.commit _).2.redis
        rw [redis_commit]
        exact ⟨hw, .refl _⟩
    | saveRevocation grantId userId =>
        change ((w.commit _).2.redis).Indexed ∧ w.redis.Later (w.commit _).2.redis
        rw [redis_commit]
        exact ⟨hw, .refl _⟩
    | _ => exact ⟨hw, .refl _⟩
  endures e w hw he := by
    cases e with
    | session e =>
        obtain ⟨⟨hindexed, -⟩, hlater⟩ := (sessionDiscipline settings False).endures e w.redis
          ⟨hw, False.elim⟩ he
        exact ⟨hindexed, hlater⟩
    | entry v z => exact ⟨hw, .refl _⟩

/-- A part that the session calls share keeps the discipline. -/
theorem ok_lift {α : Type} {post : α → Redis → Prop} {q : Sessions α}
    {f : α → Rbac RbacAnswer} (h : (sessionDiscipline settings False).Ok post q w.redis)
    (hf : ∀ a w', post a w'.redis → (rbacDiscipline settings).Ok (fun _ _ => True) (f a) w') :
    (rbacDiscipline settings).Ok (fun _ _ => True) (q.lift RbacCommand.session >>= f) w := by
  induction q generalizing w with
  | ret a => exact hf a w h
  | raise e => trivial
  | call c k ih =>
      intro w' hinv hlater
      obtain ⟨hproper, hnext⟩ := h w'.redis ⟨hinv, False.elim⟩ hlater
      exact ⟨hproper, fun _ => ih _ (hnext False.elim)⟩

theorem ok_announce {a : RbacAnswer} (w : RbacWorld) :
    (rbacDiscipline settings).Ok (fun _ _ => True) (announce u x a) w := by
  have hstamp : (sessionDiscipline settings False).Ok (fun _ _ => True)
      (setPermissionsVersion u x) w.redis :=
    ((ok_pruneUserIndex w.redis).mono fun _ r₁ _ r₂ _ _ => ⟨trivial, fun _ =>
      ok_stampListed _⟩).bind
  exact ok_lift hstamp fun _ w' _ => fun _ _ _ => ⟨trivial, fun _ => trivial⟩

/-- A command that the discipline asks nothing of. -/
theorem ok_call {β : Type} {c : RbacCommand β} {k : β → Rbac RbacAnswer} (hc : ∀ w, Proper c w)
    (hk : ∀ a w, (rbacDiscipline settings).Ok (fun _ _ => True) (k a) w) (w : RbacWorld) :
    (rbacDiscipline settings).Ok (fun _ _ => True) (.call c k) w :=
  fun w' _ _ => ⟨hc w', fun _ => hk _ _⟩

theorem ok_grantRole (row : UserRole) (w : RbacWorld) :
    (rbacDiscipline settings).Ok (fun _ _ => True) (grantRole row) w := by
  have hsave : ∀ (existing : Option (ℕ × UserRole)) (version : ℕ)
      (k : Except Raised ℕ → Rbac RbacAnswer), (∀ e, k (.error e) = .raise e) →
      (∀ grantId, k (.ok grantId) = announce row.userId (version + 1) (.granted grantId)) →
      ∀ w, (rbacDiscipline settings).Ok (fun _ _ => True)
        (.call (.saveGrant existing row version) k) w := by
    intro existing version k hfail hsaved
    refine ok_call (fun _ => trivial) fun result w => ?_
    cases result with
    | error e =>
        rw [hfail]
        trivial
    | ok grantId =>
        rw [hsaved]
        exact ok_announce w
  refine ok_call (c := .selectUser row.userId) (fun _ => trivial) (fun user w => ?_) w
  cases user with
  | none => trivial
  | some version =>
      refine ok_call (c := .selectRole row.roleId) (fun _ => trivial) (fun role w => ?_) w
      cases role with
      | none => trivial
      | some code =>
          refine ok_call (c := .selectGrants row) (fun _ => trivial) (fun existing w => ?_) w
          rcases existing with _ | ⟨g, _ | ⟨g', gs⟩⟩
          · exact hsave none version _ (fun _ => rfl) (fun _ => rfl) w
          · exact hsave (some g) version _ (fun _ => rfl) (fun _ => rfl) w
          · trivial

theorem ok_revokeRole (v grantId : ℕ) (w : RbacWorld) :
    (rbacDiscipline settings).Ok (fun _ _ => True) (revokeRole v grantId) w := by
  refine ok_call (c := .selectLiveGrant grantId v) (fun _ => trivial) (fun grant w => ?_) w
  cases grant with
  | none => trivial
  | some row =>
      refine ok_call (c := .saveRevocation grantId v) (fun _ => trivial) (fun result w => ?_) w
      cases result with
      | error e => trivial
      | ok version => exact ok_announce w

theorem ok_request (sid : ℕ) (now : Time) (w : RbacWorld) :
    (rbacDiscipline settings).Ok (fun _ _ => True) (effectivePermissionCodes settings sid now) w := by
  refine ok_lift (ok_touch w.redis) fun rec w₁ _ => ?_
  cases rec with
  | none => trivial
  | some rec =>
      refine ok_call (c := .cacheGet rec.userId rec.permissionsVersion) (fun _ => trivial)
        (fun cached w => ?_) w₁
      cases cached with
      | some codes => trivial
      | none =>
          refine ok_call (c := .loadEntry rec.userId) (fun _ => trivial) (fun codes w => ?_) w
          exact fun _ _ _ => ⟨trivial, fun _ => trivial⟩

theorem ok_rbacProg (call : RbacCall) (w : RbacWorld) :
    (rbacDiscipline settings).Ok (fun _ _ => True) (rbacProg settings call) w := by
  cases call with
  | grantRole row => exact ok_grantRole row w
  | revokeRole v grantId => exact ok_revokeRole v grantId w
  | request sid now => exact ok_request sid now w

/-! ## The run -/

theorem follows_of_allows {m : RbacMove} (h : Allows u s m) :
    (rbacDiscipline settings).Follows (fun _ => True) s m := by
  cases m with
  | start call => trivial
  | act j =>
      intro t _
      cases t.2 <;> trivial
  | environment e => cases e <;> exact h

/-- What a run keeps. -/
def Kept (settings : SessionSettings) (u : ℕ) (s : RbacSystem) : Prop :=
  (rbacDiscipline settings).Holds s ∧ ∃ labels version, Coherent u labels version s

theorem Kept.step {m : RbacMove} (h : Kept settings u s) (hm : Allows u s m)
    (hstep : (rbacService settings).step m s = .ok s') : Kept settings u s' := by
  obtain ⟨hholds, labels, version, hcoherent⟩ := h
  obtain ⟨hholds', -⟩ := hholds.step (fun call _ w _ => ok_rbacProg call w)
    (follows_of_allows hm) hstep
  refine ⟨hholds', ?_⟩
  cases m with
  | start call =>
      obtain rfl := Except.ok.inj hstep
      exact ⟨labels, version, hcoherent.start (stage_rbacProg hm)⟩
  | act j =>
      obtain ⟨call, β, c, k, hj, rfl⟩ := Service.step_act_eq_ok.1 hstep
      exact hcoherent.act hholds.store hj (hm _ hj)
  | environment e =>
      obtain rfl := Except.ok.inj hstep
      exact ⟨labels, version, hcoherent.steady (steady_expiry e)⟩

/-- Once they have, whatever a request from the `n`-th call on reads or answers is up to date. -/
structure Answering (u n : ℕ) (labels : ℕ → Label) (version : ℕ) (s : RbacSystem) : Prop where
  coherent : Coherent u labels version s
  returned : Returned s
  fresh : ∀ i y, n ≤ i → labels i = .holding y → UpToDate u s y
  answers : ∀ i t codes, n ≤ i → s.threads[i]? = some t →
    t.2 = .ret (.resolved (some (u, codes))) → codes = s.store.db.permissionCodes u

/-- With no writer at work, what a session carries is up to date. -/
theorem Coherent.upToDate (h : Coherent u labels version s) (hreturned : Returned s)
    (hcarries : s.store.redis.Carries u y) : UpToDate u s y := by
  have hnone : ∀ i x, labels i ≠ .pending x := by
    intro i x hi
    have hlt : i < s.threads.length := by
      by_contra hge
      rw [h.unused i (by omega)] at hi
      cases hi
    have hstage := h.stages i _ (List.getElem?_eq_getElem hlt)
    have hdone := hreturned _ (List.getElem_mem hlt)
    rw [hi] at hstage
    generalize s.threads[i].2 = p at hstage hdone
    cases hstage with
    | pruning hw hp => cases hp <;> exact hdone hw trivial
    | listed hw _ _ => exact hdone hw trivial
  rcases h.cover y with hfresh | ⟨-, ⟨i, x, hi⟩ | hno⟩
  · exact hfresh
  · exact absurd hi (hnone i x)
  · exact absurd hcarries hno

theorem Answering.steady {n : ℕ} (h : Answering u n labels version s)
    (hw : Steady u s.store w') : Answering u n labels version { s with store := w' } := by
  refine ⟨h.coherent.steady hw, h.returned, fun i y hi hy => (h.fresh i y hi hy).steady hw,
    fun i t codes hi ht hanswer => ?_⟩
  change codes = w'.db.permissionCodes u
  rw [hw.db]
  exact h.answers i t codes hi ht hanswer

/-- A request that moves on, or reads the version of a session. -/
theorem Answering.thread {n : ℕ} (h : Answering u n labels version s) {l' : Label}
    {p' : Rbac RbacAnswer} (hi : s.threads[i]? = some (call, p)) (hw : ¬ call.Writes)
    (hstage : Stage u s.store.redis call l' p')
    (hlabel : l' = labels i ∨ labels i = .idle ∧ ∃ y, l' = .holding y ∧ s.store.redis.Carries u y)
    (hstore : ∀ y codes, stores p' = some (u, y, codes) → codes = s.store.db.permissionCodes u)
    (hanswer : ∀ codes, n ≤ i → p' = .ret (.resolved (some (u, codes))) →
      codes = s.store.db.permissionCodes u) :
    Answering u n (Function.update labels i l') version
      { s with threads := s.threads.set i (call, p') } := by
  refine ⟨h.coherent.thread hi hstage hlabel hstore, fun t ht hwrites => ?_, fun j y hj hy => ?_,
    fun j t codes hj ht hans => ?_⟩
  · rcases List.mem_or_eq_of_mem_set ht with hold | rfl
    · exact h.returned t hold hwrites
    · exact absurd hwrites hw
  · refine UpToDate.thread ?_ (hstore y)
    by_cases hij : j = i
    · subst hij
      rw [Function.update_self] at hy
      rcases hlabel with rfl | ⟨-, y', rfl, hcarries⟩
      · exact h.fresh j y hj hy
      · obtain rfl := Label.holding.inj hy
        exact h.coherent.upToDate h.returned hcarries
    · rw [Function.update_of_ne hij] at hy
      exact h.fresh j y hj hy
  · change (s.threads.set i (call, p'))[j]? = some t at ht
    by_cases hij : j = i
    · subst hij
      rw [List.getElem?_set_self (List.getElem?_eq_some_iff.1 hi).1] at ht
      obtain rfl := Option.some.inj ht
      exact hanswer codes hj hans
    · rw [List.getElem?_set_ne (Ne.symm hij)] at ht
      exact h.answers j t codes hj ht hans

/-- One command of a request. -/
theorem Answering.act {n : ℕ} (h : Answering u n labels version s) {β : Type}
    {c : RbacCommand β} {k : β → Rbac RbacAnswer} (hindexed : s.store.redis.Indexed)
    (hi : s.threads[i]? = some (call, .call c k)) (hallowed : Unraced c s.store) :
    ∃ labels', Answering u n labels' version
      ⟨(c.exec s.store).2, s.threads.set i (call, k (c.exec s.store).1)⟩ := by
  have hw : ¬ call.Writes := fun hw => h.returned _ (List.mem_of_getElem? hi) hw trivial
  have huser : (s.store.db.users u).isSome := by
    rw [h.coherent.committed]
    rfl
  obtain ⟨l', hact⟩ := (h.coherent.stages i _ hi).act hindexed huser hallowed
  generalize hl : labels i = l at hact
  generalize k (c.exec s.store).1 = p' at hact ⊢
  cases hact with
  | steady hsteady hstage hlabel hstore hanswer =>
      subst hl
      refine ⟨_, (h.thread hi hw hstage hlabel hstore fun codes hn hp' => ?_).steady hsteady⟩
      obtain ⟨y, hy, hentry⟩ := hanswer codes hp'
      exact (h.fresh i y hn hy).cache codes hentry
  | @store y codes hp hw' =>
      rw [hw']
      have hstored : Answering u n labels version { s with store := { s.store with
          cache := Function.update s.store.cache (u, y) (some codes) } } := by
        refine ⟨h.coherent.stored hi hl hp, h.returned, fun j z hj hz => ?_, h.answers⟩
        exact (h.fresh j z hj hz).stored (List.mem_of_getElem? hi) hp
      refine ⟨_, hstored.thread hi hw .answered (.inl hl.symm) (fun _ _ => nofun)
        fun codes' hn hp' => ?_⟩
      cases hp'
      exact (h.fresh i y hn hl).storing _ (List.mem_of_getElem? hi) codes hp
  | commit hwrites _ _ _ _ _ => exact absurd hwrites hw
  | stamp hwrites _ _ _ _ _ => exact absurd hwrites hw

theorem Stage.not_answer (h : Stage u r call .idle p) {codes : Finset String} :
    p ≠ .ret (.resolved (some (u, codes))) := by
  cases h with
  | quiet h => exact not_answer_of_all h
  | opening _ _ => nofun
  | writing _ h => exact h.not_answer

/-- A request that starts. -/
theorem Answering.start {n : ℕ} (h : Answering u n labels version s) (hw : ¬ call.Writes)
    (hstage : Stage u s.store.redis call .idle p) :
    Answering u n labels version { s with threads := s.threads ++ [(call, p)] } := by
  refine ⟨h.coherent.start hstage, fun t ht hwrites => ?_,
    fun j y hj hy => (h.fresh j y hj hy).start hstage, fun j t codes hj ht hanswer => ?_⟩
  · rcases List.mem_append.1 ht with hold | hnew
    · exact h.returned t hold hwrites
    · obtain rfl := List.mem_singleton.1 hnew
      exact absurd hwrites hw
  · rcases getElem?_concat_eq_some ht with hold | ⟨-, rfl⟩
    · exact h.answers j t codes hj hold hanswer
    · exact absurd hanswer hstage.not_answer

/-- What a run of requests keeps. -/
def Served (settings : SessionSettings) (u n : ℕ) (s : RbacSystem) : Prop :=
  (rbacDiscipline settings).Holds s ∧ n ≤ s.threads.length ∧
    ∃ labels version, Answering u n labels version s

theorem Served.step {n : ℕ} {m : RbacMove} (h : Served settings u n s) (hm : Allows u s m)
    (hwrites : ∀ call, m = .start call → ¬ call.Writes)
    (hstep : (rbacService settings).step m s = .ok s') : Served settings u n s' := by
  obtain ⟨hholds, hn, labels, version, h⟩ := h
  obtain ⟨hholds', -⟩ := hholds.step (fun call _ w _ => ok_rbacProg call w)
    (follows_of_allows hm) hstep
  cases m with
  | start call =>
      obtain rfl := Except.ok.inj hstep
      refine ⟨hholds', ?_, labels, version, h.start (hwrites call rfl) (stage_rbacProg hm)⟩
      rw [List.length_append]
      omega
  | act j =>
      obtain ⟨call, β, c, k, hj, rfl⟩ := Service.step_act_eq_ok.1 hstep
      obtain ⟨labels', hact⟩ := h.act hholds.store hj (hm _ hj)
      exact ⟨hholds', by simpa using hn, labels', version, hact⟩
  | environment e =>
      obtain rfl := Except.ok.inj hstep
      exact ⟨hholds', hn, labels, version, h.steady (steady_expiry e)⟩

theorem Current.kept {version : ℕ} (h : Current u w version) : Kept settings u { store := w } := by
  refine ⟨⟨h.indexed, fun _ ht => (by cases ht)⟩, fun _ => .idle, version, h.committed,
    fun _ _ ht => (by cases ht), fun _ _ => rfl, fun _ _ _ hi => (by cases hi), fun y hy => ?_,
    fun _ _ hi => (by cases hi), fun y => ?_⟩
  · refine ⟨⟨h.ahead y hy, fun hcarries => ?_, fun _ hi => (by cases hi)⟩, fun _ hi => (by cases hi)⟩
    have hle := (h.carried y hcarries).1
    omega
  · by_cases hcarries : w.redis.Carries u y
    · exact .inl ⟨(h.carried y hcarries).2, fun _ ht => (by cases ht)⟩
    · exact .inr ⟨fun _ hi => (by cases hi), .inr hcarries⟩

theorem Kept.served (h : Kept settings u s) (hreturned : Returned s) :
    Served settings u s.threads.length s := by
  obtain ⟨hholds, labels, version, hcoherent⟩ := h
  refine ⟨hholds, le_rfl, labels, version, hcoherent, hreturned, fun i y hi hy => ?_,
    fun i t codes hi ht _ => ?_⟩
  · rw [hcoherent.unused i hi] at hy
    cases hy
  · have hlt := (List.getElem?_eq_some_iff.1 ht).1
    omega

/-- However grants, revocations and requests interleave, the requests that start once the writers
have returned resolve the codes of the committed grants, if no `grant_role` saves a version that
another writer has moved on since it read it. -/
theorem requests_fresh (settings : SessionSettings) (u : ℕ) {w : RbacWorld} {version : ℕ}
    (hw : Current u w version) (before after : List RbacMove)
    (h : Conforms (rbacService settings).step (Allows u) { store := w } (before ++ after)) :
    Fresh settings u w before after := by
  intro hreturned hwrites i t hi ht codes hanswer
  obtain ⟨hbefore, hafter⟩ := conforms_append.1 h
  have hkept : Kept settings u (runRbac settings w before) :=
    run_invariant (fun _ _ _ hm hs hstep => hs.step hm hstep) before _ hw.kept hbefore
  have hrequests : Conforms (rbacService settings).step
      (fun _ m => ∀ call, m = .start call → ¬ call.Writes) (runRbac settings w before) after := by
    refine conforms_of_forall
      (P := fun m : RbacMove => ∀ call, m = .start call → ¬ call.Writes) ?_ _
    rintro _ hm call rfl
    exact hwrites call hm
  have hserved : Served settings u (runRbac settings w before).threads.length
      (runRbac settings w (before ++ after)) := by
    have hsplit : runRbac settings w (before ++ after) =
        run (rbacService settings).step (runRbac settings w before) after := run_append ..
    rw [hsplit]
    exact run_invariant (fun _ _ _ hm hs hstep => hs.step hm.1 hm.2 hstep) after _
      (hkept.served hreturned) (hafter.and hrequests)
  obtain ⟨-, -, labels, version, hanswering⟩ := hserved
  exact hanswering.answers i t codes hi ht hanswer

end

/-- Alice, with one session, and the roles of a filer and of an approver. -/
def aliceWorld : RbacWorld :=
  { db := {
      users := fun u => if u = 7 then some 1 else none
      roles := fun r => if r = 1 then some "filer" else if r = 2 then some "approver" else none
      rolePermissions := fun r => if r = 1 then {"claim.file"} else {"claim.approve"} }
    redis := (Command.exec (.mint 7 (aliceLogin.record 0).encode 0) {}).2 }

theorem aliceWorld_current : Current 7 aliceWorld 1 := by
  have hproper : Command.Proper (.mint 7 (aliceLogin.record 0).encode 0) {} :=
    ⟨rfl, SessionRecord.encode_complete _⟩
  refine ⟨(indexed_empty.exec hproper).1, rfl, ?_, fun _ _ => rfl⟩
  rintro y ⟨sid, h, hhash, -, rfl⟩
  refine ⟨?_, fun _ hentry => by cases hentry⟩
  change Function.update (fun _ => (none : Option SessionHash)) 0
    (some (aliceLogin.record 0).encode) sid = some h at hhash
  by_cases hsid : sid = 0
  · subst hsid
    rw [Function.update_self] at hhash
    obtain rfl := Option.some.inj hhash
    exact le_refl 1
  · rw [Function.update_of_ne hsid] at hhash
    cases hhash

/-- A grant, and a request after it. -/
theorem grant_fresh : Fresh {} 7 aliceWorld
    [.start (.grantRole { userId := 7, roleId := 1 }), .act 0, .act 0, .act 0, .act 0, .act 0,
      .act 0, .act 0, .act 0, .act 0]
    [.start (.request 0 60), .act 1, .act 1, .act 1, .act 1, .act 1] := by
  have hgrant : ∀ v ∈ (RbacCall.grantRole { userId := 7, roleId := 1 }).target, v = 7 :=
    fun v hv => (Option.some.inj hv).symm
  refine requests_fresh {} 7 aliceWorld_current _ _ ⟨hgrant, ?_, ?_, ?_, ?save, ?_, ?_, ?_, ?_, ?_,
    ?request, ?_, ?_, ?_, ?_, ?_, trivial⟩
  case request => exact fun _ hv => by cases hv
  all_goals
    intro t ht
    obtain rfl := Option.some.inj ht
  case save => rfl
  all_goals trivial

/-- Two grants that read the same version: the second commits the version the first has stamped,
under which the codes of the first alone are cached. -/
theorem grants_race : ¬ Fresh {} 7 aliceWorld
    [.start (.grantRole { userId := 7, roleId := 1 }), .start (.grantRole { userId := 7, roleId := 2 }),
      .act 0, .act 1, .act 0, .act 0, .act 0, .act 0, .act 0, .act 0, .act 0, .act 0,
      .start (.request 0 60), .act 2, .act 2, .act 2, .act 2, .act 2,
      .act 1, .act 1, .act 1, .act 1, .act 1, .act 1, .act 1, .act 1]
    [.start (.request 0 90), .act 3, .act 3, .act 3] := by
  intro h
  have hstale := h (fun t ht _ => ?_) (fun call hcall hwrites => ?_) 3 _ (le_refl 3) rfl _ rfl
  · have hcodes := congrArg (fun codes => decide ("claim.approve" ∈ codes)) hstale
    revert hcodes
    decide +kernel
  · have hdone : t ∈ [(_, .ret (.granted 0)), (_, .ret (.granted 1)),
        (_, .ret (.resolved (some (7, _))))] := ht
    rcases List.mem_cons.1 hdone with rfl | hdone
    · exact id
    · rcases List.mem_pair.1 hdone with rfl | rfl
      · exact id
      · exact id
  · obtain rfl : call = .request 0 90 := by simpa using hcall
    cases hwrites

end Freshness

end OfficeConnect
