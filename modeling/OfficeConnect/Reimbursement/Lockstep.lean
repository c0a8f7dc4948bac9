import OfficeConnect.Reimbursement.Standing

/-!
# Status and workflow in lockstep

A claim's status is a copy of its instance's state, written from the event of each action.  A replay
writes the target of an old event, so the copy is exact as long as no action replays.  The key the
module builds for a caller without one names the revision and the state the instance is in, and on
a ladder no instance stands there twice.
-/

namespace OfficeConnect.Reimbursement

open Lib Workflow

/-! ## Default keys -/

theorem colonFree_action (action : Action) : ColonFree (toString action) := by
  unfold ColonFree
  cases action <;> decide

theorem colonFree_submit : ColonFree "submit" := by
  unfold ColonFree
  decide

theorem actionKey_inj {a a' : Action} {i rev st u i' rev' st' u' : ℕ}
    (h : actionKey a i rev st u = actionKey a' i' rev' st' u') : rev = rev' ∧ st = st' := by
  have hparts := joinColon_inj (by simp) (by simp)
    (colonFree_cons (colonFree_action a) (colonFree_nats [i, rev, st, u]))
    (colonFree_cons (colonFree_action a') (colonFree_nats [i', rev', st', u'])) h
  simp only [List.map_cons, List.cons.injEq] at hparts
  exact ⟨toString_nat_inj hparts.2.2.1, toString_nat_inj hparts.2.2.2.1⟩

theorem actionKey_ne_submitKey {a : Action} {i rev st u i' rev' : ℕ} :
    actionKey a i rev st u ≠ submitKey i' rev' := by
  intro h
  have hparts := joinColon_inj (by simp) (by simp)
    (colonFree_cons (colonFree_action a) (colonFree_nats [i, rev, st, u]))
    (colonFree_cons colonFree_submit (colonFree_nats [i', rev'])) h
  simpa using congrArg List.length hparts

/-- A key the module builds itself, at a place the instance has left. -/
def DefaultKey (i : ℕ) (inst : Instance) (key : String) : Prop :=
  (∃ rev, key = submitKey i rev) ∨
    ∃ action rev st actor, key = actionKey action i rev st actor ∧ Before rank inst rev st

def DefaultKeys (i : ℕ) (inst : Instance) : Prop :=
  ∀ e ∈ inst.events, ∀ key, e.idempotencyKey = some key → DefaultKey i inst key

/-- The key a caller supplies. -/
def Call.key? (c : Call) : Option String :=
  match c.op with
  | .submit r => r.idempotencyKey
  | .act r => r.idempotencyKey
  | _ => none

/-- The caller left the key to the module. -/
def Call.Keyless (c : Call) : Prop := blank c.key?

instance (c : Call) : Decidable c.Keyless := inferInstanceAs (Decidable (blank c.key?))

section

variable {c : Call} {i : ℕ} {inst inst' : Instance} {r : ActionRequest}

theorem Call.Keyless.blank (h : c.Keyless) (hr : c.action? = some r) : blank r.idempotencyKey := by
  unfold Call.Keyless Call.key? at h
  unfold Call.action? at hr
  split at hr
  · obtain rfl := Option.some.inj hr
    simpa [*] using h
  · obtain rfl := Option.some.inj hr
    exact .inl rfl
  · obtain rfl := Option.some.inj hr
    exact .inl rfl
  · cases hr

theorem ActionRequest.key_of_blank (h : blank r.idempotencyKey) : r.key inst =
    some (actionKey r.action r.claimId inst.revisionNo inst.currentStateId r.actorUserId) :=
  if_pos h

/-- The default key of the place an instance stands in labels no event. -/
theorem replayed_of_defaultKeys (hkeys : DefaultKeys i inst) (h : blank r.idempotencyKey) :
    replayed inst (r.key inst) = none := by
  by_contra hne
  obtain ⟨e, he⟩ := Option.ne_none_iff_exists'.1 hne
  obtain ⟨hmem, hkey⟩ := replayed_mem he
  rw [ActionRequest.key_of_blank h] at hkey
  rcases hkeys e hmem _ hkey with ⟨rev, hsubmit⟩ | ⟨action, rev, st, actor, hact, hbefore⟩
  · exact actionKey_ne_submitKey hsubmit
  · obtain ⟨rfl, rfl⟩ := actionKey_inj hact
    unfold Before at hbefore
    omega

theorem DefaultKeys.quiet (h : DefaultKeys i inst) (hq : Workflow.Quiet inst inst') :
    DefaultKeys i inst' := by
  obtain ⟨extra, hevents, hextra⟩ := hq.events
  intro e he key hkey
  rw [hevents] at he
  rcases List.mem_append.1 he with he | he
  · rcases h e he key hkey with hsubmit | ⟨action, rev, st, actor, hact, hbefore⟩
    · exact .inl hsubmit
    · exact .inr ⟨action, rev, st, actor, hact, hq.before hbefore⟩
  · rw [(hextra e he).2.2.2] at hkey
    cases hkey

theorem defaultKeys_fired {kind : Kind} {q : Request} {current : State Status} {t : Transition}
    {out : Outcome} {entered : List Step}
    (h : Fired c.env.directory (chain kind).toVersion inst q current t out entered inst')
    (ho : OnLadder (chain kind).toVersion rank inst) (hkeys : DefaultKeys i inst)
    (hkey : (∃ rev, q.idempotencyKey = some (submitKey i rev)) ∨ ∃ action actor,
      q.idempotencyKey =
        some (actionKey action i inst.revisionNo inst.currentStateId actor)) :
    DefaultKeys i inst' := by
  have hladder := ladder_chain kind
  intro e he key hek
  rw [h.result] at he
  rcases List.mem_append.1 he with he | he
  · rcases hkeys e he key hek with hsubmit | ⟨action, rev, st, actor, hact, hbefore⟩
    · exact .inl hsubmit
    · exact .inr ⟨action, rev, st, actor, hact, h.before_mono hladder ho hbefore⟩
  · rw [List.mem_singleton.1 he] at hek
    change q.idempotencyKey = some key at hek
    rcases hkey with ⟨rev, hsubmit⟩ | ⟨action, actor, hact⟩
    · exact .inl ⟨rev, Option.some.inj (hek.symm.trans hsubmit)⟩
    · exact .inr ⟨action, _, _, actor, Option.some.inj (hek.symm.trans hact),
        h.before hladder ho⟩

end

/-! ## The history is a path -/

/-- An edge of the claim kind's published definition. -/
def Authored (kind : Kind) (before after : Status) : Prop :=
  ∃ t ∈ (chain kind).transitions, ∃ s s', (chain kind).state? t.fromStateId = some s ∧
    (chain kind).state? t.toStateId = some s' ∧ s.code = before ∧ s'.code = after

/-- The rows lead from the draft to a status, each from where the last one ended along an authored
edge. -/
inductive Trail (kind : Kind) : List StatusHistory → Status → Prop
  | filed (row : StatusHistory) (hfrom : row.fromStatus = none) (hdest : row.toStatus = .draft) :
      Trail kind [row] .draft
  | moved (rows : List StatusHistory) (before : Status) (row : StatusHistory)
      (htrail : Trail kind rows before) (hfrom : row.fromStatus = some before)
      (hedge : Authored kind before row.toStatus) : Trail kind (rows ++ [row]) row.toStatus

theorem Trail.logged {kind : Kind} {rows new : List StatusHistory} {before after : Status} {i : ℕ}
    (h : Trail kind rows before) (hnew : Logged i before after new)
    (hedge : after ≠ before → Authored kind before after) : Trail kind (rows ++ new) after := by
  rcases hnew with ⟨rfl, rfl⟩ | ⟨hne, row, -, hfrom, rfl, rfl⟩
  · simpa using h
  · exact .moved rows before row h hfrom (hedge hne)

theorem authored_cancelDraft (kind : Kind) : Authored kind .draft .cancelled := by
  have hedge : ∀ k, ∃ t ∈ (chain k).transitions, ∃ s ∈ (chain k).state? t.fromStateId,
      ∃ s' ∈ (chain k).state? t.toStateId, s.code = .draft ∧ s'.code = .cancelled := by
    intro k
    cases k <;> decide
  obtain ⟨t, ht, s, hs, s', hs', hcodes⟩ := hedge kind
  exact ⟨t, ht, s, s', hs, hs', hcodes⟩

theorem authored_fired {kind : Kind} {c : Call} {inst inst' : Instance} {q : Request}
    {current dest : State Status} {t : Transition} {out : Outcome} {entered : List Step}
    (h : Fired c.env.directory (chain kind).toVersion inst q current t out entered inst')
    (ho : OnLadder (chain kind).toVersion rank inst)
    (hdest : (chain kind).state? out.newStateId = some dest) :
    Authored kind current.code dest.code := by
  obtain ⟨hmem, hfrom, -⟩ := h.transition
  refine ⟨t, hmem, current, dest, ?_, ?_, rfl, rfl⟩
  · rw [hfrom, h.current_id]
    exact h.state
  · rw [← h.moves (ladder_chain kind) ho]
    exact hdest

/-! ## Lockstep -/

/-- The claim shows its instance's state, every key is a default one, and the history is a path. -/
structure Lockstep (i : ℕ) (f : CaseFile) : Prop where
  standing : Standing f
  current : ∀ inst, f.spine.link ≠ none → f.inst = some inst →
    ∃ s, (chain f.spine.kind).state? inst.currentStateId = some s ∧ s.code = f.spine.status
  keys : ∀ inst, f.inst = some inst → DefaultKeys i inst
  trail : Trail f.spine.kind f.rows f.spine.status

section

variable {c : Call} {i : ℕ} {f f' : CaseFile}

/-- The engine took a transition from the claim's own status, under a default key. -/
theorem Engaged.lockstep {kind : Kind} {status : Status} {inst inst' : Instance} {s : State Status}
    {amount : Option ℤ} {q : Request} {v : Published Status} {e : Event} {dest : State Status}
    {due : Time} (h : Engaged c inst amount q v e inst' dest) (hp : Placed kind status inst)
    (hs : (chain kind).state? inst.currentStateId = some s) (hkeys : DefaultKeys i inst)
    (hfresh : replayed inst q.idempotencyKey = none)
    (hkey : (∃ rev, q.idempotencyKey = some (submitKey i rev)) ∨ ∃ action actor,
      q.idempotencyKey =
        some (actionKey action i inst.revisionNo inst.currentStateId actor)) :
    (chain kind).state? (stamped kind dest due inst').currentStateId = some dest ∧
      DefaultKeys i (stamped kind dest due inst') ∧ Authored kind s.code dest.code := by
  rcases h.cases hp with ⟨hreplay, -⟩ | ⟨current, t, out, entered, hfired, -, hdest⟩
  · rw [hfresh] at hreplay
    cases hreplay
  · have hamount := quiet_setAmount inst amount
    have hstamp := quiet_stamped kind dest due inst'
    have ho := hamount.onLadder hp.onLadder
    obtain rfl : s = current := Option.some.inj (hs.symm.trans hfired.state)
    refine ⟨?_, ?_, authored_fired hfired ho hdest⟩
    · rw [hstamp.state, hfired.result]
      exact hdest
    · exact (defaultKeys_fired hfired ho (hkeys.quiet hamount) hkey).quiet hstamp

theorem Opened.lockstep {d : Docket} (h : Opened c d i f) : Lockstep i f where
  standing := h.standing
  current := fun _ hlink => absurd h.link hlink
  keys := fun inst hinst => by
    rw [h.inst] at hinst
    cases hinst
  trail := by
    obtain ⟨row, -, hfrom, hdest, hrows⟩ := h.rows
    rw [hrows, h.status]
    exact .filed row hfrom hdest

theorem FileStep.lockstep (h : FileStep c i f f') (hc : c.Keyless) (hf : Lockstep i f) :
    Lockstep i f' := by
  have hstanding := h.standing hf.standing
  cases h with
  | same => exact hf
  | quiet inst inst' hinst hquiet hdated =>
      refine ⟨hstanding, fun x hlink hx => ?_, fun x hx => ?_, hf.trail⟩
      · obtain rfl := Option.some.inj hx
        rw [hquiet.state]
        exact hf.current inst hlink hinst
      · obtain rfl := Option.some.inj hx
        exact (hf.keys inst hinst).quiet hquiet
  | dropped rows hlink hrows =>
      refine ⟨hstanding, fun _ hne => absurd hlink hne, hf.keys, hf.trail.logged hrows ?_⟩
      intro hne
      rcases hf.standing.unlinked hlink with hdraft | hcancelled
      · rw [hdraft]
        exact authored_cancelDraft f.spine.kind
      · exact absurd hcancelled.symm hne
  | submitted r j initial start now due inst v e inst' dest rows hr hi hlink hlive hinitial hinst
      hrun hrows =>
      have hp := placed_newInstance start now hinitial
      have hkeys : DefaultKeys i inst := by
        intro e he key hkey
        rw [hinst] at he
        rw [List.mem_singleton.1 he] at hkey
        cases hkey
      have hdraft : f.spine.status = .draft :=
        (hf.standing.unlinked hlink).resolve_right hlive
      have hinitial' : initial.code = .draft := by
        have hall : ∀ k, ∀ s ∈ initialState (chain k).toVersion, s.code = .draft := by
          intro k
          cases k <;> decide
        exact hall f.spine.kind initial hinitial
      have hstate : (chain f.spine.kind).state? inst.currentStateId = some initial := by
        rw [hinst]
        exact (chain f.spine.kind).state?_of_mem (initialState_mem hinitial)
      have hkey : (r.request c.env inst).idempotencyKey = some (submitKey i inst.revisionNo) := by
        have hblank : blank r.idempotencyKey := by
          simpa [Call.Keyless, Call.key?, hr] using hc
        rw [← hi]
        exact if_pos hblank
      have hfresh : replayed inst (r.request c.env inst).idempotencyKey = none := by
        rw [hkey, hinst]
        rfl
      rw [← hinst] at hp
      obtain ⟨hcurrent, hkeys', hedge⟩ := hrun.lockstep hp hstate hkeys hfresh (.inl ⟨_, hkey⟩)
      refine ⟨hstanding, fun x _ hx => ?_, fun x hx => ?_, hf.trail.logged hrows fun _ => ?_⟩
      · obtain rfl := Option.some.inj hx
        exact ⟨dest, hcurrent, rfl⟩
      · obtain rfl := Option.some.inj hx
        exact hkeys'
      · rw [hdraft, ← hinitial']
        exact hedge
  | acted r inst amount due v e inst' dest rows hr hi hlink hinst hrun hrows =>
      obtain ⟨inst₀, hinst₀, hp⟩ := hf.standing.linked hlink
      obtain rfl := Option.some.inj (hinst.symm.trans hinst₀)
      obtain ⟨s, hs, hcode⟩ := hf.current inst hlink hinst
      have hkeys := hf.keys inst hinst
      have hblank := hc.blank hr
      have hkey : (r.request c.env inst).idempotencyKey =
          some (actionKey r.action i inst.revisionNo inst.currentStateId r.actorUserId) := by
        rw [← hi]
        exact r.key_of_blank hblank
      obtain ⟨hcurrent, hkeys', hedge⟩ := hrun.lockstep hp hs hkeys
        (replayed_of_defaultKeys hkeys hblank) (.inr ⟨_, _, hkey⟩)
      refine ⟨hstanding, fun x _ hx => ?_, fun x hx => ?_, hf.trail.logged hrows fun _ => ?_⟩
      · obtain rfl := Option.some.inj hx
        exact ⟨dest, hcurrent, rfl⟩
      · obtain rfl := Option.some.inj hx
        exact hkeys'
      · rw [← hcode]
        exact hedge

/-- In every run without caller keys, every claim of the store is in lockstep with its instance. -/
theorem runStore_lockstep (calls : List Call) (hkeys : ∀ c ∈ calls, c.Keyless)
    (hf : (runStore calls).file? i = some f) : Lockstep i f :=
  files_invariant (P := fun _ c => c.Keyless) (I := Lockstep) (fun _ _ _ _ h => h.lockstep)
    (fun _ _ _ _ _ hc _ h hf => h.lockstep hc hf) calls (conforms_of_forall hkeys _) hf

end

/-- Without caller keys a submitted claim's status is the code of its instance's current state, and
its history rows are a path of authored edges from the draft to it. -/
theorem status_mirrors_workflow (calls : List Call) (hkeys : ∀ c ∈ calls, c.Keyless) (i : ℕ)
    (claim : Claim) (hclaim : (runStore calls).claims[i]? = some claim) :
    (∀ j, claim.workflowInstanceId = some j → ∃ inst s,
      (runStore calls).instances[j]? = some inst ∧
      (chain claim.kind).state? inst.currentStateId = some s ∧ s.code = claim.status) ∧
    Trail claim.kind ((runStore calls).history.filter (·.claimId = i)) claim.status := by
  have hlockstep := runStore_lockstep calls hkeys (exists_file hclaim)
  refine ⟨fun j hj => ?_, hlockstep.trail⟩
  obtain ⟨inst, hinst, -⟩ := placed_runStore calls hclaim hj
  obtain ⟨s, hs, hcode⟩ := hlockstep.current inst (by simp [Docket.file, Claim.spine, hj])
    (by simp [Docket.file, Store.docket, Claim.spine, hj, hinst])
  exact ⟨inst, s, hinst, hs, hcode⟩

theorem liquidateTrip_mirrors : ∃ claim,
    (runStore (inOffice (liquidateTrip 1000))).claims[0]? = some claim ∧
    claim.status = .handedToFms ∧
    (∀ j, claim.workflowInstanceId = some j → ∃ inst s,
      (runStore (inOffice (liquidateTrip 1000))).instances[j]? = some inst ∧
      (chain claim.kind).state? inst.currentStateId = some s ∧ s.code = claim.status) ∧
    Trail claim.kind
      ((runStore (inOffice (liquidateTrip 1000))).history.filter (·.claimId = 0)) claim.status := by
  obtain ⟨claim, hclaim, hstatus⟩ := exists_eq_some
    (o := (runStore (inOffice (liquidateTrip 1000))).claims[0]?) (fun c => c.status = .handedToFms)
    (by decide +kernel)
  exact ⟨claim, hclaim, by simpa using hstatus,
    status_mirrors_workflow (inOffice (liquidateTrip 1000)) (by decide) 0 claim hclaim⟩

end OfficeConnect.Reimbursement
