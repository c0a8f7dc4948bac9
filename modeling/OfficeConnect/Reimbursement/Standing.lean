import OfficeConnect.Reimbursement.CaseFile
import OfficeConnect.Workflow.Ladder

/-!
# Where a claim stands

Both chains are ladders, so a submitted claim's instance is always on one: its round of approvals
is the rungs below it, its one open row is dated, and the claim shows a status some event of the
instance led to.
-/

namespace OfficeConnect.Reimbursement

open Lib Workflow

/-! ## The chains are ladders -/

def Status.rank : Status → ℕ
  | draft => 0
  | divisionApproval | certifyB => 1
  | adminReview | certifyC => 2
  | handedToFms => 3
  | fmsReturned => 4
  | returned => 5
  | paidClosed | settled | cancelled => 6

/-- The rank of a state, by its code. -/
def rank (id : ℕ) : ℕ := ((state? id).map (·.code.rank)).getD 0

/-- The gates of a chain in the order they sign. -/
def signatories : Kind → List Status
  | .reimbursement => [.divisionApproval, .adminReview, .handedToFms]
  | .liquidation => [.certifyB, .certifyC, .handedToFms]

/-- The id of the state with a code. -/
def stateId (kind : Kind) (code : Status) : ℕ :=
  (((chain kind).states.find? (·.code = code)).map (·.id)).getD 0

def rungs (kind : Kind) : List ℕ := (signatories kind).map (stateId kind)

/-- How many of the gates are signed on the way to a state; off the ladder nothing is said. -/
def Status.passed : Status → Option ℕ
  | divisionApproval | certifyB => some 0
  | adminReview | certifyC => some 1
  | handedToFms => some 2
  | paidClosed | settled => some 3
  | draft | returned | fmsReturned | cancelled => none

/-- The gates signed on the way to a state. -/
def cleared (kind : Kind) (id : ℕ) : Option (List ℕ) :=
  ((state? id).bind (·.code.passed)).map fun n => (rungs kind).take n

theorem ladder_chain (kind : Kind) : Ladder (chain kind).toVersion rank where
  single := by cases kind <;> decide
  climbs := by cases kind <;> decide
  leaves := by cases kind <;> decide
  originates := by cases kind <;> decide

theorem rungs_chain (kind : Kind) : Rungs (chain kind).toVersion (cleared kind) where
  starts := by
    have h : ∀ t ∈ (chain kind).transitions, t.action = .submit ∨ t.action = .resubmit →
        ∀ l ∈ cleared kind t.toStateId, l = [] := by cases kind <;> decide
    exact h
  climbs := by
    have h : ∀ t ∈ (chain kind).transitions, t.action = .approve → ∀ l ∈ cleared kind t.toStateId,
        ∃ below ∈ cleared kind t.fromStateId, l = below ++ [t.fromStateId] := by cases kind <;> decide
    exact h
  leaves := by cases kind <;> decide

/-! ## An instance in its place -/

/-- Where the instance of a claim of this kind that shows this status stands. -/
structure Placed (kind : Kind) (status : Status) (inst : Instance) : Prop where
  onLadder : OnLadder (chain kind).toVersion rank inst
  climbed : Climbed (cleared kind) inst
  terminalLast : TerminalLast (chain kind).toVersion inst
  targets : ∀ e ∈ inst.events, ∀ id, e.toStateId = some id →
    ∃ s, (chain kind).state? id = some s
  shown : ∃ e ∈ inst.events, ∃ id s, e.toStateId = some id ∧ (chain kind).state? id = some s ∧
    s.code = status
  dated : Dated inst

section

variable {kind : Kind} {status : Status} {inst inst' : Instance} {c : Call}
  {amount : Option ℤ} {r : Request} {v : Published Status} {e : Event} {dest : State Status}
  {current : State Status} {t : Transition} {out : Outcome} {entered : List Step} {due : Time}

theorem Placed.quiet (h : Placed kind status inst) (hq : Workflow.Quiet inst inst')
    (hdated : Dated inst → Dated inst') : Placed kind status inst' := by
  obtain ⟨extra, hevents, hextra⟩ := hq.events
  refine ⟨hq.onLadder h.onLadder, hq.climbed h.climbed, hq.terminalLast h.terminalLast, ?_, ?_,
    hdated h.dated⟩
  · intro e he id hid
    rw [hevents] at he
    rcases List.mem_append.1 he with he | he
    · exact h.targets e he id hid
    · rw [(hextra e he).2.2.1] at hid
      cases hid
  · obtain ⟨e, he, hshown⟩ := h.shown
    exact ⟨e, by rw [hevents]; exact List.mem_append_left _ he, hshown⟩

theorem quiet_setAmount (inst : Instance) (amount : Option ℤ) :
    Workflow.Quiet inst { inst with amount := amount } :=
  ⟨rfl, rfl, rfl, rfl, rfl, rfl, rfl, [], by simp, by simp⟩

theorem quiet_stamped (kind : Kind) (dest : State Status) (due : Time) (inst : Instance) :
    Workflow.Quiet inst (stamped kind dest due inst) := by
  unfold stamped
  split_ifs
  · exact Workflow.Quiet.refl inst
  · exact quiet_stampSla dest.id due

theorem stamped_events (kind : Kind) (dest : State Status) (due : Time) (inst : Instance) :
    (stamped kind dest due inst).events = inst.events := by
  unfold stamped
  split_ifs <;> rfl

/-- Stamping only adds dates. -/
theorem dated_stamped (h : Dated inst) : Dated (stamped kind dest due inst) := by
  unfold stamped
  split_ifs
  · exact h
  · intro s hs hactive g hg hcode
    obtain ⟨s₀, hs₀, rfl⟩ := List.mem_map.1 hs
    split_ifs at hactive hg ⊢ with hat
    · simp
    · exact h s₀ hs₀ hactive g hg hcode

/-- The version a placed instance runs on. -/
theorem Placed.version_eq (h : Placed kind status inst)
    (hv : version? inst.definitionVersionId = some v) : v = chain kind := by
  rw [h.onLadder.version, version?_chain] at hv
  exact (Option.some.inj hv).symm

/-- The state an event of a placed instance led to is one of its chain. -/
theorem Placed.event_target (h : Placed kind status inst) (he : e ∈ inst.events)
    (hdest : eventState e = .ok dest) :
    ∃ id, e.toStateId = some id ∧ (chain kind).state? id = some dest := by
  obtain ⟨id, hid, hstate⟩ := eventState_eq_ok.1 hdest
  obtain ⟨s, hs⟩ := h.targets e he id hid
  obtain rfl := Option.some.inj ((state?_chain kind hs).symm.trans hstate)
  exact ⟨id, hid, hs⟩

/-- A claim that shows a terminal status has an instance that stands there. -/
theorem Placed.terminal (h : Placed kind status inst) (hstatus : status ∈ (vocabulary kind).terminal) :
    ∃ s, (chain kind).state? inst.currentStateId = some s ∧ s.kind = .terminal ∧
      s.code = status := by
  obtain ⟨e, he, id, s, hid, hs, hcode⟩ := h.shown
  have hterminal : ∀ k, ∀ s ∈ (chain k).states, s.code ∈ (vocabulary k).terminal →
      s.kind = .terminal := by
    intro k
    cases k <;> decide
  have hkind := hterminal kind s (List.mem_of_find?_eq_some hs) (by rw [hcode]; exact hstatus)
  refine ⟨s, ?_, hkind, hcode⟩
  rw [h.terminalLast e he id hid s hs hkind]
  exact hs

theorem Placed.kind_of_settled (h : Placed kind .settled inst) : kind = .liquidation := by
  obtain ⟨e, -, id, s, -, hs, hcode⟩ := h.shown
  have hall : ∀ k, ∀ s ∈ (chain k).states, s.code = .settled → k = .liquidation := by
    intro k
    cases k <;> decide
  exact hall kind s (List.mem_of_find?_eq_some hs) hcode

/-- The engine either replays an event and leaves the instance, or takes a transition to the state
the claim is shown in. -/
theorem Engaged.cases (h : Engaged c inst amount r v e inst' dest)
    (hp : Placed kind status inst) :
    (replayed inst r.idempotencyKey = some e ∧ inst' = { inst with amount := amount }) ∨
      ∃ current t out entered,
        Fired c.env.directory (chain kind).toVersion { inst with amount := amount } r current t out
          entered inst' ∧
        e = emitEvent current r out ∧ (chain kind).state? out.newStateId = some dest := by
  have hexec := h.exec
  rw [hp.version_eq h.version] at hexec
  rcases executeAction_cases hexec with hreplay | ⟨current, t, out, entered, hfired, rfl⟩
  · exact .inl hreplay
  · refine .inr ⟨current, t, out, entered, hfired, rfl, ?_⟩
    have hp' := hp.quiet (quiet_setAmount inst amount) id
    obtain ⟨next, hnext, -⟩ := hfired.enters_next (ladder_chain kind) hp'.onLadder
    rw [← hfired.moves (ladder_chain kind) hp'.onLadder] at hnext
    obtain ⟨id, hid, hstate⟩ := eventState_eq_ok.1 h.target
    obtain rfl : out.newStateId = id := Option.some.inj hid
    rw [← Option.some.inj ((state?_chain kind hnext).symm.trans hstate)]
    exact hnext

theorem activateStateSteps_at {state : State Status} {rev : ℕ} {unit : Option ℕ} {now : Time}
    {s : Step} (hs : s ∈ activateStateSteps state rev unit now) :
    state.isApprovalGate = true ∧ s.At state.id rev := by
  unfold activateStateSteps at hs
  split_ifs at hs with hgate
  · obtain ⟨seq, -, rfl⟩ := List.mem_map.1 hs
    exact ⟨hgate, rfl, rfl⟩
  · simp at hs

theorem external_vocabulary (kind : Kind) : (vocabulary kind).external = [.handedToFms] := by
  cases kind <;> rfl

/-- The row a transition opens is stamped when the claim is. -/
theorem fired_dated
    (h : Fired c.env.directory (chain kind).toVersion inst r current t out entered inst')
    (ho : OnLadder (chain kind).toVersion rank inst)
    (hdest : (chain kind).state? out.newStateId = some dest) :
    Dated (stamped kind dest due inst') := by
  obtain ⟨next, hnext, hentered⟩ := h.enters_next (ladder_chain kind) ho
  rw [← h.moves (ladder_chain kind) ho] at hnext
  obtain rfl := Option.some.inj (hnext.symm.trans hdest)
  have hres := h.result
  -- nothing is left open behind, so an open row is one of those just spawned
  have hopen : ∀ s ∈ inst'.steps, s.status = .active →
      next.isApprovalGate = true ∧ s.At next.id inst'.revisionNo := by
    intro s hs hactive
    rw [hres] at hs ⊢
    rcases List.mem_append.1 hs with hs | hs
    · have hzero := h.openSlots_left (ladder_chain kind) ho s.stateId s.revisionNo
      have hpos : 0 < openSlots s.stateId s.revisionNo out.steps :=
        openSlots_pos.2 ⟨s, hs, ⟨rfl, rfl⟩, hactive⟩
      omega
    · rw [hentered] at hs
      exact activateStateSteps_at hs
  have hstate : state? next.id = some next := by
    have hid := Version.state?_id hnext
    rw [hid]
    exact state?_chain kind hnext
  intro s hs hactive g hg hcode
  unfold stamped at hs
  split_ifs at hs with hskip
  · obtain ⟨hgate, hat⟩ := hopen s hs hactive
    rw [hat.1, hstate] at hg
    obtain rfl := Option.some.inj hg
    simp [hgate, external_vocabulary, hcode] at hskip
  · obtain ⟨s₀, hs₀, rfl⟩ := List.mem_map.1 hs
    split_ifs at hactive ⊢ with hat
    · simp
    · intro hnone
      exact hat ⟨(hopen s₀ hs₀ hactive).2, hactive, hnone⟩

theorem fired_placed
    (h : Fired c.env.directory (chain kind).toVersion inst r current t out entered inst')
    (hp : Placed kind status inst) (hdest : (chain kind).state? out.newStateId = some dest) :
    Placed kind dest.code (stamped kind dest due inst') := by
  have hladder := ladder_chain kind
  have hq := quiet_stamped kind dest due inst'
  have hevents : inst'.events = inst.events ++ [emitEvent current r out] := by rw [h.result]
  refine ⟨hq.onLadder (h.onLadder hladder hp.onLadder),
    hq.climbed (h.climbedRungs hladder (rungs_chain kind) hp.onLadder hp.climbed),
    hq.terminalLast (h.terminalLast hp.terminalLast), ?_, ?_, fired_dated h hp.onLadder hdest⟩
  · obtain ⟨extra, hstamped, hextra⟩ := hq.events
    intro e he id hid
    rw [hstamped, hevents] at he
    rcases List.mem_append.1 he with he | he
    · rcases List.mem_append.1 he with he | he
      · exact hp.targets e he id hid
      · rw [List.mem_singleton.1 he] at hid
        obtain rfl := Option.some.inj hid
        exact ⟨dest, hdest⟩
    · rw [(hextra e he).2.2.1] at hid
      cases hid
  · obtain ⟨extra, hstamped, -⟩ := hq.events
    refine ⟨emitEvent current r out, ?_, out.newStateId, dest, rfl, hdest, rfl⟩
    rw [hstamped, hevents]
    simp

/-- On a claim that shows a terminal status the engine can only replay. -/
theorem Engaged.replays_of_terminal (h : Engaged c inst amount r v e inst' dest)
    (hp : Placed kind status inst) (hstatus : status ∈ (vocabulary kind).terminal) :
    replayed inst r.idempotencyKey = some e := by
  rcases h.cases hp with ⟨hreplay, -⟩ | ⟨current, t, out, entered, hfired, -, -⟩
  · exact hreplay
  · obtain ⟨s, hs, hkind, -⟩ := hp.terminal hstatus
    obtain rfl : current = s := Option.some.inj (hfired.state.symm.trans hs)
    exact absurd hkind hfired.open'

/-- One run of the engine leaves the instance in its place, showing the event's target. -/
theorem Engaged.placed (h : Engaged c inst amount r v e inst' dest)
    (hp : Placed kind status inst) : Placed kind dest.code (stamped kind dest due inst') := by
  have hp' := hp.quiet (quiet_setAmount inst amount) id
  rcases h.cases hp with ⟨hreplay, rfl⟩ | ⟨current, t, out, entered, hfired, -, hdest⟩
  · obtain ⟨he, -⟩ := replayed_mem hreplay
    obtain ⟨id, hid, hstate⟩ := hp.event_target he h.target
    have hshown : Placed kind dest.code { inst with amount := amount } :=
      { hp' with shown := ⟨e, he, id, dest, hid, hstate, rfl⟩ }
    exact hshown.quiet (quiet_stamped kind dest due _) dated_stamped
  · exact fired_placed hfired hp' hdest

/-- A new instance stands in the draft state. -/
theorem placed_newInstance {initial : State Status} (start : Start) (now : Time)
    (hinit : initialState (chain kind).toVersion = some initial) :
    Placed kind .draft (newInstance (chain kind).toVersion initial start now) := by
  have hmem := initialState_mem hinit
  have hstate := (chain kind).state?_of_mem hmem
  have hdraft : ∀ k, ∀ s ∈ initialState (chain k).toVersion, s.isApprovalGate = false ∧
      s.code = .draft ∧ s.kind ≠ .terminal ∧ cleared k s.id = none := by
    intro k
    cases k <;> decide
  obtain ⟨hgate, hcode, hkind, hcleared⟩ := hdraft kind initial hinit
  have hsteps : (newInstance (chain kind).toVersion initial start now).steps = [] := by
    simp [newInstance, activateStateSteps, hgate]
  refine ⟨⟨rfl, ⟨initial, hstate⟩, newInstance_pinned hinit start now, ?_, ?_, ?_⟩, ?_, ?_, ?_, ?_,
    ?_⟩
  · simp [hsteps]
  · simp [hsteps, doneSlots]
  · intro current hcurrent g rev
    obtain rfl := Option.some.inj (hstate.symm.trans hcurrent)
    simp [hsteps, openSlots, hgate]
  · intro l hl
    change cleared kind initial.id = some l at hl
    rw [hcleared] at hl
    cases hl
  · intro e he id hid s hs hterm
    rw [List.mem_singleton.1 he] at hid
    obtain rfl := Option.some.inj hid
    rfl
  · intro e he id hid
    rw [List.mem_singleton.1 he] at hid
    obtain rfl := Option.some.inj hid
    exact ⟨initial, hstate⟩
  · exact ⟨_, List.mem_singleton_self _, initial.id, initial, rfl, hstate, hcode⟩
  · intro s hs
    simp [hsteps] at hs

end

/-! ## Every claim stands somewhere -/

/-- A claim without an instance is a draft or was dropped as one; a claim with one shows where its
instance has been. -/
structure Standing (f : CaseFile) : Prop where
  unlinked : f.spine.link = none → f.spine.status = .draft ∨ f.spine.status = .cancelled
  linked : f.spine.link ≠ none → ∃ inst, f.inst = some inst ∧ Placed f.spine.kind f.spine.status inst

theorem FileStep.standing {c : Call} {i : ℕ} {f f' : CaseFile} (h : FileStep c i f f')
    (hf : Standing f) : Standing f' := by
  cases h with
  | same => exact hf
  | quiet inst inst' hinst hquiet hdated =>
      refine ⟨hf.unlinked, fun hlink => ?_⟩
      obtain ⟨inst₀, hinst₀, hp⟩ := hf.linked hlink
      obtain rfl := Option.some.inj (hinst.symm.trans hinst₀)
      exact ⟨inst', rfl, hp.quiet hquiet hdated⟩
  | dropped rows hlink hrows => exact ⟨fun _ => .inr rfl, fun hne => absurd hlink hne⟩
  | submitted r j initial start now due inst v e inst' dest rows hr hi hlink hlive hinitial hinst
      hrun hrows =>
      have hnew := placed_newInstance start now hinitial
      rw [← hinst] at hnew
      exact ⟨fun h => by simp at h, fun _ => ⟨_, rfl, hrun.placed hnew⟩⟩
  | acted r inst amount due v e inst' dest rows hr hi hlink hinst hrun hrows =>
      obtain ⟨inst₀, hinst₀, hp⟩ := hf.linked hlink
      obtain rfl := Option.some.inj (hinst.symm.trans hinst₀)
      exact ⟨fun hnone => absurd hnone hlink, fun _ => ⟨_, rfl, hrun.placed hp⟩⟩

theorem Opened.standing {c : Call} {d : Docket} {i : ℕ} {f : CaseFile} (h : Opened c d i f) :
    Standing f := ⟨fun _ => .inl h.status, fun hne => absurd h.link hne⟩

theorem standing_runStore (calls : List Call) {i : ℕ} {f : CaseFile}
    (hf : (runStore calls).file? i = some f) : Standing f :=
  files_invariant (P := fun _ _ => True) (I := fun _ => Standing) (fun _ _ _ _ h => h.standing)
    (fun _ _ _ _ _ _ _ h hf => h.standing hf) calls (conforms_true _ _) hf

/-- Every submitted claim of a reachable store has its instance, in its place. -/
theorem placed_runStore (calls : List Call) {i j : ℕ} {claim : Claim}
    (hclaim : (runStore calls).claims[i]? = some claim)
    (hlink : claim.workflowInstanceId = some j) :
    ∃ inst, (runStore calls).instances[j]? = some inst ∧ Placed claim.kind claim.status inst := by
  have hstanding := standing_runStore calls (exists_file hclaim)
  obtain ⟨inst, hinst, hp⟩ := hstanding.linked (by simp [Docket.file, Claim.spine, hlink])
  refine ⟨inst, ?_, hp⟩
  simpa [Docket.file, Store.docket, Claim.spine, hlink] using hinst

/-! ## One claim action -/

section

variable {env : Env} {σ σ₁ σ' : Store} {r : ActionRequest} {claim priced : Claim} {j : ℕ}
  {inst inst' : Instance} {amount : Option ℤ} {v : Published Status} {e : Event}
  {dest : State Status} {returns : List ReturnEvent}

theorem Acted.instanceOf
    (h : Acted env r σ claim j inst σ₁ priced amount v e inst' dest returns σ') :
    σ.instanceOf claim = some inst := by
  simp [Store.instanceOf, h.link, h.live]

theorem Acted.engaged {c : Call}
    (h : Acted c.env r σ claim j inst σ₁ priced amount v e inst' dest returns σ') :
    Engaged c inst amount (r.request c.env inst) v e inst' dest :=
  ⟨h.performed.version, h.performed.exec, h.performed.target⟩

/-- The claim and the instance an action leaves. -/
theorem Acted.leaves
    (h : Acted env r σ claim j inst σ₁ priced amount v e inst' dest returns σ') :
    ∃ after due, σ'.claims[r.claimId]? = some after ∧ after.status = dest.code ∧
      after.body = priced.body ∧ σ'.instanceOf after = some (stamped claim.kind dest due inst') := by
  obtain ⟨after, hafter, hstatus, hbody⟩ := h.performed.claim_after
  have hlink : after.workflowInstanceId = some j := by
    have hkept := congrArg Claim.workflowInstanceId hbody
    have hpriced : priced.workflowInstanceId = claim.workflowInstanceId :=
      congrArg Spine.link h.spine
    exact hkept.trans (hpriced.trans h.link)
  have hlive : σ'.instances[j]? = some (stamped claim.kind dest
      (slaDue env (env.at (r.request env inst).now)) inst') := by
    obtain ⟨claims, history, -, rfl⟩ := h.performed.result
    have hkind : priced.kind = claim.kind := congrArg Spine.kind h.spine
    rw [← hkind]
    exact getElem?_modify_self _ h.performed.live
  refine ⟨after, slaDue env (env.at (r.request env inst).now), hafter, hstatus, hbody, ?_⟩
  unfold Store.instanceOf
  rw [hlink]
  exact hlive

end

/-! ## Terminal statuses -/

/-- A claim that shows a terminal status keeps it, or an action on it replays an event. -/
theorem FileStep.terminal_cases {c : Call} {i : ℕ} {f f' : CaseFile} (h : FileStep c i f f')
    (hstanding : Standing f) (hterminal : f.spine.status ∈ (vocabulary f.spine.kind).terminal) :
    f'.spine.status = f.spine.status ∨ ∃ r inst e dest, c.action? = some r ∧ r.claimId = i ∧
      f.inst = some inst ∧ replayed inst (r.key inst) = some e ∧ eventState e = .ok dest ∧
      f'.spine.status = dest.code := by
  have hunlinked : f.spine.link = none → f.spine.status = .cancelled := by
    intro hlink
    refine (hstanding.unlinked hlink).resolve_left fun hdraft => ?_
    have hnot : ∀ k, .draft ∉ (vocabulary k).terminal := by
      intro k
      cases k <;> decide
    rw [hdraft] at hterminal
    exact hnot _ hterminal
  cases h with
  | same => exact .inl rfl
  | quiet inst inst' hinst hquiet hdated => exact .inl rfl
  | dropped rows hlink hrows => exact .inl (hunlinked hlink).symm
  | submitted r j initial start now due inst v e inst' dest rows hr hi hlink hlive =>
      exact absurd (hunlinked hlink) hlive
  | acted r inst amount due v e inst' dest rows hr hi hlink hinst hrun hrows =>
      obtain ⟨inst₀, hinst₀, hp⟩ := hstanding.linked hlink
      obtain rfl := Option.some.inj (hinst.symm.trans hinst₀)
      exact .inr ⟨r, inst, e, dest, hr, hi, hinst, hrun.replays_of_terminal hp hterminal,
        hrun.target, rfl⟩

/-! ## Settled claims stay settled -/

/-- No claim action replays, on a settled claim, an event that led elsewhere. -/
def StaysSettled (σ : Store) (c : Call) : Prop :=
  ∀ r ∈ c.action?, ∀ claim ∈ σ.claims[r.claimId]?, claim.status = .settled →
    ∀ inst ∈ σ.instanceOf claim, ∀ e ∈ replayed inst (r.key inst),
      ∀ dest ∈ (eventState e).toOption, dest.code = .settled

instance (σ : Store) (c : Call) : Decidable (StaysSettled σ c) :=
  inferInstanceAs (Decidable (∀ r ∈ c.action?, ∀ claim ∈ σ.claims[r.claimId]?,
    claim.status = .settled → ∀ inst ∈ σ.instanceOf claim, ∀ e ∈ replayed inst (r.key inst),
      ∀ dest ∈ (eventState e).toOption, dest.code = .settled))

theorem FileStep.settled {c : Call} {σ : Store} {i : ℕ} {f f' : CaseFile}
    (h : FileStep c i f f') (hf : σ.file? i = some f) (hstanding : Standing f)
    (hc : StaysSettled σ c) (hstatus : f.spine.status = .settled) : f'.spine.status = .settled := by
  have hlinked : f.spine.link ≠ none := by
    intro hnone
    rcases hstanding.unlinked hnone with h | h <;> rw [h] at hstatus <;> cases hstatus
  obtain ⟨inst₀, -, hp⟩ := hstanding.linked hlinked
  rw [hstatus] at hp
  rcases h.terminal_cases hstanding (by rw [hstatus, hp.kind_of_settled]; decide) with
    hsame | ⟨r, inst, e, dest, hr, rfl, hinst, hreplay, hdest, hshows⟩
  · exact hsame.trans hstatus
  · obtain ⟨claim, hclaim, hspine, hinstance⟩ := file_claim hf
    rw [hshows]
    exact hc r hr claim hclaim ((congrArg Spine.status hspine).trans hstatus) inst
      (hinstance.trans hinst) e hreplay dest (by rw [hdest]; rfl)

end OfficeConnect.Reimbursement
