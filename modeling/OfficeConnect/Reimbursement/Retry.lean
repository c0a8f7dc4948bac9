import OfficeConnect.Reimbursement.Lockstep
import OfficeConnect.Workflow.Admission

/-!
# A request sent twice

The default key names the state the instance is in, and a first success moves it, so the same request
sent again carries another key.  It acts a second time exactly where the chain has the same verb twice
in a row and the actor may use it at the second gate too.
-/

namespace OfficeConnect.Reimbursement

open Lib Workflow

/-! ## Acting again -/

/-- The state a claim's instance is in. -/
def Store.stateOf (σ : Store) (i : ℕ) : Option ℕ :=
  (σ.claims[i]?.bind σ.instanceOf).map (·.currentStateId)

/-- The gate a verb leads to that has the verb again. -/
def onward : Kind → Action → Status → Option Status
  | .reimbursement, .approve, .divisionApproval => some .adminReview
  | .reimbursement, .approve, .adminReview => some .handedToFms
  | .reimbursement, .return, .handedToFms => some .fmsReturned
  | .liquidation, .approve, .certifyB => some .certifyC
  | .liquidation, .approve, .certifyC => some .handedToFms
  | _, _, _ => none

/-- What the retry of a request finds, said of the store before the first one: the request takes a new
step to a gate with the same verb, where the actor may use it under a key of its own. -/
structure ActsAgain (env : Env) (r : ActionRequest) (σ : Store) (claim : Claim) (inst : Instance)
    (current next : State Status) : Prop where
  row : σ.claims[r.claimId]? = some claim
  live : σ.instanceOf claim = some inst
  fresh : replayed inst (r.key inst) = none
  state : (chain claim.kind).state? inst.currentStateId = some current
  gate : next ∈ (chain claim.kind).states
  onward : onward claim.kind r.action current.code = some next.code
  key : replayed inst (some (actionKey r.action r.claimId inst.revisionNo next.id
    r.actorUserId)) = none
  sees : maySeeClaim env σ claim r.actorUserId = true
  authority : (resolveAuthority env.directory r.actorUserId next.requiredPermission inst.orgUnitId
    (chain claim.kind).definitionId (env.at r.now)).authorized = true
  comment : next.code = .certifyC → ¬ blank r.comment
  packet : r.action = .approve → assertPersistedPacketComplete env σ r.claimId = .ok ()
  money : r.action = .approve → next.code = .handedToFms → moneyRecorded σ claim = .ok ()
  reasons : r.action = .return → assertReturnReasons env r.reasonIds = .ok ()

/-! ## The chains, twice -/

theorem onward_verb {kind : Kind} {action : Action} {code code' : Status}
    (h : onward kind action code = some code') : action = .approve ∨ action = .return := by
  cases kind <;> cases action <;> cases code <;> simp_all [onward]

/-- Two steps of one verb are a step of the table. -/
theorem onward_of_twice (kind : Kind) : ∀ t ∈ (chain kind).transitions,
    ∀ t' ∈ (chain kind).transitions, t'.fromStateId = t.toStateId → t'.action = t.action →
      ∀ s ∈ (chain kind).state? t.fromStateId, ∀ s' ∈ (chain kind).state? t.toStateId,
        onward kind t.action s.code = some s'.code := by
  cases kind <;> decide

/-- A step of the table leads to an open gate that has the verb again, no gate that keeps its maker
away follows one that does not, and the second step leads to a state with a holder. -/
theorem onward_twice (kind : Kind) : ∀ t ∈ (chain kind).transitions,
    ∀ s ∈ (chain kind).state? t.fromStateId, ∀ code ∈ onward kind t.action s.code,
      ∃ s' ∈ (chain kind).state? t.toStateId, s'.code = code ∧ s'.isApprovalGate = true ∧
        s'.kind ≠ .terminal ∧ ¬ blank s'.requiredPermission ∧
        (s'.enforceSegregation = true → s.enforceSegregation = true) ∧
        ∃ t' ∈ (chain kind).transitions, t'.fromStateId = s'.id ∧ t'.action = t.action := by
  cases kind <;> decide

theorem amountGuard_chain (kind : Kind) : ∀ t ∈ (chain kind).transitions,
    t.minAmount = none ∧ t.maxAmount = none := by
  cases kind <;> decide

/-- The comment a second step asks for. -/
theorem comment_chain (kind : Kind) : ∀ t ∈ (chain kind).transitions,
    ∀ s ∈ (chain kind).state? t.fromStateId, s.requiresComment = false ∧
      (t.action = .return → t.requiresComment = true) ∧
      (t.action = .approve → (t.requiresComment = true ↔ s.code = .certifyC)) := by
  cases kind <;> decide

/-- Where an approval or a return out of a gate leads, a holder is known without a search, unless it
is the gate the other one of the two is signed at. -/
theorem landing_chain (kind : Kind) : ∀ t ∈ (chain kind).transitions,
    t.action = .approve ∨ t.action = .return →
      ∀ s ∈ (chain kind).state? t.toStateId, s.code ≠ .cancelled := by
  cases kind <;> decide

theorem holder_chain (kind : Kind) : ∀ t ∈ (chain kind).transitions,
    ∀ t' ∈ (chain kind).transitions, t'.fromStateId = t.toStateId → t'.action = t.action →
      ∀ s ∈ (chain kind).state? t'.toStateId, s.kind = .terminal ∨
        s.code ∈ (vocabulary kind).claimant ∨ s.code ∈ (vocabulary kind).external := by
  cases kind <;> decide

theorem code_inj (kind : Kind) : ∀ s ∈ (chain kind).states, ∀ s' ∈ (chain kind).states,
    s.code = s'.code → s = s' := by
  cases kind <;> decide

/-! ## What a claim action leaves -/

section

variable {env env' : Env} {σ σ₁ σ' : Store} {r : ActionRequest} {claim after priced : Claim} {j : ℕ}
  {inst inst' : Instance} {amount : Option ℤ} {v : Published Status} {e : Event}
  {dest : State Status} {returns : List ReturnEvent}

/-- The claim keeps its link, so its state is that of the instance the engine left. -/
theorem Acted.stateOf
    (h : Acted env r σ claim j inst σ₁ priced amount v e inst' dest returns σ') :
    σ'.stateOf r.claimId = some inst'.currentStateId := by
  obtain ⟨after, due, hafter, -, -, hlive⟩ := h.leaves
  simp [Store.stateOf, hafter, hlive, (quiet_stamped _ _ _ _).state]

/-- An action whose key labels an event leaves the instance where it is. -/
theorem stateOf_of_replayed (hok : claimAction env r σ = .ok σ')
    (hclaim : σ.claims[r.claimId]? = some claim) (hinst : σ.instanceOf claim = some inst)
    (hreplay : replayed inst (r.key inst) = some e) :
    σ'.stateOf r.claimId = some inst.currentStateId := by
  obtain ⟨claim', j, inst₀, σ₁, priced, amount, v, e', inst', dest, returns, ha⟩ :=
    claimAction_acted hok
  obtain rfl := Option.some.inj (hclaim.symm.trans ha.row)
  obtain rfl := Option.some.inj (hinst.symm.trans ha.instanceOf)
  rw [ha.stateOf]
  rcases executeAction_cases ha.performed.exec with ⟨-, rfl⟩ | ⟨current, t, out, entered, hfired, -⟩
  · rfl
  · have hnone : replayed inst (r.key inst) = none := hfired.fresh
    rw [hreplay] at hnone
    cases hnone

/-- An action that is no resubmission prepares nothing: the engine runs on the store as it is. -/
theorem Acted.unprepared
    (h : Acted env r σ claim j inst σ₁ priced amount v e inst' dest returns σ')
    (hverb : r.action ≠ .resubmit) : σ = σ₁ ∧ claim = priced ∧ inst.amount = amount := by
  have hσ : σ₁ = σ := by
    rcases prepareAction_eq_ok.1 h.prepared with ⟨hresubmit, -⟩ | ⟨-, hσ, -⟩
    · exact absurd hresubmit hverb
    · exact hσ
  subst hσ
  have hlive := Option.some.inj (h.live.symm.trans h.performed.live)
  exact ⟨rfl, Option.some.inj (h.row.symm.trans h.performed.row),
    congrArg Instance.amount hlive⟩

theorem Performed.tables {i : ℕ} {q : Request}
    (h : Performed env σ i j q claim inst v e inst' dest returns σ') :
    σ'.items = σ.items ∧ σ'.advances = σ.advances := by
  obtain ⟨claims, history, -, rfl⟩ := h.result
  exact ⟨rfl, rfl⟩

/-! ## What the belts read -/

theorem maySeeClaim_congr {inst₁ : Instance} {actor : ℕ} (hbody : after.body = claim.body)
    (hinst : σ.instanceOf claim = some inst) (hinst₁ : σ'.instanceOf after = some inst₁)
    (hunit : inst₁.orgUnitId = inst.orgUnitId) :
    maySeeClaim env σ' after actor = maySeeClaim env σ claim actor := by
  have hclaimant : after.claimantId = claim.claimantId := by
    have := congrArg Claim.claimantId hbody
    exact this
  have hunits : claimUnit env σ' after = claimUnit env σ claim := by
    unfold Store.instanceOf at hinst hinst₁
    simp only [claimUnit, hinst, hinst₁, Option.bind_some, hunit, hclaimant]
  simp only [maySeeClaim, isClaimOwner, hunits, hclaimant]

theorem moneyRecorded_congr (hbody : after.body = claim.body) (hadv : σ'.advances = σ.advances) :
    moneyRecorded σ' after = moneyRecorded σ claim := by
  have hkind : after.kind = claim.kind := by
    have := congrArg Claim.kind hbody
    exact this
  have hlinked : after.cashAdvanceId = claim.cashAdvanceId := by
    have := congrArg Claim.cashAdvanceId hbody
    exact this
  have hpayout : after.payoutRef = claim.payoutRef := by
    have := congrArg Claim.payoutRef hbody
    exact this
  simp only [moneyRecorded, hkind, assertAdvanceSettled, assertPayoutRecorded, hlinked, hpayout,
    hadv]

theorem packet_congr {i : ℕ} (hitems : σ'.items = σ.items) :
    assertPersistedPacketComplete env σ' i = assertPersistedPacketComplete env σ i := by
  have hblocking : persistedBlocking env σ' i = persistedBlocking env σ i := by
    simp only [persistedBlocking, hitems]
  simp only [assertPersistedPacketComplete, hblocking]

end

/-! ## The first step -/

/-- A new step that is no resubmission: the transition taken, and the store it leaves. -/
structure Stepped (r : ActionRequest) (σ : Store) (claim : Claim) (inst : Instance)
    (current : State Status) (t : Transition) (dest : State Status) (σ₁ : Store) (after : Claim)
    (inst₁ : Instance) : Prop where
  mem : t ∈ (chain claim.kind).transitions
  verb : t.action = r.action
  leaves : (chain claim.kind).state? t.fromStateId = some current
  enters : (chain claim.kind).state? t.toStateId = some dest
  comment : t.requiresComment = true → ¬ blank r.comment
  maker : r.action = .approve → current.enforceSegregation = true →
    inst.originatorUserId ≠ some r.actorUserId
  row : σ₁.claims[r.claimId]? = some after
  body : after.body = claim.body
  shows : after.status = dest.code
  live : σ₁.instanceOf after = some inst₁
  state : inst₁.currentStateId = dest.id
  revision : inst₁.revisionNo = inst.revisionNo
  unit : inst₁.orgUnitId = inst.orgUnitId
  originator : inst₁.originatorUserId = inst.originatorUserId
  events : ∃ e : Event, inst₁.events = inst.events ++ [e] ∧ e.idempotencyKey = r.key inst
  items : σ₁.items = σ.items
  advances : σ₁.advances = σ.advances

section

variable {env env' : Env} {σ σ₁ σ₂ : Store} {r : ActionRequest} {claim after : Claim}
  {inst inst₁ : Instance} {current dest next : State Status} {t : Transition}

theorem claimAction_stepped (hok : claimAction env r σ = .ok σ₁)
    (hclaim : σ.claims[r.claimId]? = some claim) (hinst : σ.instanceOf claim = some inst)
    (hp : Placed claim.kind claim.status inst) (hfresh : replayed inst (r.key inst) = none)
    (hverb : r.action ≠ .resubmit) : ∃ current t dest after inst₁,
      (chain claim.kind).state? inst.currentStateId = some current ∧
        Stepped r σ claim inst current t dest σ₁ after inst₁ := by
  obtain ⟨claim', j, inst', σ', priced, amount, v, e, inst₂, dest, returns, ha⟩ :=
    claimAction_acted hok
  obtain rfl := Option.some.inj (hclaim.symm.trans ha.row)
  obtain rfl := Option.some.inj (hinst.symm.trans ha.instanceOf)
  obtain ⟨rfl, rfl, rfl⟩ := ha.unprepared hverb
  have hexec := ha.performed.exec
  rw [hp.version_eq ha.performed.version] at hexec
  have hrun := ha.engaged (c := ⟨env, .act r⟩)
  rcases hrun.cases hp with ⟨hreplay, -⟩ | ⟨current, t, out, entered, hfired, rfl, hdest⟩
  · have hnone : replayed inst (r.request env inst).idempotencyKey = none := hfresh
    rw [hnone] at hreplay
    cases hreplay
  · have hladder := ladder_chain claim.kind
    obtain ⟨hmem, hfrom, haction⟩ := hfired.transition
    have hmoves := hfired.moves hladder hp.onLadder
    obtain ⟨after, due, hafter, hshows, hbody, hlive⟩ := ha.leaves
    have hq := quiet_stamped claim.kind dest due inst₂
    have hrev : out.revisionNo = inst.revisionNo := hfired.revision.trans (if_neg hverb)
    refine ⟨current, t, dest, after, stamped claim.kind dest due inst₂, hfired.state, hmem, haction,
      ?_, ?_, hfired.commented hexec, fun happ henf => hfired.actor_ne_maker happ henf, hafter, hbody, hshows, hlive,
      ?_, ?_, ?_, ?_, ?_, ha.performed.tables.1, ha.performed.tables.2⟩
    · rw [hfrom, hfired.current_id]
      exact hfired.state
    · rw [← hmoves]
      exact hdest
    · rw [hq.state, hfired.result]
      exact (Version.state?_id hdest).symm
    · rw [hq.revision, hfired.result]
      exact hrev
    · rw [hq.orgUnit, hfired.result]
    · rw [hq.originator, hfired.result]
    · exact ⟨emitEvent current (r.request env inst) out, by rw [stamped_events, hfired.result], rfl⟩

theorem replayed_of_append {key : Option String} {extra : List Event}
    (hevents : inst₁.events = inst.events ++ extra) (h : replayed inst₁ key = none) :
    replayed inst key = none := by
  unfold replayed at h ⊢
  split_ifs at h ⊢
  · rfl
  · rw [hevents, List.find?_append, Option.or_eq_none_iff] at h
    exact h.1

/-- The state the retry starts from. -/
theorem Stepped.state? (h : Stepped r σ claim inst current t dest σ₁ after inst₁) :
    (chain claim.kind).state? inst₁.currentStateId = some dest := by
  rw [h.state, Version.state?_id h.enters]
  exact h.enters

theorem Stepped.kind (h : Stepped r σ claim inst current t dest σ₁ after inst₁) :
    after.kind = claim.kind := by
  have := congrArg Claim.kind h.body
  exact this

/-- The key the retry is sent under. -/
theorem Stepped.key (h : Stepped r σ claim inst current t dest σ₁ after inst₁)
    (hblank : blank r.idempotencyKey) : r.key inst₁ =
      some (actionKey r.action r.claimId inst.revisionNo dest.id r.actorUserId) := by
  rw [ActionRequest.key_of_blank hblank, h.revision, h.state]

theorem Stepped.stateOf (h : Stepped r σ claim inst current t dest σ₁ after inst₁) :
    σ₁.stateOf r.claimId = some inst₁.currentStateId := by
  simp [Store.stateOf, h.row, h.live]

/-! ## The second step -/

/-- The authority the executor asks for at a gate of the table. -/
theorem executedAuthority_gate {dir : Directory} {v : Version Status} {actor : ℕ} {now : Time}
    {t' : Transition} (hverb : t'.action = .approve ∨ t'.action = .return)
    (hperm : ¬ blank dest.requiredPermission) :
    executedAuthority dir v inst dest actor now t' =
      resolveAuthority dir actor dest.requiredPermission inst.orgUnitId v.definitionId now := by
  rcases hverb with h | h
  · simp [executedAuthority, h]
  · simp [executedAuthority, h, orText_of_not_blank hperm]

/-- A retry that moves the instance found all that `ActsAgain` says. -/
theorem Stepped.again_of_moves (h : Stepped r σ claim inst current t dest σ₁ after inst₁)
    (hclaim : σ.claims[r.claimId]? = some claim) (hinst : σ.instanceOf claim = some inst)
    (hstate : (chain claim.kind).state? inst.currentStateId = some current)
    (hfresh : replayed inst (r.key inst) = none) (hblank : blank r.idempotencyKey)
    (hp : Placed claim.kind dest.code inst₁) (hok : claimAction env' r σ₁ = .ok σ₂)
    (hmoves : σ₂.stateOf r.claimId ≠ σ₁.stateOf r.claimId) :
    ActsAgain env' r σ claim inst current dest := by
  obtain ⟨-, after', j, inst', σ', hafter, hsees, hlink, hlive, hallowed, hprep, -⟩ :=
    claimAction_eq_ok.1 hok
  obtain rfl := Option.some.inj (h.row.symm.trans hafter)
  obtain rfl : inst₁ = inst' := by
    have hinst₁ : σ₁.instanceOf after = some inst' := by simp [Store.instanceOf, hlink, hlive]
    exact Option.some.inj (h.live.symm.trans hinst₁)
  obtain ⟨after', j', inst', σ', priced, amount, v, e, inst₂, dest', returns, ha⟩ :=
    claimAction_acted hok
  obtain rfl := Option.some.inj (h.row.symm.trans ha.row)
  obtain rfl := Option.some.inj (hlink.symm.trans ha.link)
  obtain rfl := Option.some.inj (hlive.symm.trans ha.live)
  have hrun := ha.engaged (c := ⟨env', .act r⟩)
  rcases hrun.cases hp with ⟨hreplay, -⟩ | ⟨current', t', out, entered, hfired, -, -⟩
  · refine absurd ?_ hmoves
    rw [stateOf_of_replayed hok h.row h.live hreplay, h.stateOf]
  obtain rfl : dest = current' := Option.some.inj (h.state?.symm.trans hfired.state)
  obtain ⟨hmem', hfrom', haction'⟩ := hfired.transition
  have hsame : t'.action = t.action := haction'.trans h.verb.symm
  have honward := onward_of_twice claim.kind t h.mem t' hmem'
    (by rw [hfrom', Version.state?_id h.enters]) hsame current h.leaves dest h.enters
  obtain ⟨s', hs', -, -, -, hperm, -⟩ :=
    onward_twice claim.kind t h.mem current h.leaves dest.code honward
  obtain rfl := Option.some.inj (h.enters.symm.trans hs')
  rw [h.verb] at honward
  have hverb := onward_verb honward
  have hcomment := comment_chain claim.kind t' hmem' dest
    (by rw [hfrom', Version.state?_id h.enters]; exact h.enters)
  have hexec := ha.performed.exec
  rw [hp.version_eq ha.performed.version] at hexec
  obtain ⟨e', hevents, -⟩ := h.events
  refine ⟨hclaim, hinst, hfresh, hstate, List.mem_of_find?_eq_some h.enters, honward, ?_, ?_, ?_, ?_,
    ?_, ?_, ?_⟩
  · rw [← h.key hblank]
    exact replayed_of_append hevents hfired.fresh
  · rw [← maySeeClaim_congr h.body hinst h.live h.unit]
    exact hsees
  · have hauth := hfired.authorized (hp.quiet (quiet_setAmount inst₁ amount) id).onLadder.pinned
    rw [executedAuthority_gate (by rw [haction']; exact hverb) hperm] at hauth
    rw [← h.unit]
    exact hauth
  · intro hcode
    refine hfired.commented hexec ?_
    rcases hverb with happ | hret
    · exact (hcomment.2.2 (haction'.trans happ)).2 hcode
    · exact hcomment.2.1 (haction'.trans hret)
  · intro happ
    rcases prepareAction_eq_ok.1 hprep with ⟨hresubmit, -⟩ | ⟨-, -, happroved⟩
    · rw [happ] at hresubmit
      cases hresubmit
    · rw [← packet_congr h.items]
      exact (approveAllowed_eq_ok.1 (happroved happ)).1
  · intro happ hcode
    rcases prepareAction_eq_ok.1 hprep with ⟨hresubmit, -⟩ | ⟨-, -, happroved⟩
    · rw [happ] at hresubmit
      cases hresubmit
    · rw [← moneyRecorded_congr h.body h.advances]
      exact (approveAllowed_eq_ok.1 (happroved happ)).2 (h.shows.trans hcode)
  · intro hret
    simpa [actionAllowed, hret] using hallowed

/-- A move between two statuses that are not `cancelled` keeps the unique indexes. -/
theorem Indexed.mirror {claims : List Claim} {i : ℕ} {holder : Option HolderKind × Option ℕ}
    {now : Time} (h : Indexed claims) (hrow : claims[i]? = some claim)
    (hlive : claim.status ≠ .cancelled) (hdest : dest.code ≠ .cancelled) :
    Indexed (claims.modify i (Claim.mirror dest holder now)) where
  refNo := by
    rw [filterMap_modify_of_eq hrow rfl]
    exact h.refNo
  link := by
    rw [filterMap_modify_of_eq hrow rfl]
    exact h.link
  spawn := by
    rw [filterMap_modify_of_eq hrow (by simp [Claim.liveSpawn, Claim.mirror, hlive, hdest])]
    exact h.spawn
  liquidation := by
    rw [filterMap_modify_of_eq hrow (by simp [Claim.liveLiquidation, Claim.mirror, hlive, hdest])]
    exact h.liquidation

/-- A terminal, the traveller's or FMS's state has its holder without a search. -/
theorem resolveHolder_ok (h : dest.kind = .terminal ∨ dest.code ∈ (vocabulary claim.kind).claimant ∨
    dest.code ∈ (vocabulary claim.kind).external) :
    ∃ holder, resolveHolder env claim inst dest = .ok holder := by
  simp only [resolveHolder]
  split_ifs with hterm hclaimant hexternal
  · exact ⟨_, rfl⟩
  · exact ⟨_, rfl⟩
  · exact ⟨_, rfl⟩
  · exact absurd h (by tauto)

theorem actionKey_not_blank {action : Action} {i rev st actor : ℕ} :
    ¬ blank (some (actionKey action i rev st actor)) := by
  rintro (h | h)
  · cases h
  · have hparts := joinColon_inj (by simp) (by simp)
      (colonFree_cons (colonFree_action action) (colonFree_nats [i, rev, st, actor]))
      (colonFree_cons (s := "") (by simp [ColonFree]) (colonFree_nats []))
      ((Option.some.inj h).trans (by decide : "" = joinColon [""]))
    simpa using congrArg List.length hparts

/-- The retry's default key is new: no earlier event has it, and the first try's names the state it
left. -/
theorem Stepped.new_key (h : Stepped r σ claim inst current t dest σ₁ after inst₁)
    (hblank : blank r.idempotencyKey) (ha : ActsAgain env' r σ claim inst current dest) :
    ∀ x ∈ inst₁.events, x.idempotencyKey ≠ r.key inst₁ := by
  have hkey : r.key inst₁ = _ := h.key hblank
  obtain ⟨e, hevents, hlabel⟩ := h.events
  have hunused := ha.key
  rw [← hkey] at hunused
  intro x hx hxkey
  rw [hevents] at hx
  rcases List.mem_append.1 hx with hx | hx
  · have hsome : ¬ blank (r.key inst₁) := by
      rw [hkey]
      exact actionKey_not_blank
    rw [replayed, if_neg hsome, List.find?_eq_none] at hunused
    exact hunused x hx (by simpa using hxkey)
  · rw [List.mem_singleton.1 hx, hlabel, hkey, ActionRequest.key_of_blank hblank] at hxkey
    have hstates := (actionKey_inj (Option.some.inj hxkey)).2
    have hleaves := (ladder_chain claim.kind).leaves t h.mem
    have hcurrent : t.fromStateId = inst.currentStateId := by
      rw [← Version.state?_id h.leaves, ← Version.state?_id ha.state]
    rw [hcurrent, ← Version.state?_id h.enters] at hleaves
    exact hleaves hstates.symm

/-- The engine takes the retry where `ActsAgain` holds, and leaves the gate. -/
theorem Stepped.engine_again (h : Stepped r σ claim inst current t dest σ₁ after inst₁)
    (hblank : blank r.idempotencyKey) (hversion : r.expectedVersion = none)
    (hp : Placed claim.kind dest.code inst₁) (ha : ActsAgain env' r σ claim inst current dest) :
    ∃ t' out entered inst₂,
      Fired env'.directory (chain claim.kind).toVersion inst₁ (r.request env' inst₁) dest t' out
        entered inst₂ ∧
      executeAction env'.directory (chain claim.kind).toVersion inst₁ (r.request env' inst₁) =
        .ok (emitEvent dest (r.request env' inst₁) out, inst₂) := by
  have honward := ha.onward
  rw [← h.verb] at honward
  obtain ⟨s', hs', -, hgate, hopen, hperm, hmaker, t₀, ht₀, hfrom₀, hact₀⟩ :=
    onward_twice claim.kind t h.mem current h.leaves dest.code honward
  obtain rfl := Option.some.inj (h.enters.symm.trans hs')
  obtain ⟨hmin, hmax⟩ := amountGuard_chain claim.kind t₀ ht₀
  have hguard : amountGuardPasses t₀ inst₁.amount = true := by
    simp [amountGuardPasses, hmin, hmax]
  obtain ⟨t', hsel⟩ := exists_selectTransition ht₀ hfrom₀ hguard
  rw [hact₀, h.verb] at hsel
  obtain ⟨hmem', hfrom', haction', -⟩ := selectTransition_mem (r := r.request env' inst₁) hsel
  have hverb := onward_verb ha.onward
  have hcomment := comment_chain claim.kind t' hmem' dest
    (by rw [hfrom', Version.state?_id h.enters]; exact h.enters)
  have hroute : route (chain claim.kind).toVersion inst₁ (r.request env' inst₁) =
      .ok (dest, t') := by
    refine route_eq_ok.2 ⟨?_, h.state?, hopen, hsel, ?_⟩
    · intro n hn
      rw [ActionRequest.request, hversion] at hn
      cases hn
    · rintro ⟨hreq, hnone⟩
      have hasked : t'.requiresComment = true := hreq.resolve_right (by simp [hcomment.1])
      rcases hverb with happ | hret
      · exact ha.comment ((hcomment.2.2 (haction'.trans happ)).1 hasked) hnone
      · have hfirst := comment_chain claim.kind t h.mem current h.leaves
        exact h.comment (hfirst.2.1 (h.verb.trans hret)) hnone
  have hnew := h.new_key hblank ha
  have hreplay : replayed inst₁ (r.key inst₁) = none := by
    unfold replayed
    split_ifs
    · rfl
    · rw [List.find?_eq_none]
      intro x hx
      simpa using hnew x hx
  have hadmitted : Admitted env'.directory (chain claim.kind).toVersion inst₁
      (r.request env' inst₁) dest t' := by
    refine ⟨?_, fun _ => hgate, fun happ => ?_⟩
    · rw [executedAuthority_gate (by rw [haction']; exact hverb) hperm, h.unit]
      exact ha.authority
    · rintro ⟨henf, hmade⟩
      rw [h.originator] at hmade
      exact h.maker happ (hmaker henf) hmade
  obtain ⟨e₂, inst₂, hexec⟩ := hp.onLadder.accepts hreplay (.inr hnew) hroute hadmitted
  rcases executeAction_cases hexec with ⟨hsome, -⟩ | ⟨current', t'', out, entered, hfired, rfl⟩
  · have hnone : replayed inst₁ (r.request env' inst₁).idempotencyKey = none := hreplay
    rw [hnone] at hsome
    cases hsome
  · obtain rfl := Option.some.inj (h.state?.symm.trans hfired.state)
    exact ⟨t'', out, entered, inst₂, hfired, hexec⟩

/-- The retry finds the packet and the money as the first try left them. -/
theorem Stepped.prepares_again (h : Stepped r σ claim inst current t dest σ₁ after inst₁)
    (ha : ActsAgain env' r σ claim inst current dest) (j : ℕ) :
    prepareAction env' σ₁ after j r = .ok σ₁ := by
  refine prepareAction_eq_ok.2 (.inr ⟨?_, rfl, fun happ => approveAllowed_eq_ok.2 ⟨?_, ?_⟩⟩)
  · rcases onward_verb ha.onward with hv | hv <;> rw [hv] <;> decide
  · rw [packet_congr h.items]
    exact ha.packet happ
  · intro hstatus
    rw [moneyRecorded_congr h.body h.advances]
    exact ha.money happ (h.shows.symm.trans hstatus)

/-- Where `ActsAgain` holds the retry returns and moves the instance. -/
theorem Stepped.moves_of_again (h : Stepped r σ claim inst current t dest σ₁ after inst₁)
    (hblank : blank r.idempotencyKey) (hversion : r.expectedVersion = none)
    (hp : Placed claim.kind dest.code inst₁) (hidx : Indexed σ₁.claims)
    (ha : ActsAgain env' r σ claim inst current dest) :
    ∃ σ₂, claimAction env' r σ₁ = .ok σ₂ ∧ σ₂.stateOf r.claimId ≠ σ₁.stateOf r.claimId := by
  obtain ⟨t', out, entered, inst₂, hfired, hexec⟩ := h.engine_again hblank hversion hp ha
  have hladder := ladder_chain claim.kind
  have hverb := onward_verb ha.onward
  obtain ⟨hmem', hfrom', haction'⟩ := hfired.transition
  obtain ⟨dest', hdest', -⟩ := hfired.enters_next hladder hp.onLadder
  have hmoves := hfired.moves hladder hp.onLadder
  have htarget : eventState (emitEvent dest (r.request env' inst₁) out) = .ok dest' := by
    refine eventState_eq_ok.2 ⟨out.newStateId, rfl, state?_chain claim.kind ?_⟩
    rw [hmoves]
    exact hdest'
  obtain ⟨j, hlink, hlive⟩ : ∃ j, after.workflowInstanceId = some j ∧
      σ₁.instances[j]? = some inst₁ := Option.bind_eq_some_iff.1 h.live
  have hsame : t'.action = t.action := haction'.trans h.verb.symm
  have hfromTo : t'.fromStateId = t.toStateId := by rw [hfrom', Version.state?_id h.enters]
  -- the claim is live on both sides of the move, and its next holder is known
  have hlive₁ : after.status ≠ .cancelled := by
    rw [h.shows]
    exact landing_chain claim.kind t h.mem (by rw [h.verb]; exact hverb) dest h.enters
  have hlive₂ : dest'.code ≠ .cancelled :=
    landing_chain claim.kind t' hmem' (by rw [haction']; exact hverb) dest' hdest'
  obtain ⟨holder, hholder⟩ : ∃ holder, resolveHolder env' after inst₂ dest' = .ok holder := by
    refine resolveHolder_ok ?_
    rw [h.kind]
    exact holder_chain claim.kind t h.mem t' hmem' hfromTo hsame dest' hdest'
  obtain ⟨claims, history, hmirror⟩ : ∃ claims history, Mirrored env' σ₁ r.claimId after inst₂ dest'
      (emitEvent dest (r.request env' inst₁) out) (env'.at (r.request env' inst₁).now) claims
      history := by
    by_cases hcode : dest'.code = after.status
    · exact ⟨_, _, .inl ⟨hcode, rfl, rfl⟩⟩
    · exact ⟨_, _, .inr ⟨hcode, holder, hholder, rfl, rfl, hidx.mirror h.row hlive₁ hlive₂⟩⟩
  obtain ⟨returns, hrecord⟩ : ∃ returns, returnRecord r
      (inst₁.events.any (·.idempotencyKey = r.key inst₁))
      (emitEvent dest (r.request env' inst₁) out) inst₂ = .ok returns := by
    unfold returnRecord
    split_ifs
    · rw [htarget]
      exact ⟨_, rfl⟩
    · exact ⟨_, rfl⟩
  have hversion₁ : version? inst₁.definitionVersionId = some (chain claim.kind) := by
    rw [hp.onLadder.version]
    exact version?_chain claim.kind
  have hperformed : ∃ σ₂, Performed env' σ₁ r.claimId j (r.request env' inst₁) after inst₁
      (chain claim.kind) (emitEvent dest (r.request env' inst₁) out) inst₂ dest' returns σ₂ :=
    ⟨_, h.row, hlive, hversion₁, hexec, htarget, claims, history, hmirror, rfl⟩
  obtain ⟨σ₂, hperformed⟩ := hperformed
  have hact : claimAction env' r σ₁ = .ok σ₂ := by
    refine claimAction_eq_ok.2 ⟨?_, after, j, inst₁, σ₁, h.row, ?_, hlink, hlive, ?_, ?_, ?_⟩
    · rcases hverb with hv | hv <;> rw [hv] <;> decide
    · rw [maySeeClaim_congr h.body ha.live h.live h.unit]
      exact ha.sees
    · rcases hverb with hv | hv
      · simp [actionAllowed, hv]
      · simpa [actionAllowed, hv] using ha.reasons hv
    · exact h.prepares_again ha j
    · refine (performAction_eq_ok fun c hc => ?_).2
        ⟨after, inst₁, chain claim.kind, _, inst₂, dest', returns, hrecord, hperformed⟩
      rw [← Option.some.inj (h.row.symm.trans hc)]
      exact hlink
  refine ⟨σ₂, hact, ?_⟩
  obtain ⟨after', j', inst', σ', priced, amount, v, e, inst₃, dest₃, returns', hacted⟩ :=
    claimAction_acted hact
  obtain rfl := Option.some.inj (h.row.symm.trans hacted.row)
  obtain rfl := Option.some.inj (hlink.symm.trans hacted.link)
  obtain rfl := Option.some.inj (hlive.symm.trans hacted.live)
  have hnot : r.action ≠ .resubmit := by
    rcases hverb with hv | hv <;> rw [hv] <;> decide
  obtain ⟨rfl, rfl, rfl⟩ := hacted.unprepared hnot
  have hexec' := hacted.performed.exec
  obtain rfl := Option.some.inj (hversion₁.symm.trans hacted.performed.version)
  obtain ⟨-, rfl⟩ := Prod.mk.inj (Except.ok.inj (hexec.symm.trans hexec'))
  rw [hacted.stateOf, h.stateOf, h.state, hfired.result]
  intro heq
  exact hfired.leaves hladder hp.onLadder (Option.some.inj heq)

end

section

variable {env env' : Env} {σ σ₁ σ₂ : Store} {r : ActionRequest} {claim after : Claim}
  {inst inst₁ : Instance} {current dest next : State Status} {t : Transition}

/-- The gate of the table is the one the first step leads to. -/
theorem Stepped.next_eq (h : Stepped r σ claim inst current t dest σ₁ after inst₁)
    (hgate : next ∈ (chain claim.kind).states)
    (honward : onward claim.kind r.action current.code = some next.code) : next = dest := by
  rw [← h.verb] at honward
  obtain ⟨s', hs', hcode, -⟩ := onward_twice claim.kind t h.mem current h.leaves next.code honward
  obtain rfl := Option.some.inj (h.enters.symm.trans hs')
  exact code_inj claim.kind next hgate dest (List.mem_of_find?_eq_some h.enters) hcode.symm

/-- A replayed action is replayed again by its retry. -/
theorem replayed_again {e : Event} (hok : claimAction env r σ = .ok σ₁)
    (hclaim : σ.claims[r.claimId]? = some claim) (hinst : σ.instanceOf claim = some inst)
    (hreplay : replayed inst (r.key inst) = some e) :
    ∃ after inst₁, σ₁.claims[r.claimId]? = some after ∧ σ₁.instanceOf after = some inst₁ ∧
      replayed inst₁ (r.key inst₁) = some e := by
  obtain ⟨claim', j, inst₀, σ', priced, amount, v, e', inst', dest, returns, ha⟩ :=
    claimAction_acted hok
  obtain rfl := Option.some.inj (hclaim.symm.trans ha.row)
  obtain rfl := Option.some.inj (hinst.symm.trans ha.instanceOf)
  obtain ⟨after, due, hafter, -, -, hlive⟩ := ha.leaves
  refine ⟨after, _, hafter, hlive, ?_⟩
  rcases executeAction_cases ha.performed.exec with ⟨-, rfl⟩ | ⟨current, t, out, entered, hfired, -⟩
  · have hq := quiet_stamped claim.kind dest due { inst with amount := amount }
    have hkey : r.key (stamped claim.kind dest due { inst with amount := amount }) = r.key inst := by
      simp only [ActionRequest.key, hq.revision, hq.state]
    rw [hkey]
    simpa only [replayed, stamped_events] using hreplay
  · have hnone : replayed inst (r.key inst) = none := hfired.fresh
    rw [hreplay] at hnone
    cases hnone

theorem resubmit_once (kind : Kind) : ∀ t ∈ (chain kind).transitions,
    ∀ t' ∈ (chain kind).transitions, t.action = .resubmit → t'.action = .resubmit →
      t'.fromStateId ≠ t.toStateId := by
  cases kind <;> decide

/-- No instance is resubmitted twice in a row. -/
theorem resubmit_stays (hok : claimAction env r σ = .ok σ₁) (hok₂ : claimAction env' r σ₁ = .ok σ₂)
    (hverb : r.action = .resubmit) (hclaim : σ.claims[r.claimId]? = some claim)
    (hinst : σ.instanceOf claim = some inst) (hp : Placed claim.kind claim.status inst)
    (hfresh : replayed inst (r.key inst) = none) (hafter : σ₁.claims[r.claimId]? = some after)
    (hinst₁ : σ₁.instanceOf after = some inst₁) (hp₁ : Placed claim.kind after.status inst₁) :
    σ₂.stateOf r.claimId = σ₁.stateOf r.claimId := by
  have hstate : σ₁.stateOf r.claimId = some inst₁.currentStateId := by
    simp [Store.stateOf, hafter, hinst₁]
  obtain ⟨claim', j, inst₀, σ', priced, amount, v, e, inst', dest, returns, ha⟩ :=
    claimAction_acted hok
  obtain rfl := Option.some.inj (hclaim.symm.trans ha.row)
  obtain rfl := Option.some.inj (hinst.symm.trans ha.instanceOf)
  have hrun := ha.engaged (c := ⟨env, .act r⟩)
  obtain ⟨after', j', inst₀, σ'', priced', amount', v', e', inst'', dest', returns', ha'⟩ :=
    claimAction_acted hok₂
  obtain rfl := Option.some.inj (hafter.symm.trans ha'.row)
  obtain rfl := Option.some.inj (hinst₁.symm.trans ha'.instanceOf)
  have hrun' := ha'.engaged (c := ⟨env', .act r⟩)
  rcases hrun'.cases hp₁ with ⟨hreplay, -⟩ | ⟨current', t', out', entered', hfired', -, -⟩
  · rw [stateOf_of_replayed hok₂ hafter hinst₁ hreplay, hstate]
  rcases hrun.cases hp with ⟨hreplay, -⟩ | ⟨current, t, out, entered, hfired, -, -⟩
  · have hnone : replayed inst (r.request env inst).idempotencyKey = none := hfresh
    rw [hnone] at hreplay
    cases hreplay
  -- the second transition would start where the first one ended
  have hladder := ladder_chain claim.kind
  have hmoves := hfired.moves hladder (hp.quiet (quiet_setAmount inst amount) id).onLadder
  have hplace : inst₁.currentStateId = t.toStateId := by
    have hleft := ha.stateOf
    rw [hstate, hfired.result] at hleft
    exact (Option.some.inj hleft).trans hmoves
  obtain ⟨hmem, -, haction⟩ := hfired.transition
  obtain ⟨hmem', hfrom', haction'⟩ := hfired'.transition
  refine absurd ?_ (resubmit_once claim.kind t hmem t' hmem' (haction.trans hverb)
    (haction'.trans hverb))
  rw [hfrom', hfired'.current_id]
  exact hplace

end

/-- After a first success, the same request sent again leaves the instance where it is or raises,
exactly when it does not act again. -/
theorem retry_harmless_iff (calls : List Call) (env env' : Env) (r : ActionRequest) (σ₁ : Store)
    (hkey : blank r.idempotencyKey) (hversion : r.expectedVersion = none)
    (hok : claimAction env r (runStore calls) = .ok σ₁) :
    (∀ σ₂, claimAction env' r σ₁ = .ok σ₂ → σ₂.stateOf r.claimId = σ₁.stateOf r.claimId) ↔
      ¬ ∃ claim inst current next,
        ActsAgain env' r (runStore calls) claim inst current next := by
  obtain ⟨claim, j, inst, _, _, _, _, e, inst', _, _, hacted⟩ := claimAction_acted hok
  obtain ⟨inst₀, hinst₀, hp⟩ := placed_runStore calls hacted.row hacted.link
  obtain rfl := Option.some.inj (hacted.live.symm.trans hinst₀)
  have hlive := hacted.instanceOf
  have hreach : runStore (calls ++ [⟨env, .act r⟩]) = σ₁ := by
    rw [runStore, run_append, run_cons, run_nil]
    exact commit_of_ok hok
  have hrows : ∀ claim' inst' current next,
      ActsAgain env' r (runStore calls) claim' inst' current next →
        claim' = claim ∧ inst' = inst := by
    intro claim' inst' current next ha
    obtain rfl := Option.some.inj (hacted.row.symm.trans ha.row)
    exact ⟨rfl, Option.some.inj (ha.live.symm.trans hlive)⟩
  have hidx : Indexed σ₁.claims := by
    rw [← hreach]
    exact (regular_runStore _).indexed
  -- the store after the first call is reachable too, so the claim stands in its place there
  have hplaced : ∀ after inst₁, σ₁.claims[r.claimId]? = some after →
      σ₁.instanceOf after = some inst₁ → Placed after.kind after.status inst₁ := by
    intro after inst₁ hafter hinst₁
    obtain ⟨k, hlink, hlive₁⟩ := Option.bind_eq_some_iff.1 hinst₁
    rw [← hreach] at hafter hlive₁
    obtain ⟨inst₂, hinst₂, hp₂⟩ := placed_runStore _ hafter hlink
    obtain rfl := Option.some.inj (hlive₁.symm.trans hinst₂)
    exact hp₂
  cases hreplay : replayed inst (r.key inst) with
  | some e₀ =>
      obtain ⟨after, inst₁, hafter, hinst₁, hagain⟩ := replayed_again hok hacted.row hlive hreplay
      constructor
      · rintro - ⟨claim', inst', current, next, ha⟩
        obtain ⟨rfl, rfl⟩ := hrows _ _ _ _ ha
        rw [ha.fresh] at hreplay
        cases hreplay
      · intro _ σ₂ hok₂
        rw [stateOf_of_replayed hok₂ hafter hinst₁ hagain]
        simp [Store.stateOf, hafter, hinst₁]
  | none =>
      by_cases hverb : r.action = .resubmit
      · constructor
        · rintro - ⟨claim', inst', current, next, ha⟩
          rcases onward_verb ha.onward with h | h <;> rw [hverb] at h <;> cases h
        · intro _ σ₂ hok₂
          obtain ⟨after, k, inst₁, _, _, _, _, _, _, _, _, hacted₂⟩ := claimAction_acted hok₂
          have hinst₁ := hacted₂.instanceOf
          have hkind : after.kind = claim.kind := by
            obtain ⟨after', hafter', -, hbody⟩ := hacted.performed.claim_after
            obtain rfl := Option.some.inj (hafter'.symm.trans hacted₂.row)
            have hkept := congrArg Claim.kind hbody
            exact hkept.trans (congrArg Spine.kind hacted.spine)
          have hp₁ := hplaced after inst₁ hacted₂.row hinst₁
          rw [hkind] at hp₁
          exact resubmit_stays hok hok₂ hverb hacted.row hlive hp hreplay hacted₂.row hinst₁ hp₁
      · obtain ⟨current, t, dest, after, inst₁, hstate, h⟩ :=
          claimAction_stepped hok hacted.row hlive hp hreplay hverb
        have hp₁ := hplaced after inst₁ h.row h.live
        rw [h.kind, h.shows] at hp₁
        constructor
        · rintro hsame ⟨claim', inst', current', next, ha⟩
          obtain ⟨rfl, rfl⟩ := hrows _ _ _ _ ha
          obtain rfl := Option.some.inj (hstate.symm.trans ha.state)
          obtain rfl := h.next_eq ha.gate ha.onward
          obtain ⟨σ₂, hok₂, hmoves⟩ := h.moves_of_again hkey hversion hp₁ hidx ha
          exact hmoves (hsame σ₂ hok₂)
        · intro hnot σ₂ hok₂
          by_contra hmoves
          exact hnot ⟨claim, inst, current, dest, h.again_of_moves hacted.row hlive hstate hreplay
            hkey hp₁ hok₂ hmoves⟩

/-- The first certification of claim 0, with a remark and no key. -/
def certification : ActionRequest :=
  { claimId := 0, action := .approve, actorUserId := 2, comment := some "certified" }

theorem certification_retry_harmless : ∃ σ₁,
    claimAction office certification (runStore (inOffice (submitTrip 1000))) = .ok σ₁ ∧
    ¬ ∃ claim inst current next, ActsAgain office certification
      (runStore (inOffice (submitTrip 1000))) claim inst current next := by
  obtain ⟨σ₁, hok, hrefused⟩ := exists_eq_ok
    (x := claimAction office certification (runStore (inOffice (submitTrip 1000))))
    (fun σ₁ => (claimAction office certification σ₁).toOption.isNone) (by decide +kernel)
  refine ⟨σ₁, hok, (retry_harmless_iff (inOffice (submitTrip 1000)) office office certification σ₁
    (.inl rfl) rfl hok).1 fun σ₂ hok₂ => ?_⟩
  rw [hok₂] at hrefused
  cases hrefused

/-- The office when user 2 also stands in for the reviewer. -/
def shortStaffed : Env :=
  { office with
    directory := { office.directory with
      grants := office.directory.grants ++
        [{ userId := 2, permission := reviewPerm, orgUnitId := some 1 }] } }

/-- The same certification sent twice certifies twice. -/
theorem certification_acts_twice : ∃ σ₁ σ₂,
    claimAction shortStaffed certification (runStore (inOffice (submitTrip 1000))) = .ok σ₁ ∧
    claimAction shortStaffed certification σ₁ = .ok σ₂ ∧
    σ₂.stateOf certification.claimId ≠ σ₁.stateOf certification.claimId := by
  obtain ⟨σ₁, hok, htwice⟩ := exists_eq_ok
    (x := claimAction shortStaffed certification (runStore (inOffice (submitTrip 1000))))
    (fun σ₁ => (claimAction shortStaffed certification σ₁).toOption.any fun σ₂ =>
      σ₂.stateOf certification.claimId ≠ σ₁.stateOf certification.claimId) (by decide +kernel)
  obtain ⟨σ₂, hok₂, hmoves⟩ := exists_eq_ok _ htwice
  exact ⟨σ₁, σ₂, hok, hok₂, of_decide_eq_true hmoves⟩

end OfficeConnect.Reimbursement
