import OfficeConnect.Workflow.Acceptance
import OfficeConnect.Workflow.FreshApprovals

/-!
# No dead gate

A gate with open slots may still never close: too few slots for its quorum, slots used up by a
transition back to the gate itself, rows left over from an earlier visit.  As long as the entered
gates admit their own join and no gate is used up by a self-loop, the current gate has an open slot
and at most `step_count` further approvals close it.
-/

namespace OfficeConnect.Workflow

open Lib

variable {κ : Type}

/-! ## How many approvals are missing -/

/-- The number of approvals that close a gate with `active` open and `done` completed slots. -/
def shortfall (state : State κ) (active done : ℕ) : ℕ :=
  match state.fanIn with
  | .any => 1
  | .all => active
  | .atLeast quorum => max 1 (quorum - done).toNat

/-- The gate has the slots it needs to close, and needs at most `step_count` approvals. -/
structure Live (state : State κ) (active done : ℕ) : Prop where
  slot : 0 < active
  enough : shortfall state active done ≤ active
  within : (shortfall state active done : ℤ) ≤ state.stepCount

section

variable {state : State κ} {active done : ℕ}

theorem shortfall_pos (state : State κ) (done : ℕ) (h : 0 < active) :
    1 ≤ shortfall state active done := by
  unfold shortfall
  split <;> omega

/-- One more approval closes the gate exactly when one is missing. -/
theorem closes_iff_shortfall (h : 0 < active) :
    state.fanIn.Closes (active - 1) (done + 1) ↔ shortfall state active done = 1 := by
  cases hfan : state.fanIn with
  | any => simp [hfan, shortfall, FanIn.Closes]
  | all =>
      simp only [hfan, shortfall, FanIn.Closes]
      omega
  | atLeast quorum =>
      simp only [hfan, shortfall, FanIn.Closes]
      omega

/-- An approval that leaves the gate open leaves one approval less to go. -/
theorem shortfall_approve (h : 0 < active)
    (hopen : ¬ state.fanIn.Closes (active - 1) (done + 1)) :
    shortfall state (active - 1) (done + 1) + 1 = shortfall state active done := by
  rw [closes_iff_shortfall h] at hopen
  cases hfan : state.fanIn with
  | any => simp [hfan, shortfall] at hopen
  | all =>
      simp only [hfan, shortfall] at hopen ⊢
      omega
  | atLeast quorum =>
      simp only [hfan, shortfall] at hopen ⊢
      omega

theorem Live.approve (hl : Live state active done)
    (hopen : ¬ state.fanIn.Closes (active - 1) (done + 1)) :
    Live state (active - 1) (done + 1) := by
  have hstep := shortfall_approve hl.slot hopen
  rw [closes_iff_shortfall hl.slot] at hopen
  have hpos := shortfall_pos state done hl.slot
  obtain ⟨hslot, henough, hwithin⟩ := hl
  exact ⟨by omega, by omega, by omega⟩

/-- What a gate needs when it is entered with `active` open and `done` completed rows left over from
earlier visits. -/
def Admits (state : State κ) (active done : ℕ) : Prop :=
  state.kind ≠ .terminal ∧ 1 ≤ state.stepCount ∧
    match state.fanIn with
    | .any => True
    | .all => active = 0
    | .atLeast quorum => quorum ≤ state.stepCount + done

theorem Admits.live (h : Admits state active done) :
    Live state (active + (max 1 state.stepCount).toNat) done := by
  obtain ⟨-, hcount, hjoin⟩ := h
  have hboth : shortfall state (active + (max 1 state.stepCount).toNat) done ≤
      (max 1 state.stepCount).toNat := by
    cases hfan : state.fanIn with
    | any =>
        simp only [hfan, shortfall]
        omega
    | all =>
        simp only [hfan, shortfall] at hjoin ⊢
        omega
    | atLeast quorum =>
        simp only [hfan, shortfall] at hjoin ⊢
        omega
  exact ⟨by omega, by omega, by omega⟩

end

/-! ## The invariant -/

/-- Some transition of the version approves out of the state. -/
def Approvable (v : Version κ) (state : State κ) : Prop :=
  ∃ t ∈ v.transitions, t.fromStateId = state.id ∧ t.action = .approve

/-- A gate with an approve transition is only entered when it admits its own join, and it is never
used up by a transition back to itself: by the approval that closes it, a return, a rejection or a
resubmission. -/
def KeepsClearable (v : Version κ) (inst : Instance) (c : Call) : Prop :=
  ∀ dir r current t out entered inst', c = .act dir r →
    Fired dir v inst r current t out entered inst' →
    (out.newStateId ≠ current.id → ∀ next, v.state? out.newStateId = some next →
      next.isApprovalGate = true → Approvable v next →
      Admits next (openSlots out.newStateId out.revisionNo inst.steps)
        (doneSlots out.newStateId out.revisionNo inst.steps).length) ∧
    (t.toStateId = current.id → current.isApprovalGate = true → Approvable v current →
      r.action ≠ .return ∧ r.action ≠ .reject ∧ r.action ≠ .resubmit ∧
      (r.action = .approve → ¬ current.fanIn.Closes
        (openSlots current.id inst.revisionNo inst.steps - 1)
        ((doneSlots current.id inst.revisionNo inst.steps).length + 1)))

/-- The current gate can still be cleared. -/
def Clearable (v : Version κ) (inst : Instance) : Prop :=
  ∀ current, v.state? inst.currentStateId = some current → current.isApprovalGate = true →
    Approvable v current → current.kind ≠ .terminal ∧
      Live current (openSlots current.id inst.revisionNo inst.steps)
        (doneSlots current.id inst.revisionNo inst.steps).length

theorem Quiet.clearable {v : Version κ} {inst inst' : Instance} (h : Quiet inst inst')
    (hl : Clearable v inst) : Clearable v inst' := by
  intro current hcurrent
  rw [h.state] at hcurrent
  rw [h.revision, h.openSlots, h.doneSlots]
  exact hl current hcurrent

section

variable {dir : Directory} {v : Version κ} {inst inst' : Instance} {r : Request}
  {current : State κ} {t : Transition} {out : Outcome} {entered : List Step}

/-- The current gate gains no rows: a move spawns the rows of another state. -/
theorem Fired.openSlots_current (h : Fired dir v inst r current t out entered inst') (rev : ℕ) :
    openSlots current.id rev inst'.steps = openSlots current.id rev out.steps := by
  rcases h.entered_cases with ⟨hstay, -⟩ | ⟨hmoved, next, hnext, hent⟩
  · rw [h.steps_stay hstay]
  · rw [h.result]
    have hne : next.id ≠ current.id := by
      rw [Version.state?_id hnext]
      exact hmoved
    simp [hent, openSlots_activateStateSteps, hne]

/-- A step that stays at a clearable gate keeps it clearable. -/
theorem Fired.live_stay (h : Fired dir v inst r current t out entered inst')
    (hp : Pinned v inst) (hstay : out.newStateId = current.id)
    (hself : t.toStateId = current.id → r.action ≠ .return ∧ r.action ≠ .reject ∧
      r.action ≠ .resubmit ∧ (r.action = .approve → ¬ current.fanIn.Closes
        (openSlots current.id inst.revisionNo inst.steps - 1)
        ((doneSlots current.id inst.revisionNo inst.steps).length + 1)))
    (hl : Live current (openSlots current.id inst.revisionNo inst.steps)
      (doneSlots current.id inst.revisionNo inst.steps).length) :
    Live current (openSlots current.id inst'.revisionNo inst'.steps)
      (doneSlots current.id inst'.revisionNo inst'.steps).length := by
  have hrev : r.action ≠ .resubmit → inst'.revisionNo = inst.revisionNo := by
    intro hresub
    rw [h.result]
    simpa [hresub] using h.revision
  by_cases happ : r.action = .approve
  · obtain ⟨s, -, hperm⟩ := h.doneSlots_approve happ
    have hdone := (hperm current.id inst.revisionNo).length_eq
    rw [if_pos ⟨rfl, rfl⟩, List.length_cons] at hdone
    rw [hrev (by simp [happ]), hdone, h.openSlots_current]
    obtain ⟨hpos, ⟨hcloses, hto, -⟩ | ⟨hopen, -, hless⟩⟩ :=
      h.openSlots_approve happ (hp.uniform h.state)
    · exact absurd hcloses ((hself (hto.symm.trans hstay)).2.2.2 happ)
    · have heq := hless current.id inst.revisionNo
      rw [if_pos ⟨rfl, rfl⟩] at heq
      rw [show openSlots current.id inst.revisionNo out.steps =
        openSlots current.id inst.revisionNo inst.steps - 1 by omega]
      exact hl.approve hopen
  · have hto : t.toStateId = current.id := by
      rcases h.newState with hto | ⟨ha, -⟩
      · exact hto.symm.trans hstay
      · exact absurd ha happ
    obtain ⟨hret, hrej, hresub, -⟩ := hself hto
    rw [hrev hresub, h.doneSlots_other happ, h.openSlots_current,
      h.steps_originator happ hret hrej]
    exact hl

end

theorem Call.apply_clearable {v : Version κ} {inst inst' : Instance} {c : Call}
    (hc : KeepsClearable v inst c) (h : c.apply v inst = .ok inst')
    (hi : Pinned v inst ∧ Clearable v inst) : Pinned v inst' ∧ Clearable v inst' := by
  refine ⟨Call.apply_pinned h hi.1, ?_⟩
  rcases Call.apply_cases h with hq | ⟨dir, r, current, t, out, entered, rfl, hf⟩
  · exact hq.clearable hi.2
  obtain ⟨henter, hself⟩ := hc dir r current t out entered inst' rfl hf
  have hstate : inst'.currentStateId = out.newStateId := by rw [hf.result]
  have hrev : inst'.revisionNo = out.revisionNo := by rw [hf.result]
  intro next hnext hgate happr
  by_cases hstay : out.newStateId = current.id
  · have hsame : next = current := by
      rw [hstate, hstay, hf.current_id, hf.state] at hnext
      exact (Option.some.inj hnext).symm
    subst hsame
    obtain ⟨hkind, hl⟩ := hi.2 next hf.state hgate happr
    exact ⟨hkind, hf.live_stay hi.1 hstay (fun hto => hself hto hgate happr) hl⟩
  · have hid := Version.state?_id hnext
    rw [hstate] at hnext
    have hadmits := henter hstay next hnext hgate happr
    refine ⟨hadmits.1, ?_⟩
    rw [hid, hstate, hrev, hf.openSlots_moved hi.1 hstay hnext, if_pos hgate,
      (hf.doneSlots_moved hstay).length_eq]
    exact hadmits.live

/-! ## Approvals clear the gate -/

/-- A sequence of approvals, each with the directory it finds. -/
abbrev Approvals := List (Directory × Request)

/-- The approvals made one after another, all of which have to return. -/
def approveAll (v : Version κ) (inst : Instance) (calls : Approvals) : Except Raised Instance :=
  calls.foldlM (fun inst p => Prod.snd <$> executeAction p.1 v inst p.2) inst

/-- Commented approvals by distinct people who hold the gate's permission, have filled no slot of it
and are not its maker, under fresh and distinct keys. -/
structure FreshApprovals (v : Version κ) (inst : Instance) (current : State κ)
    (calls : Approvals) : Prop where
  approve : ∀ p ∈ calls, p.2.action = .approve
  plain : ∀ p ∈ calls, p.2.Plain inst
  keys : calls.Pairwise fun p q => q.2.idempotencyKey = none ∨
    p.2.idempotencyKey ≠ q.2.idempotencyKey
  authorized : ∀ p ∈ calls, (resolveAuthority p.1 p.2.actorUserId current.requiredPermission
    inst.orgUnitId v.definitionId (p.2.now.getD p.1.utcNow)).authorized = true
  notMaker : ∀ p ∈ calls,
    ¬ (current.enforceSegregation ∧ inst.originatorUserId = some p.2.actorUserId)
  fresh : ∀ p ∈ calls, some p.2.actorUserId ∉
    (doneSlots current.id inst.revisionNo inst.steps).map Prod.fst
  distinct : (calls.map fun p => p.2.actorUserId).Nodup

section

variable {dir : Directory} {v : Version κ} {inst inst' : Instance} {r : Request}
  {current : State κ} {t : Transition} {out : Outcome} {entered : List Step}

/-- What is fresh for a list of approvals stays fresh for the rest of it after the first. -/
theorem FreshApprovals.tail {calls : Approvals}
    (hf : FreshApprovals v inst current ((dir, r) :: calls))
    (h : Fired dir v inst r current t out entered inst') (ha : r.action = .approve) :
    FreshApprovals v inst' current calls := by
  have hrev : inst'.revisionNo = inst.revisionNo := by
    rw [h.result]
    simpa [ha] using h.revision
  refine ⟨fun p hp => hf.approve p (by simp [hp]), fun p hp => ?_, (List.pairwise_cons.1 hf.keys).2,
    fun p hp => ?_, fun p hp => ?_, fun p hp => ?_, ?_⟩
  · obtain ⟨hcomment, hver, hkey⟩ := hf.plain p (by simp [hp])
    refine ⟨hcomment, hver, ?_⟩
    rcases hkey with hnone | hfresh
    · exact .inl hnone
    rcases (List.pairwise_cons.1 hf.keys).1 p hp with hnone | hne
    · exact .inl hnone
    right
    intro e he
    rw [h.result, List.mem_append, List.mem_singleton] at he
    rcases he with he | rfl
    · exact hfresh e he
    · exact hne
  · have := hf.authorized p (by simp [hp])
    rw [h.result]
    exact this
  · have := hf.notMaker p (by simp [hp])
    rw [h.result]
    exact this
  · obtain ⟨s, -, hperm⟩ := h.doneSlots_approve ha
    have hdone := (hperm current.id inst.revisionNo).map Prod.fst
    rw [if_pos ⟨rfl, rfl⟩] at hdone
    rw [hrev, hdone.mem_iff, List.map_cons, List.mem_cons, not_or]
    refine ⟨fun heq => ?_, hf.fresh p (by simp [hp])⟩
    have hnd := hf.distinct
    rw [List.map_cons, List.nodup_cons] at hnd
    exact hnd.1 (List.mem_map.2 ⟨p, hp, Option.some.inj heq⟩)
  · have hnd := hf.distinct
    rw [List.map_cons, List.nodup_cons] at hnd
    exact hnd.2

/-- The approval that closes the gate leaves its rows satisfying the join. -/
theorem Fired.joinSatisfied_closed (h : Fired dir v inst r current t out entered inst')
    (hp : Pinned v inst) (ha : r.action = .approve)
    (hone : current.fanIn.Closes (openSlots current.id inst.revisionNo inst.steps - 1)
      ((doneSlots current.id inst.revisionNo inst.steps).length + 1)) :
    joinSatisfied (inst'.gateSteps current.id inst.revisionNo) = true ∧
      inst'.currentStateId = t.toStateId := by
  obtain ⟨-, ⟨-, hto, hopen⟩ | ⟨hnot, -, -⟩⟩ := h.openSlots_approve ha (hp.uniform h.state)
  · have hstate : inst'.currentStateId = t.toStateId := by
      rw [h.result]
      exact hto
    refine ⟨?_, hstate⟩
    have hpin : ∀ s ∈ inst'.steps, s.At current.id inst.revisionNo →
        s.joinType = current.joinType ∧ s.quorumCount = current.quorumCount := by
      intro s hs hat
      obtain ⟨-, -, state, hst, -, hjoin, hquorum, -⟩ := h.pinned hp s hs
      rw [hat.1, h.current_id, h.state] at hst
      obtain rfl := Option.some.inj hst
      exact ⟨hjoin, hquorum⟩
    obtain ⟨s, -, hperm⟩ := h.doneSlots_approve ha
    have hdone := (hperm current.id inst.revisionNo).length_eq
    rw [if_pos ⟨rfl, rfl⟩, List.length_cons] at hdone
    rw [Instance.gateSteps, joinSatisfied_gateRows hpin, hdone, h.openSlots_current, hopen,
      if_pos ⟨rfl, rfl⟩]
    change current.fanIn.Closes _ _
    cases hfan : current.fanIn with
    | any => simp [FanIn.Closes]
    | all => simp [FanIn.Closes]
    | atLeast quorum =>
        simp only [hfan, FanIn.Closes] at hone ⊢
        omega
  · exact absurd hone hnot

end

section

variable [ToString κ] {v : Published κ}

/-- The first of a list of fresh approvals takes the approve transition of the gate. -/
theorem FreshApprovals.fires {inst : Instance} {current : State κ} {t : Transition}
    {dir : Directory} {r : Request} {calls : Approvals}
    (hf : FreshApprovals v.toVersion inst current ((dir, r) :: calls))
    (hp : Pinned v.toVersion inst) (hs : Signed v.toVersion inst)
    (hstate : v.state? inst.currentStateId = some current) (hkind : current.kind ≠ .terminal)
    (hsel : selectTransition v.toVersion inst current .approve = some t)
    (hopen : 0 < openSlots current.id inst.revisionNo inst.steps) :
    r.action = .approve ∧ ∃ e inst' out entered,
      executeAction dir v.toVersion inst r = .ok (e, inst') ∧
      Fired dir v.toVersion inst r current t out entered inst' := by
  have hmem : (dir, r) ∈ (dir, r) :: calls := by simp
  have ha : r.action = .approve := hf.approve _ hmem
  obtain ⟨e, inst', hex⟩ := approve_accepts hp hs (hf.plain _ hmem) ha hstate hkind hsel hopen
    (hf.fresh _ hmem) (hf.notMaker _ hmem) (hf.authorized _ hmem)
  rcases executeAction_cases hex with ⟨hsome, -⟩ | ⟨current', t', out, entered, hfired, -⟩
  · rw [(hf.plain _ hmem).replayed] at hsome
    cases hsome
  · obtain rfl : current' = current := Option.some.inj (hfired.state.symm.trans hstate)
    obtain rfl : t' = t := by
      have hsel' := hfired.selected
      rw [ha, hsel] at hsel'
      exact (Option.some.inj hsel').symm
    exact ⟨ha, e, inst', out, entered, hex, hfired⟩

/-- As many fresh approvals as are missing are all accepted, and the last of them satisfies the join
and takes the approve transition. -/
theorem approveAll_clears {current : State κ} {t : Transition} :
    ∀ (n : ℕ) (inst : Instance) (calls : Approvals),
      Pinned v.toVersion inst → Signed v.toVersion inst →
      v.state? inst.currentStateId = some current → current.kind ≠ .terminal →
      selectTransition v.toVersion inst current .approve = some t →
      Live current (openSlots current.id inst.revisionNo inst.steps)
        (doneSlots current.id inst.revisionNo inst.steps).length →
      shortfall current (openSlots current.id inst.revisionNo inst.steps)
        (doneSlots current.id inst.revisionNo inst.steps).length = n + 1 →
      FreshApprovals v.toVersion inst current calls → n + 1 ≤ calls.length →
      ∃ inst', approveAll v.toVersion inst (calls.take (n + 1)) = .ok inst' ∧
        joinSatisfied (inst'.gateSteps current.id inst.revisionNo) = true ∧
        inst'.currentStateId = t.toStateId := by
  intro n
  induction n with
  | zero =>
      intro inst calls hp hs hstate hkind hsel hl hn hf hlen
      obtain ⟨⟨dir, r⟩, calls, rfl⟩ := List.exists_cons_of_length_pos (l := calls) (by omega)
      obtain ⟨ha, e, inst', out, entered, hex, hfired⟩ := hf.fires hp hs hstate hkind hsel hl.slot
      refine ⟨inst', ?_, hfired.joinSatisfied_closed hp ha ((closes_iff_shortfall hl.slot).2 hn)⟩
      simp [approveAll, hex, Functor.map, Except.map]
  | succ n ih =>
      intro inst calls hp hs hstate hkind hsel hl hn hf hlen
      obtain ⟨⟨dir, r⟩, calls, rfl⟩ := List.exists_cons_of_length_pos (l := calls) (by omega)
      obtain ⟨ha, e, inst', out, entered, hex, hfired⟩ := hf.fires hp hs hstate hkind hsel hl.slot
      have hopen : ¬ current.fanIn.Closes (openSlots current.id inst.revisionNo inst.steps - 1)
          ((doneSlots current.id inst.revisionNo inst.steps).length + 1) := by
        rw [closes_iff_shortfall hl.slot]
        omega
      have happly : Call.apply v.toVersion (.act dir r) inst = .ok inst' := by
        simp [Call.apply, hex]
      obtain ⟨-, ⟨hcloses, -⟩ | ⟨-, hstay, hless⟩⟩ :=
        hfired.openSlots_approve ha (hp.uniform hstate)
      · exact absurd hcloses hopen
      -- the gate stays open with one approval less to go, and the rest of the list is fresh for it
      have hrev : inst'.revisionNo = inst.revisionNo := by
        rw [hfired.result]
        simpa [ha] using hfired.revision
      have hcur : inst'.currentStateId = inst.currentStateId := by
        rw [hfired.result]
        exact hstay.trans hfired.current_id
      have hamount : inst'.amount = inst.amount := by rw [hfired.result]
      obtain ⟨s, -, hperm⟩ := hfired.doneSlots_approve ha
      have hdone := (hperm current.id inst.revisionNo).length_eq
      rw [if_pos ⟨rfl, rfl⟩, List.length_cons] at hdone
      have hopenSlots : openSlots current.id inst.revisionNo inst'.steps =
          openSlots current.id inst.revisionNo inst.steps - 1 := by
        have heq := hless current.id inst.revisionNo
        rw [if_pos ⟨rfl, rfl⟩] at heq
        rw [hfired.openSlots_current]
        omega
      obtain ⟨inst'', hall, hjoin, hto⟩ := ih inst' calls
        (Call.apply_pinned happly hp) (Call.apply_signed happly hs) (by rw [hcur]; exact hstate)
        hkind (by rw [← hsel]; simp [selectTransition, hamount])
        (by rw [hrev, hdone, hopenSlots]; exact hl.approve hopen)
        (by
          have := shortfall_approve hl.slot hopen
          rw [hrev, hdone, hopenSlots]
          omega)
        (hf.tail hfired ha) (by simpa using hlen)
      refine ⟨inst'', ?_, by rwa [hrev] at hjoin, hto⟩
      simpa [approveAll, hex, Functor.map, Except.map] using hall

/-- At an approval gate whose approve transition is open, a slot is active, and any `step_count`
fresh approvals satisfy the join after at most `step_count` of them. -/
def NoDeadGate (v : Version κ) (inst : Instance) : Prop :=
  ∀ current t, v.state? inst.currentStateId = some current → current.isApprovalGate = true →
    selectTransition v inst current .approve = some t →
    (∃ s ∈ inst.gateSteps current.id inst.revisionNo, s.status = .active) ∧
    ∀ calls, FreshApprovals v inst current calls → current.stepCount ≤ calls.length →
      ∃ k : ℕ, 1 ≤ k ∧ k ≤ current.stepCount ∧ ∃ inst',
        approveAll v inst (calls.take k) = .ok inst' ∧
        joinSatisfied (inst'.gateSteps current.id inst.revisionNo) = true ∧
        inst'.currentStateId = t.toStateId

theorem noDeadGate_of_clearable {inst : Instance} (hp : Pinned v.toVersion inst)
    (hs : Signed v.toVersion inst) (hc : Clearable v.toVersion inst) :
    NoDeadGate v.toVersion inst := by
  intro current t hstate hgate hsel
  obtain ⟨hmem, hfrom, haction, -⟩ := selectTransition_mem (r := { action := .approve, actorUserId := 0 }) hsel
  obtain ⟨hkind, hl⟩ := hc current hstate hgate ⟨t, hmem, hfrom, haction⟩
  refine ⟨?_, fun calls hf hlen => ?_⟩
  · obtain ⟨s, hs, hat, hactive⟩ := openSlots_pos.1 hl.slot
    exact ⟨s, mem_gateSteps.2 ⟨hs, hat⟩, hactive⟩
  · have hpos := shortfall_pos current (doneSlots current.id inst.revisionNo inst.steps).length
      hl.slot
    obtain ⟨n, hn⟩ := Nat.exists_eq_add_of_le' hpos
    have hwithin := hl.within
    obtain ⟨inst', hall, hjoin, hto⟩ := approveAll_clears n inst calls hp hs hstate hkind hsel hl hn hf (by omega)
    exact ⟨n + 1, by omega, by omega, inst', hall, hjoin, hto⟩

/-- In every run that keeps its gates clearable no reachable gate is dead. -/
theorem noDeadGate_runFrom (v : Published κ) (initial : State κ)
    (hinit : initialState v.toVersion = some initial)
    (hstart : initial.isApprovalGate = true → Approvable v.toVersion initial → Admits initial 0 0)
    (start : Start) (now : Time) (calls : List Call)
    (h : Conforms (Call.apply v.toVersion) (KeepsClearable v.toVersion)
      (newInstance v.toVersion initial start now) calls) :
    NoDeadGate v.toVersion (runFrom v.toVersion initial start now calls) := by
  have hlive : Clearable v.toVersion (newInstance v.toVersion initial start now) := by
    intro current hcurrent hgate happr
    rw [show (newInstance v.toVersion initial start now).currentStateId = initial.id from rfl,
      v.state?_of_mem (initialState_mem hinit)] at hcurrent
    obtain rfl := Option.some.inj hcurrent
    have hadmits := hstart hgate happr
    have hdone : doneSlots initial.id 1 (newInstance v.toVersion initial start now).steps = [] :=
      doneSlots_activateStateSteps initial start.orgUnitId
    have hslots : openSlots initial.id 1 (newInstance v.toVersion initial start now).steps =
        0 + (max 1 initial.stepCount).toNat := by
      simp [newInstance, openSlots_activateStateSteps, hgate]
    refine ⟨hadmits.1, ?_⟩
    change Live initial (openSlots initial.id 1 _) (doneSlots initial.id 1 _).length
    rw [hdone, hslots]
    exact hadmits.live
  have hrun := run_invariant (fun _ _ _ hc hi happ => Call.apply_clearable hc happ hi) calls _
    ⟨newInstance_pinned hinit start now, hlive⟩ h
  exact noDeadGate_of_clearable hrun.1 (runFrom_signed start now calls) hrun.2

end

/-! ## A quorum larger than its panel -/

def boardGate : State String where
  id := 2
  code := "board"
  isApprovalGate := true
  joinType := .quorum
  stepCount := 1
  quorumCount := some 2

/-- One seat, and a quorum of two. -/
def motionDraft : Version String where
  id := 1
  definitionId := 1
  states := [
    { id := 1, code := "draft", kind := .initial },
    boardGate,
    { id := 3, code := "carried", kind := .terminal }]
  transitions := [
    { id := 1, fromStateId := 1, toStateId := 2, action := .submit },
    { id := 2, fromStateId := 2, toStateId := 3, action := .approve }]

def motion : Published String := motionDraft.publish rfl rfl (by decide) (by decide)

def motionRun (calls : List Call) : Instance :=
  runFrom motion.toVersion { id := 1, code := "draft", kind := .initial } { actorUserId := some 1 }
    0 calls

/-- The only seat is taken and the motion is stuck. -/
theorem motion_dead :
    ¬ NoDeadGate motion.toVersion (motionRun [actBy 1 .submit, actBy 2 .approve]) := by
  intro h
  have hclosed : ∀ s ∈ (motionRun [actBy 1 .submit, actBy 2 .approve]).steps,
      s.status ≠ .active := by decide +kernel
  have hcurrent : motion.toVersion.state?
      (motionRun [actBy 1 .submit, actBy 2 .approve]).currentStateId = some boardGate := by
    decide +kernel
  have hsel : selectTransition motion.toVersion
      (motionRun [actBy 1 .submit, actBy 2 .approve]) boardGate .approve =
      some { id := 2, fromStateId := 2, toStateId := 3, action := .approve } := by decide +kernel
  obtain ⟨⟨s, hs, hactive⟩, -⟩ := h boardGate _ hcurrent rfl hsel
  exact hclosed s (mem_gateSteps.1 hs).1 hactive

/-- The panel of two, with a quorum of two, is not stuck when a paper is submitted to it. -/
theorem paper_noDeadGate : NoDeadGate paper.toVersion (paperRun [actBy 1 .submit]) := by
  refine noDeadGate_runFrom paper _ rfl (fun hgate => absurd hgate (by decide)) _ _ _ ⟨?_, trivial⟩
  intro dir r current t out entered inst' heq hf
  obtain ⟨rfl, rfl⟩ := Call.act.inj heq
  have hcurrent : current = { id := 1, code := "draft", kind := .initial } := by
    have hfound : paper.toVersion.state? (paperRun []).currentStateId =
        some { id := 1, code := "draft", kind := .initial } := by decide +kernel
    exact Option.some.inj (hf.state.symm.trans hfound)
  subst hcurrent
  have hroute : selectTransition paper.toVersion (paperRun [])
      { id := 1, code := "draft", kind := .initial } .submit =
      some { id := 1, fromStateId := 1, toStateId := 2, action := .submit } := by decide +kernel
  obtain rfl := Option.some.inj (hf.selected.symm.trans hroute)
  have hnew : out.newStateId = 2 := by
    rcases hf.newState with hto | ⟨ha, -⟩
    · exact hto
    · cases ha
  have hrev : out.revisionNo = 1 := hf.revision
  refine ⟨fun _ next hnext _ _ => ?_, fun hself => absurd hself (by decide)⟩
  rw [hnew] at hnext
  obtain rfl : panelGate = next := Option.some.inj ((by decide +kernel :
    some panelGate = paper.toVersion.state? 2).trans hnext)
  rw [hnew, hrev]
  refine ⟨by decide, by decide, ?_⟩
  change (2 : ℤ) ≤ 2 + (_ : ℕ)
  omega

end OfficeConnect.Workflow
