import OfficeConnect.Workflow.Segregation

/-!
# Fresh approvals per visit of a gate

Step rows are scoped by state and revision, not by visit.  As long as no move enters a quorum gate
that has completed rows in the revision it is entered with, a gate is only left with as many
distinct approvers, all logged since its latest entry, as its join asks for.
-/

namespace OfficeConnect.Workflow

open Lib

variable {κ : Type}

/-! ## The events of a visit -/

/-- The event enters the state from elsewhere. -/
def Event.enters (g : ℕ) (e : Event) : Prop := e.toStateId = some g ∧ e.fromStateId ≠ some g

instance (g : ℕ) : DecidablePred (Event.enters g) := fun e =>
  inferInstanceAs (Decidable (e.toStateId = some g ∧ e.fromStateId ≠ some g))

/-- The events logged since the latest entry into the state. -/
def sinceEntry (g : ℕ) (events : List Event) : List Event :=
  (events.reverse.takeWhile fun e => ¬ e.enters g).reverse

/-- The actors of the approvals logged since the latest entry into the state. -/
def approvers (g : ℕ) (events : List Event) : List (Option ℕ) :=
  ((sinceEntry g events).filter (·.action = some .approve)).map (·.actorUserId)

/-- How many approvers the join of a gate asks for. -/
def requiredApprovals (state : State κ) : ℤ :=
  match state.fanIn with
  | .all => max 1 state.stepCount
  | .any => 1
  | .atLeast quorum => quorum

theorem sinceEntry_append {g : ℕ} {extra : List Event} (h : ∀ e ∈ extra, ¬ e.enters g)
    (events : List Event) : sinceEntry g (events ++ extra) = sinceEntry g events ++ extra := by
  have hall : ∀ e ∈ extra.reverse, (decide ¬ e.enters g) = true := fun e he => by
    simpa using h e (List.mem_reverse.1 he)
  rw [sinceEntry, List.reverse_append, List.takeWhile_append_of_pos hall, List.reverse_append,
    List.reverse_reverse, sinceEntry]

theorem approvers_append {g : ℕ} {extra : List Event} (h : ∀ e ∈ extra, ¬ e.enters g)
    (events : List Event) :
    approvers g (events ++ extra) = approvers g events ++
      (extra.filter (·.action = some .approve)).map (·.actorUserId) := by
  simp [approvers, sinceEntry_append h]

/-! ## Rows of the current gate -/

section

variable {dir : Directory} {v : Version κ} {inst inst' : Instance} {r : Request}
  {current : State κ} {t : Transition} {out : Outcome} {entered : List Step}

/-- No row belongs to a revision the instance has not had. -/
theorem Pinned.no_rows (hp : Pinned v inst) {g rev : ℕ} (hrev : inst.revisionNo < rev) :
    ∀ s ∈ inst.steps, ¬ s.At g rev := by
  intro s hs hat
  have := (hp s hs).1
  have := hat.2
  omega

theorem doneSlots_eq_nil {g rev : ℕ} {steps : List Step}
    (h : ∀ s ∈ steps, s.At g rev → s.status ≠ .done) : doneSlots g rev steps = [] := by
  simp only [doneSlots, List.map_eq_nil_iff, List.filter_eq_nil_iff, decide_eq_true_eq]
  exact fun s hs hd => h s hs hd.1 hd.2

/-- The slots of the state an action leaves the instance in: untouched by a move, except for the
rows the move opens. -/
theorem Fired.doneSlots_moved (h : Fired dir v inst r current t out entered inst')
    (hmoved : out.newStateId ≠ current.id) :
    (doneSlots out.newStateId out.revisionNo inst'.steps).Perm
      (doneSlots out.newStateId out.revisionNo inst.steps) := by
  by_cases ha : r.action = .approve
  · obtain ⟨s, -, hperm⟩ := h.doneSlots_approve ha
    have := hperm out.newStateId out.revisionNo
    rwa [if_neg fun hat => hmoved hat.1] at this
  · rw [h.doneSlots_other ha]

theorem Fired.openSlots_moved (h : Fired dir v inst r current t out entered inst')
    (hp : Pinned v inst) (hmoved : out.newStateId ≠ current.id) {next : State κ}
    (hnext : v.state? out.newStateId = some next) :
    openSlots out.newStateId out.revisionNo inst'.steps =
      openSlots out.newStateId out.revisionNo inst.steps +
        if next.isApprovalGate then (max 1 next.stepCount).toNat else 0 := by
  have hout : openSlots out.newStateId out.revisionNo out.steps =
      openSlots out.newStateId out.revisionNo inst.steps := by
    have hne : ¬ (out.newStateId = current.id ∧ out.revisionNo = inst.revisionNo) :=
      fun hat => hmoved hat.1
    by_cases happ : r.action = .approve
    · rcases (h.openSlots_approve happ (hp.uniform h.state)).2 with ⟨-, -, hopen⟩ | ⟨-, hstay, -⟩
      · rw [hopen, if_neg hne]
      · exact absurd hstay hmoved
    by_cases hres : r.action = .return ∨ r.action = .reject
    · rw [h.openSlots_resolve hres, if_neg hne]
    · rw [h.steps_originator happ (fun ha => hres (.inl ha)) (fun ha => hres (.inr ha))]
  rcases h.entered_cases with ⟨hstay, -⟩ | ⟨-, next', hnext', rfl⟩
  · exact absurd hstay hmoved
  · rw [hnext] at hnext'
    obtain rfl := Option.some.inj hnext'
    rw [h.result]
    simp only [openSlots_append, hout, openSlots_activateStateSteps, Version.state?_id hnext,
      and_self, and_true]

end

/-! ## The invariant of a visit -/

/-- No call moves the instance into a gate with a quorum of two or more that has completed rows in
the revision it is entered with. -/
def EntersFresh (v : Version κ) (inst : Instance) (c : Call) : Prop :=
  ∀ inst' next quorum, c.apply v inst = .ok inst' → inst'.currentStateId ≠ inst.currentStateId →
    v.state? inst'.currentStateId = some next → next.fanIn = .atLeast quorum → 2 ≤ quorum →
    ∀ s ∈ inst.gateSteps inst'.currentStateId inst'.revisionNo, s.status ≠ .done

/-- While the current gate has open rows: the approvers of this visit are distinct, each holds a
completed row, what is open and what they completed covers every slot, and at a gate with a quorum
nobody else holds a completed row. -/
structure Visit (inst : Instance) (current : State κ) : Prop where
  distinct : (approvers current.id inst.events).Nodup
  completed : approvers current.id inst.events ⊆
    (doneSlots current.id inst.revisionNo inst.steps).map Prod.fst
  slots : (max 1 current.stepCount).toNat ≤
    openSlots current.id inst.revisionNo inst.steps + (approvers current.id inst.events).length
  quorum : ∀ quorum, current.fanIn = .atLeast quorum → 2 ≤ quorum →
    (doneSlots current.id inst.revisionNo inst.steps).length ≤ (approvers current.id inst.events).length

def VisitKept (v : Version κ) (inst : Instance) : Prop :=
  ∀ current, v.state? inst.currentStateId = some current →
    0 < openSlots current.id inst.revisionNo inst.steps → Visit inst current

theorem Quiet.visitKept {v : Version κ} {inst inst' : Instance} (h : Quiet inst inst')
    (hv : VisitKept v inst) : VisitKept v inst' := by
  intro current hcurrent hopen
  rw [h.state] at hcurrent
  rw [h.revision, h.openSlots] at hopen
  obtain ⟨extra, hevents, hextra⟩ := h.events
  have happ : approvers current.id inst'.events = approvers current.id inst.events := by
    have hnone : extra.filter (·.action = some .approve) = [] := by
      rw [List.filter_eq_nil_iff]
      intro e he
      simp [(hextra e he).2.1]
    rw [hevents, approvers_append, hnone]
    · simp
    · intro e he hent
      have := hextra e he
      simp [hent.1] at this
  obtain ⟨hd, hc, hs, hq⟩ := hv current hcurrent hopen
  constructor <;> simpa only [happ, h.revision, h.doneSlots, h.openSlots]

section

variable {dir : Directory} {v : Version κ} {inst inst' : Instance} {r : Request}
  {current : State κ} {t : Transition} {out : Outcome} {entered : List Step}

theorem approvers_entered (hmoved : out.newStateId ≠ current.id) (events : List Event) :
    approvers out.newStateId (events ++ [emitEvent current r out]) = [] := by
  have hent : (emitEvent current r out).enters out.newStateId :=
    ⟨rfl, fun h => hmoved (Option.some.inj h).symm⟩
  simp [approvers, sinceEntry, hent]

/-- An event that starts in the state is no entry into it. -/
theorem approvers_emit (r : Request) (out : Outcome) (events : List Event) :
    approvers current.id (events ++ [emitEvent current r out]) =
      approvers current.id events ++ if r.action = .approve then [some r.actorUserId] else [] := by
  rw [approvers_append]
  · by_cases ha : r.action = .approve <;> simp [emitEvent, ha]
  · simp [Event.enters, emitEvent]

/-- A move opens a fresh visit. -/
theorem Fired.visit_moved (h : Fired dir v inst r current t out entered inst')
    (hp : Pinned v inst) (hmoved : out.newStateId ≠ current.id) {next : State κ}
    (hnext : v.state? out.newStateId = some next)
    (hopen : 0 < openSlots out.newStateId out.revisionNo inst'.steps)
    (hfresh : ∀ quorum, next.fanIn = .atLeast quorum → 2 ≤ quorum →
      ∀ s ∈ inst.gateSteps out.newStateId out.revisionNo, s.status ≠ .done) :
    Visit inst' next := by
  have hid := Version.state?_id hnext
  have hrev : inst'.revisionNo = out.revisionNo := by rw [h.result]
  have hnone : approvers next.id inst'.events = [] := by
    rw [h.result, hid]
    exact approvers_entered hmoved inst.events
  refine ⟨by simp [hnone], by simp [hnone], ?_, fun quorum hfan hle => ?_⟩
  · have hslots := h.openSlots_moved hp hmoved hnext
    rw [hid, hrev]
    by_cases hgate : next.isApprovalGate
    · rw [if_pos hgate] at hslots
      omega
    · -- a state that is no gate has no rows to be open
      rw [if_neg hgate] at hslots
      rw [hslots, Nat.add_zero, openSlots_pos] at hopen
      obtain ⟨s, hs, hat, -⟩ := hopen
      obtain ⟨-, -, state, hstate, hgate', -⟩ := hp s hs
      rw [hat.1, hnext] at hstate
      obtain rfl := Option.some.inj hstate
      exact absurd hgate' hgate
  · have hold : doneSlots out.newStateId out.revisionNo inst.steps = [] :=
      doneSlots_eq_nil fun s hs hat => hfresh quorum hfan hle s (mem_gateSteps.2 ⟨hs, hat⟩)
    have hperm := h.doneSlots_moved hmoved
    rw [hold] at hperm
    rw [hid, hrev, hperm.eq_nil]
    simp

theorem Fired.steps_stay (h : Fired dir v inst r current t out entered inst')
    (hstay : out.newStateId = current.id) : inst'.steps = out.steps := by
  rcases h.entered_cases with ⟨-, hent⟩ | ⟨hne, -⟩
  · rw [h.result, hent]
    simp
  · exact absurd hstay hne

/-- A resubmission that stays finds no rows of the new revision. -/
theorem Fired.openSlots_resubmit (h : Fired dir v inst r current t out entered inst')
    (hp : Pinned v inst) (hstay : out.newStateId = current.id) (ha : r.action = .resubmit) (g : ℕ) :
    openSlots g inst'.revisionNo inst'.steps = 0 := by
  have hrev : inst'.revisionNo = inst.revisionNo + 1 := by
    rw [h.result]
    simpa [ha] using h.revision
  rw [h.steps_stay hstay, h.steps_originator (by simp [ha]) (by simp [ha]) (by simp [ha]), hrev,
    openSlots, List.countP_eq_zero]
  intro s hs
  simp [activeSlot, hp.no_rows (Nat.lt_succ_self _) s hs]

/-- An approval that leaves the gate open joins the approvers of the visit. -/
theorem Fired.visit_approve (h : Fired dir v inst r current t out entered inst')
    (hp : Pinned v inst) (hv : Visit inst current) (happ : r.action = .approve)
    (hstay : out.newStateId = current.id)
    (hopen : 0 < openSlots current.id inst'.revisionNo inst'.steps) : Visit inst' current := by
  have hrev : inst'.revisionNo = inst.revisionNo := by
    rw [h.result]
    simpa [happ] using h.revision
  have hfound : approvers current.id inst'.events =
      approvers current.id inst.events ++ [some r.actorUserId] := by
    rw [h.result]
    simpa [happ] using approvers_emit r out inst.events
  obtain ⟨s, -, hperm⟩ := h.doneSlots_approve happ
  have hdone := hperm current.id inst.revisionNo
  rw [if_pos ⟨rfl, rfl⟩] at hdone
  rw [hrev, h.steps_stay hstay] at hopen
  have hless : openSlots current.id inst.revisionNo inst.steps =
      openSlots current.id inst.revisionNo out.steps + 1 := by
    obtain ⟨-, ⟨-, -, hclosed⟩ | ⟨-, -, hless⟩⟩ := h.openSlots_approve happ (hp.uniform h.state)
    · rw [hclosed, if_pos ⟨rfl, rfl⟩] at hopen
      omega
    · simpa using hless current.id inst.revisionNo
  refine ⟨?_, ?_, ?_, fun quorum hfan hle => ?_⟩
  · rw [hfound]
    refine hv.distinct.append (List.nodup_singleton _) ?_
    rw [List.disjoint_singleton]
    exact fun hmem => h.actor_fresh happ (hv.completed hmem)
  · rw [hfound, hrev]
    intro a ha
    rw [(hdone.map Prod.fst).mem_iff, List.map_cons, List.mem_cons]
    rcases List.mem_append.1 ha with ha | ha
    · exact .inr (hv.completed ha)
    · exact .inl (List.mem_singleton.1 ha)
  · have := hv.slots
    rw [hfound, hrev, h.steps_stay hstay, List.length_append, List.length_singleton]
    omega
  · have := hv.quorum quorum hfan hle
    rw [hfound, hrev, hdone.length_eq, List.length_append, List.length_singleton,
      List.length_cons]
    omega

/-- An originator's action that stays and keeps the revision keeps the visit. -/
theorem Fired.visit_originator (h : Fired dir v inst r current t out entered inst')
    (hv : Visit inst current) (hstay : out.newStateId = current.id)
    (happ : r.action ≠ .approve) (hret : r.action ≠ .return) (hrej : r.action ≠ .reject)
    (hresub : r.action ≠ .resubmit) : Visit inst' current := by
  have hrev : inst'.revisionNo = inst.revisionNo := by
    rw [h.result]
    simpa [hresub] using h.revision
  have hfound : approvers current.id inst'.events = approvers current.id inst.events := by
    rw [h.result]
    simpa [happ] using approvers_emit r out inst.events
  have hsteps : inst'.steps = inst.steps := by
    rw [h.steps_stay hstay, h.steps_originator happ hret hrej]
  obtain ⟨hd, hc, hs, hq⟩ := hv
  constructor <;> simpa only [hfound, hrev, hsteps]

theorem Fired.visit_stay (h : Fired dir v inst r current t out entered inst')
    (hp : Pinned v inst) (hv : VisitKept v inst) (hstay : out.newStateId = current.id)
    (hopen : 0 < openSlots current.id inst'.revisionNo inst'.steps) : Visit inst' current := by
  by_cases hresub : r.action = .resubmit
  · rw [h.openSlots_resubmit hp hstay hresub] at hopen
    omega
  have hrev : inst'.revisionNo = inst.revisionNo := by
    rw [h.result]
    simpa [hresub] using h.revision
  by_cases happ : r.action = .approve
  · exact h.visit_approve hp (hv current h.state (h.openSlots_approve happ (hp.uniform h.state)).1)
      happ hstay hopen
  by_cases hres : r.action = .return ∨ r.action = .reject
  · rw [hrev, h.steps_stay hstay, h.openSlots_resolve hres, if_pos ⟨rfl, rfl⟩] at hopen
    omega
  · have hret : r.action ≠ .return := fun ha => hres (.inl ha)
    have hrej : r.action ≠ .reject := fun ha => hres (.inr ha)
    rw [hrev, h.steps_stay hstay, h.steps_originator happ hret hrej] at hopen
    exact h.visit_originator (hv current h.state hopen) hstay happ hret hrej hresub

end

theorem Call.apply_visitKept {v : Version κ} {inst inst' : Instance} {c : Call}
    (hc : EntersFresh v inst c) (h : c.apply v inst = .ok inst')
    (hi : Pinned v inst ∧ VisitKept v inst) : Pinned v inst' ∧ VisitKept v inst' := by
  refine ⟨Call.apply_pinned h hi.1, ?_⟩
  rcases Call.apply_cases h with hq | ⟨dir, r, current, t, out, entered, rfl, hf⟩
  · exact hq.visitKept hi.2
  have hstate : inst'.currentStateId = out.newStateId := by rw [hf.result]
  have hrev : inst'.revisionNo = out.revisionNo := by rw [hf.result]
  intro next hnext hopen
  have hid := Version.state?_id hnext
  by_cases hstay : out.newStateId = current.id
  · have hsame : next = current := by
      rw [hstate, hstay, hf.current_id, hf.state] at hnext
      exact (Option.some.inj hnext).symm
    subst hsame
    exact hf.visit_stay hi.1 hi.2 hstay hopen
  · have hmoved : inst'.currentStateId ≠ inst.currentStateId := by
      rwa [hstate, ← hf.current_id]
    have hfresh := fun quorum hfan hle => hc inst' next quorum h hmoved hnext hfan hle
    rw [hid, hstate, hrev] at hopen
    rw [hstate] at hnext
    rw [hstate, hrev] at hfresh
    exact hf.visit_moved hi.1 hstay hnext hopen hfresh

/-- An approval that moves the instance out of an approval gate leaves behind as many distinct
approvers, all since the latest entry, as the join of the gate requires. -/
def ClearedFresh (v : Version κ) (inst : Instance) (c : Call) : Prop :=
  ∀ dir r e inst' current, c = .act dir r → r.action = .approve →
    executeAction dir v inst r = .ok (e, inst') →
    v.state? inst.currentStateId = some current → current.isApprovalGate = true →
    inst'.currentStateId ≠ inst.currentStateId →
    requiredApprovals current ≤ (approvers inst.currentStateId inst'.events).dedup.length

theorem clearedFresh_of_visitKept {v : Version κ} {inst : Instance} (hp : Pinned v inst)
    (hv : VisitKept v inst) (c : Call) : ClearedFresh v inst c := by
  rintro dir r e inst' current rfl ha hex hcur hgate hmoved
  rcases executeAction_cases hex with ⟨-, rfl⟩ | ⟨current', t, out, entered, hf, -⟩
  · exact absurd rfl hmoved
  obtain rfl : current' = current := Option.some.inj (hf.state.symm.trans hcur)
  have hid := hf.current_id
  have hne : out.newStateId ≠ current'.id := by
    rw [hf.result] at hmoved
    rwa [hid]
  obtain ⟨hpos, ⟨hcloses, -⟩ | ⟨-, hstay, -⟩⟩ := hf.openSlots_approve ha (hp.uniform hf.state)
  · obtain ⟨hdistinct, hcompleted, hslots, hquorum⟩ := hv current' hf.state hpos
    have hfound : approvers current'.id inst'.events =
        approvers current'.id inst.events ++ [some r.actorUserId] := by
      rw [hf.result]
      simpa [ha] using approvers_emit r out inst.events
    have hnodup : (approvers current'.id inst'.events).Nodup := by
      rw [hfound]
      refine hdistinct.append (List.nodup_singleton _) ?_
      rw [List.disjoint_singleton]
      exact fun hmem => hf.actor_fresh ha (hcompleted hmem)
    rw [← hid, hnodup.dedup, hfound, List.length_append, List.length_singleton]
    unfold requiredApprovals
    cases hfan : current'.fanIn with
    | any => simp
    | all =>
        simp only [hfan, FanIn.Closes] at hcloses ⊢
        omega
    | atLeast q =>
        simp only [hfan, FanIn.Closes] at hcloses ⊢
        by_cases htwo : 2 ≤ q
        · have := hquorum q hfan htwo
          omega
        · omega
  · exact absurd hstay hne

section

variable [ToString κ]

/-- In every run that never re-enters a quorum gate with completed rows of its revision, each gate is
left with a full set of approvers of that very visit. -/
theorem clearedFresh_runFrom (v : Published κ) (initial : State κ)
    (hinit : initialState v.toVersion = some initial) (start : Start) (now : Time)
    (calls : List Call) (c : Call)
    (h : Conforms (Call.apply v.toVersion) (EntersFresh v.toVersion)
      (newInstance v.toVersion initial start now) calls) :
    ClearedFresh v.toVersion (runFrom v.toVersion initial start now calls) c := by
  have hstart : VisitKept v.toVersion (newInstance v.toVersion initial start now) := by
    intro current hcurrent hopen
    rw [show (newInstance v.toVersion initial start now).currentStateId = initial.id from rfl,
      v.state?_of_mem (initialState_mem hinit)] at hcurrent
    obtain rfl := Option.some.inj hcurrent
    have hdone : doneSlots initial.id 1 (newInstance v.toVersion initial start now).steps = [] :=
      doneSlots_activateStateSteps initial start.orgUnitId
    have hslots : openSlots initial.id 1 (newInstance v.toVersion initial start now).steps =
        if initial.isApprovalGate then (max 1 initial.stepCount).toNat else 0 := by
      simp [newInstance, openSlots_activateStateSteps]
    have hnone : approvers initial.id (newInstance v.toVersion initial start now).events = [] := by
      simp [approvers, sinceEntry, newInstance, Event.enters]
    refine ⟨by simp [hnone], by simp [hnone], ?_, fun quorum _ _ => ?_⟩
    · change 0 < openSlots initial.id 1 _ at hopen
      change _ ≤ openSlots initial.id 1 _ + _
      rw [hslots] at hopen ⊢
      split_ifs at hopen ⊢ <;> omega
    · change (doneSlots initial.id 1 _).length ≤ _
      simp [hdone]
  have hrun := run_invariant (fun _ _ _ hc hi happ => Call.apply_visitKept hc happ hi) calls _
    ⟨newInstance_pinned hinit start now, hstart⟩ h
  exact clearedFresh_of_visitKept hrun.1 hrun.2 c

end

/-! ## A gate that is entered twice in one revision -/

def panelGate : State String where
  id := 2
  code := "panel"
  isApprovalGate := true
  joinType := .quorum
  stepCount := 2
  quorumCount := some 2

/-- A two-person panel may hand a paper back to its author, who submits it again. -/
def paperDraft : Version String where
  id := 1
  definitionId := 1
  states := [
    { id := 1, code := "draft", kind := .initial },
    panelGate,
    { id := 3, code := "accepted", kind := .terminal }]
  transitions := [
    { id := 1, fromStateId := 1, toStateId := 2, action := .submit },
    { id := 2, fromStateId := 2, toStateId := 1, action := .return },
    { id := 3, fromStateId := 2, toStateId := 3, action := .approve }]

def paper : Published String := paperDraft.publish rfl rfl (by decide) (by decide)

def actBy (actor : ℕ) (action : Action) : Call := .act {} { action := action, actorUserId := actor }

def paperRun (calls : List Call) : Instance :=
  runFrom paper.toVersion { id := 1, code := "draft", kind := .initial } { actorUserId := some 1 } 0
    calls

/-- Panel member 2 approves, member 3 hands the paper back and then approves the second visit alone:
the approval of the first visit completes the quorum. -/
theorem paper_not_clearedFresh :
    ¬ ClearedFresh paper.toVersion
      (paperRun [actBy 1 .submit, actBy 2 .approve, actBy 3 .return, actBy 1 .submit]) (actBy 3 .approve) := by
  intro h
  set inst := paperRun [actBy 1 .submit, actBy 2 .approve, actBy 3 .return, actBy 1 .submit]
  obtain ⟨⟨e, inst'⟩, hex, htest⟩ : ∃ p, executeAction {} paper.toVersion inst
      { action := .approve, actorUserId := 3 } = .ok p ∧
      decide (p.2.currentStateId = 3 ∧ (approvers 2 p.2.events).dedup.length = 1) = true :=
    exists_eq_ok _ (by decide +kernel)
  obtain ⟨hstate, hcount⟩ := of_decide_eq_true htest
  have hcurrent : inst.currentStateId = 2 := by decide +kernel
  have hle := h {} _ e inst' panelGate rfl rfl hex (by rw [hcurrent]; rfl) rfl
    (by rw [hcurrent, hstate]; decide)
  rw [hcurrent, hcount] at hle
  exact absurd hle (by decide)

/-- On the first visit two approvals of the panel are two approvers. -/
theorem paper_clearedFresh :
    ClearedFresh paper.toVersion (paperRun [actBy 1 .submit, actBy 2 .approve])
      (actBy 3 .approve) := by
  refine clearedFresh_runFrom paper _ rfl _ _ _ _ ⟨?_, ?_, trivial⟩
  · have hopen : ∀ s ∈ (paperRun []).steps, s.status ≠ .done := by decide +kernel
    exact fun _ _ _ _ _ _ _ _ s hs => hopen s (mem_gateSteps.1 hs).1
  · have hopen : ∀ s ∈ (paperRun [actBy 1 .submit]).steps, s.status ≠ .done := by decide +kernel
    exact fun _ _ _ _ _ _ _ _ s hs => hopen s (mem_gateSteps.1 hs).1

end OfficeConnect.Workflow
