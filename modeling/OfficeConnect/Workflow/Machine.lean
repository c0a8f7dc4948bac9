import OfficeConnect.Lib.Run
import OfficeConnect.Workflow.Spec

/-!
# The life of an instance

Everything that ever writes an instance after it is started: the executor, the escalation sweep, the
reminder ladder, and the module that owns it (the amount it routes on, the due date it stamps).  A
run is a list of such calls by anyone, each with the directory it finds; a call that raises is
rolled back.  Only the executor moves an instance or signs a row, so an invariant of runs is proved
from what the branches of the executor do (`Fired`) and from `Quiet` for the rest.
-/

namespace OfficeConnect.Workflow

open Lib

inductive Call where
  | act (dir : Directory) (r : Request)
  | sweep (now : Time) (picked : List ℕ)
  | remind (stepId level revisionNo : ℕ)
  | setAmount (amount : Option ℤ)
  | stampSla (stateId : ℕ) (due : Time)
deriving Repr

/-- The due date a module stamps on the open rows of a gate that have none. -/
def stampSla (stateId : ℕ) (due : Time) (inst : Instance) : Instance :=
  { inst with
    steps := inst.steps.map fun s =>
      if s.At stateId inst.revisionNo ∧ s.status = .active ∧ s.slaDueAt = none then
        { s with slaDueAt := some due }
      else s }

def Call.apply {κ : Type} (v : Version κ) : Call → Instance → Except Raised Instance
  | act dir r, inst => Prod.snd <$> executeAction dir v inst r
  | sweep now picked, inst => .ok (sweepDueSteps now picked inst)
  | remind stepId level revisionNo, inst => .ok { inst with
      events := inst.events ++ [{
        eventType := .reminder
        stepId := some stepId
        escalationLevel := some level
        revisionNo := some revisionNo }] }
  | setAmount amount, inst => .ok { inst with amount := amount }
  | stampSla stateId due, inst => .ok (Workflow.stampSla stateId due inst)

variable {κ : Type}

/-- The instance a run of calls leads to, from the row a start of the version wrote. -/
def runFrom (v : Version κ) (initial : State κ) (start : Start) (now : Time) (calls : List Call) :
    Instance :=
  run (Call.apply v) (newInstance v initial start now) calls

/-! ## A call that moves something -/

/-- The executor took a transition: the checks it passed and the row it leaves. -/
structure Fired (dir : Directory) (v : Version κ) (inst : Instance) (r : Request)
    (current : State κ) (t : Transition) (out : Outcome) (entered : List Step)
    (inst' : Instance) : Prop where
  fresh : replayed inst r.idempotencyKey = none
  state : v.state? inst.currentStateId = some current
  open' : current.kind ≠ .terminal
  selected : selectTransition v inst current r.action = some t
  decided : decideAction dir v inst current t r (r.now.getD dir.utcNow) = .ok out
  enters : enteredSteps v inst current out (r.now.getD dir.utcNow) = .ok entered
  result : inst' = { inst with
    currentStateId := out.newStateId
    rowVersion := inst.rowVersion + 1
    revisionNo := out.revisionNo
    steps := out.steps ++ entered
    events := inst.events ++ [emitEvent current r out] }

section

variable {dir : Directory} {v : Version κ} {inst inst' : Instance} {r : Request} {e : Event}
  {current : State κ} {t : Transition} {out : Outcome} {entered : List Step}

/-- A returning action replays an event and changes nothing, or takes a transition. -/
theorem executeAction_cases (h : executeAction dir v inst r = .ok (e, inst')) :
    (replayed inst r.idempotencyKey = some e ∧ inst' = inst) ∨
      ∃ current t out entered, Fired dir v inst r current t out entered inst' ∧
        e = emitEvent current r out := by
  rcases executeAction_eq_ok.1 h with hrep | ⟨hnone, current, t, out, hroute, hdec, hadv⟩
  · exact .inl hrep
  · obtain ⟨-, hstate, hkind, hsel, -⟩ := route_eq_ok.1 hroute
    obtain ⟨entered, hent, -, rfl, rfl⟩ := advance_eq_ok.1 hadv
    exact .inr ⟨current, t, out, entered,
      { fresh := hnone, state := hstate, open' := hkind, selected := hsel, decided := hdec,
        enters := hent, result := rfl }, rfl⟩

theorem selectTransition_mem (h : selectTransition v inst current r.action = some t) :
    t ∈ v.transitions ∧ t.fromStateId = current.id ∧ t.action = r.action ∧
      amountGuardPasses t inst.amount = true := by
  have hmem := List.mem_of_find?_eq_some h
  have hguard := List.find?_some h
  simp only [Version.routes, List.mem_insertionSort, List.mem_filter, decide_eq_true_eq] at hmem
  exact ⟨hmem.1, hmem.2.1, hmem.2.2, hguard⟩

theorem Fired.current_id (h : Fired dir v inst r current t out entered inst') :
    current.id = inst.currentStateId := Version.state?_id h.state

/-- The next state is the transition's target or, after a partial approval, the gate itself. -/
theorem Fired.newState (h : Fired dir v inst r current t out entered inst') :
    out.newStateId = t.toStateId ∨ (r.action = .approve ∧ out.newStateId = current.id) := by
  rcases decideAction_cases h.decided with ⟨ha, hok⟩ | ⟨-, hok⟩ | ⟨-, -, -, hok⟩
  · obtain ⟨-, s, -, -, -, rfl⟩ := approveGate_eq_ok.1 hok
    dsimp only
    split_ifs
    · exact .inl rfl
    · exact .inr ⟨ha, rfl⟩
  · obtain ⟨-, rfl⟩ := resolveGate_eq_ok.1 hok
    exact .inl rfl
  · obtain ⟨-, rfl⟩ := originatorAction_eq_ok.1 hok
    exact .inl rfl

/-- Only a resubmission bumps the revision. -/
theorem Fired.revision (h : Fired dir v inst r current t out entered inst') :
    out.revisionNo = if r.action = .resubmit then inst.revisionNo + 1 else inst.revisionNo := by
  rcases decideAction_cases h.decided with ⟨ha, hok⟩ | ⟨ha, hok⟩ | ⟨-, -, -, hok⟩
  · obtain ⟨-, s, -, -, -, rfl⟩ := approveGate_eq_ok.1 hok
    simp [ha]
  · obtain ⟨-, rfl⟩ := resolveGate_eq_ok.1 hok
    rcases ha with ha | ha <;> simp [ha]
  · obtain ⟨-, rfl⟩ := originatorAction_eq_ok.1 hok
    rfl

/-- The rows a transition adds belong to the state it enters, in the new revision. -/
theorem Fired.entered_cases (h : Fired dir v inst r current t out entered inst') :
    (out.newStateId = current.id ∧ entered = []) ∨
      (out.newStateId ≠ current.id ∧ ∃ next, v.state? out.newStateId = some next ∧
        entered = activateStateSteps next out.revisionNo inst.orgUnitId
          (r.now.getD dir.utcNow)) := enteredSteps_eq_ok.1 h.enters

theorem Fired.doneSlots_entered (h : Fired dir v inst r current t out entered inst') (g rev : ℕ) :
    doneSlots g rev entered = [] := by
  rcases h.entered_cases with ⟨-, rfl⟩ | ⟨-, next, -, rfl⟩
  · rfl
  · simp

/-! ## What the branches do to the measures -/

/-- An approval signs one open slot of the current gate; every other completed slot stays. -/
theorem Fired.doneSlots_approve (h : Fired dir v inst r current t out entered inst')
    (ha : r.action = .approve) :
    ∃ s, inst.steps.find? (activeSlot current.id inst.revisionNo) = some s ∧
      ∀ g rev, (doneSlots g rev inst'.steps).Perm
        (if g = current.id ∧ rev = inst.revisionNo then
          (some r.actorUserId, (slotAuthority dir v r s (r.now.getD dir.utcNow)).onBehalfOf) ::
            doneSlots g rev inst.steps
        else doneSlots g rev inst.steps) := by
  have hok : approveGate dir v inst current t r (r.now.getD dir.utcNow) = .ok out := by
    simpa [decideAction, ha] using h.decided
  obtain ⟨-, s, hs, -, -, hout⟩ := approveGate_eq_ok.1 hok
  refine ⟨s, hs, fun g rev => ?_⟩
  rw [h.result]
  simp only [doneSlots_append, h.doneSlots_entered, List.append_nil, hout]
  have hfilled := doneSlots_filled g rev r
    (slotAuthority dir v r s (r.now.getD dir.utcNow)).onBehalfOf (r.now.getD dir.utcNow) hs
  by_cases hclosed : joinSatisfied (gateRows current.id inst.revisionNo (filled inst current r
      (slotAuthority dir v r s (r.now.getD dir.utcNow)).onBehalfOf (r.now.getD dir.utcNow))) = true
  · rw [if_pos hclosed, doneSlots_skipRest]
    exact hfilled
  · rw [if_neg hclosed]
    exact hfilled

/-- No other action completes a slot. -/
theorem Fired.doneSlots_other (h : Fired dir v inst r current t out entered inst')
    (ha : r.action ≠ .approve) (g rev : ℕ) :
    doneSlots g rev inst'.steps = doneSlots g rev inst.steps := by
  rw [h.result]
  simp only [doneSlots_append, h.doneSlots_entered, List.append_nil]
  rcases decideAction_cases h.decided with ⟨ha', -⟩ | ⟨-, hok⟩ | ⟨-, -, -, hok⟩
  · exact absurd ha' ha
  · obtain ⟨-, rfl⟩ := resolveGate_eq_ok.1 hok
    exact doneSlots_resolveRows
  · obtain ⟨-, rfl⟩ := originatorAction_eq_ok.1 hok
    rfl

/-- A return or a rejection closes the gate and leaves every other open slot. -/
theorem Fired.openSlots_resolve (h : Fired dir v inst r current t out entered inst')
    (ha : r.action = .return ∨ r.action = .reject) (g rev : ℕ) :
    openSlots g rev out.steps =
      if g = current.id ∧ rev = inst.revisionNo then 0 else openSlots g rev inst.steps := by
  rcases decideAction_cases h.decided with ⟨ha', -⟩ | ⟨-, hok⟩ | ⟨-, hr, hj, -⟩
  · rcases ha with ha | ha <;> simp [ha] at ha'
  · obtain ⟨-, rfl⟩ := resolveGate_eq_ok.1 hok
    exact openSlots_resolveRows
  · rcases ha with ha | ha
    · exact absurd ha hr
    · exact absurd ha hj

/-- An originator's action touches no row. -/
theorem Fired.steps_originator (h : Fired dir v inst r current t out entered inst')
    (happ : r.action ≠ .approve) (hret : r.action ≠ .return) (hrej : r.action ≠ .reject) :
    out.steps = inst.steps := by
  rcases decideAction_cases h.decided with ⟨ha, -⟩ | ⟨ha, -⟩ | ⟨-, -, -, hok⟩
  · exact absurd ha happ
  · rcases ha with ha | ha
    · exact absurd ha hret
    · exact absurd ha hrej
  · obtain ⟨-, rfl⟩ := originatorAction_eq_ok.1 hok
    rfl

/-- The rows of the current gate share its join. -/
def Uniform (inst : Instance) (current : State κ) : Prop :=
  ∀ s ∈ inst.steps, s.At current.id inst.revisionNo →
    s.joinType = current.joinType ∧ s.quorumCount = current.quorumCount

theorem joinSatisfied_filled (r : Request) (obo : Option ℕ) (now : Time) {s : Step}
    (huni : Uniform inst current)
    (hs : inst.steps.find? (activeSlot current.id inst.revisionNo) = some s) :
    joinSatisfied (gateRows current.id inst.revisionNo (filled inst current r obo now)) = true ↔
      current.fanIn.Closes
        (openSlots current.id inst.revisionNo inst.steps - 1)
        ((doneSlots current.id inst.revisionNo inst.steps).length + 1) := by
  have hpin : ∀ s ∈ filled inst current r obo now, s.At current.id inst.revisionNo →
      s.joinType = current.joinType ∧ s.quorumCount = current.quorumCount := by
    obtain ⟨as, bs, hsplit, -, hfilled⟩ := updateFirst_of_find
      (f := Step.approvedBy r obo now) hs
    intro x hx hat
    rw [filled, hfilled] at hx
    rcases List.mem_append.1 hx with hx | hx
    · exact huni x (by simp [hsplit, hx]) hat
    rcases List.mem_cons.1 hx with rfl | hx
    · exact huni s (by simp [hsplit]) hat
    · exact huni x (by simp [hsplit, hx]) hat
  have hopen := openSlots_filled current.id inst.revisionNo r obo now hs
  have hdone := (doneSlots_filled current.id inst.revisionNo r obo now hs).length_eq
  rw [if_pos ⟨rfl, rfl⟩] at hopen
  simp only [and_self, if_true, List.length_cons] at hdone
  rw [joinSatisfied_gateRows hpin, hdone, State.fanIn, show openSlots current.id inst.revisionNo inst.steps - 1 =
    openSlots current.id inst.revisionNo (filled inst current r obo now) by omega]

/-- An approval uses up an open slot of the gate.  When that closes the gate, the instance moves and
the rest of the slots are skipped; otherwise it stays. -/
theorem Fired.openSlots_approve (h : Fired dir v inst r current t out entered inst')
    (ha : r.action = .approve) (huni : Uniform inst current) :
    0 < openSlots current.id inst.revisionNo inst.steps ∧
    ((current.fanIn.Closes
        (openSlots current.id inst.revisionNo inst.steps - 1)
        ((doneSlots current.id inst.revisionNo inst.steps).length + 1) ∧
      out.newStateId = t.toStateId ∧
      ∀ g rev, openSlots g rev out.steps =
        if g = current.id ∧ rev = inst.revisionNo then 0 else openSlots g rev inst.steps) ∨
    (¬ current.fanIn.Closes
        (openSlots current.id inst.revisionNo inst.steps - 1)
        ((doneSlots current.id inst.revisionNo inst.steps).length + 1) ∧
      out.newStateId = current.id ∧
      ∀ g rev, openSlots g rev inst.steps = openSlots g rev out.steps +
        if g = current.id ∧ rev = inst.revisionNo then 1 else 0)) := by
  have hok : approveGate dir v inst current t r (r.now.getD dir.utcNow) = .ok out := by
    simpa [decideAction, ha] using h.decided
  obtain ⟨-, s, hs, -, -, hout⟩ := approveGate_eq_ok.1 hok
  dsimp only at hout
  set now := r.now.getD dir.utcNow
  set obo := (slotAuthority dir v r s now).onBehalfOf
  have hopen := fun g rev => openSlots_filled g rev r obo now hs
  have hjoin := joinSatisfied_filled r obo now huni hs
  have hpos := hopen current.id inst.revisionNo
  rw [if_pos ⟨rfl, rfl⟩] at hpos
  refine ⟨by omega, ?_⟩
  split_ifs at hout with hclosed
  · subst hout
    refine .inl ⟨hjoin.1 hclosed, rfl, fun g rev => ?_⟩
    rw [openSlots_skipRest]
    split_ifs with hat
    · rfl
    · have := hopen g rev
      rw [if_neg hat] at this
      omega
  · subst hout
    exact .inr ⟨fun h => hclosed (hjoin.2 h), rfl, hopen⟩

end

/-! ## Rows keep their template -/

/-- What a row is pinned with at activation. -/
def Step.template (s : Step) : Step :=
  { s with
    status := .pending, actedByUserId := none, onBehalfOfUserId := none, actedAt := none
    comment := none, slaDueAt := none, escalationLevel := 0 }

/-- A row carries the template of a gate of the version, the instance's unit and a revision the
instance has had. -/
def Step.Pinned (v : Version κ) (orgUnitId : Option ℕ) (revisionNo : ℕ) (s : Step) : Prop :=
  s.revisionNo ≤ revisionNo ∧ s.orgUnitId = orgUnitId ∧
    ∃ state, v.state? s.stateId = some state ∧ state.isApprovalGate = true ∧
      s.joinType = state.joinType ∧ s.quorumCount = state.quorumCount ∧
      s.requiredPermission = state.requiredPermission

def Pinned (v : Version κ) (inst : Instance) : Prop :=
  ∀ s ∈ inst.steps, s.Pinned v inst.orgUnitId inst.revisionNo

section

variable {dir : Directory} {v : Version κ} {inst inst' : Instance} {r : Request} {e : Event}
  {current : State κ} {t : Transition} {out : Outcome} {entered : List Step}

theorem Fired.template (h : Fired dir v inst r current t out entered inst') :
    out.steps.map Step.template = inst.steps.map Step.template := by
  have hskip : ∀ g rev steps, (skipRest g rev steps).map Step.template =
      steps.map Step.template := by
    intro g rev steps
    simp only [skipRest, List.map_map]
    refine List.map_congr_left fun s _ => ?_
    simp only [Function.comp_apply]
    split_ifs <;> rfl
  rcases decideAction_cases h.decided with ⟨-, hok⟩ | ⟨-, hok⟩ | ⟨-, -, -, hok⟩
  · obtain ⟨-, s, hs, -, -, rfl⟩ := approveGate_eq_ok.1 hok
    have hfilled : ∀ obo now, (filled inst current r obo now).map Step.template =
        inst.steps.map Step.template :=
      fun obo now => map_updateFirst (f := Step.approvedBy r obo now) (fun _ => rfl) _
    dsimp only
    split_ifs
    · rw [hskip, hfilled]
    · rw [hfilled]
  · obtain ⟨-, rfl⟩ := resolveGate_eq_ok.1 hok
    simp only [resolveRows, List.map_map]
    refine List.map_congr_left fun s _ => ?_
    simp only [Function.comp_apply]
    split_ifs <;> rfl
  · obtain ⟨-, rfl⟩ := originatorAction_eq_ok.1 hok
    rfl

theorem pinned_of_template {v : Version κ} {orgUnitId : Option ℕ} {revisionNo : ℕ}
    {steps steps' : List Step} (h : steps'.map Step.template = steps.map Step.template)
    (hs : ∀ s ∈ steps, s.Pinned v orgUnitId revisionNo) :
    ∀ s ∈ steps', s.Pinned v orgUnitId revisionNo := by
  intro s hmem
  have hmem' : s.template ∈ steps.map Step.template := by
    rw [← h]
    exact List.mem_map_of_mem hmem
  obtain ⟨s', hs', heq⟩ := List.mem_map.1 hmem'
  have hpin : s'.template.Pinned v orgUnitId revisionNo := hs s' hs'
  rw [heq] at hpin
  exact hpin

theorem activateStateSteps_pinned {state : State κ} {rev : ℕ} {orgUnitId : Option ℕ} {now : Time}
    (hv : v.state? state.id = some state) :
    ∀ s ∈ activateStateSteps state rev orgUnitId now, s.Pinned v orgUnitId rev := by
  intro s hs
  unfold activateStateSteps at hs
  split_ifs at hs with hgate
  · obtain ⟨seq, -, rfl⟩ := List.mem_map.1 hs
    exact ⟨le_rfl, rfl, state, hv, hgate, rfl, rfl, rfl⟩
  · simp at hs

theorem Fired.pinned (h : Fired dir v inst r current t out entered inst') (hp : Pinned v inst) :
    Pinned v inst' := by
  have hrev : inst.revisionNo ≤ out.revisionNo := by
    rw [h.revision]
    split_ifs <;> omega
  have hold : ∀ s ∈ out.steps, s.Pinned v inst.orgUnitId out.revisionNo := fun s hs =>
    let ⟨hle, hpin⟩ := pinned_of_template h.template hp s hs
    ⟨hle.trans hrev, hpin⟩
  have hnew : ∀ s ∈ entered, s.Pinned v inst.orgUnitId out.revisionNo := by
    rcases h.entered_cases with ⟨-, rfl⟩ | ⟨-, next, hnext, rfl⟩
    · simp
    · have hid := Version.state?_id hnext
      exact activateStateSteps_pinned (by rw [hid]; exact hnext)
  rw [h.result]
  intro s hs
  rcases List.mem_append.1 hs with hs | hs
  · exact hold s hs
  · exact hnew s hs

theorem Pinned.uniform (hp : Pinned v inst) (hc : v.state? inst.currentStateId = some current) :
    Uniform inst current := by
  intro s hs hat
  obtain ⟨-, -, state, hstate, -, hjoin, hquorum, -⟩ := hp s hs
  have hid := Version.state?_id hc
  rw [hat.1, hid, hc] at hstate
  obtain rfl := Option.some.inj hstate
  exact ⟨hjoin, hquorum⟩

/-- The open slot of the current gate asks for the gate's permission in the instance's unit. -/
theorem Pinned.activeSlot {s : Step} (hp : Pinned v inst)
    (hc : v.state? inst.currentStateId = some current)
    (hslot : inst.steps.find? (activeSlot current.id inst.revisionNo) = some s) :
    s.requiredPermission = current.requiredPermission ∧ s.orgUnitId = inst.orgUnitId := by
  obtain ⟨-, horg, state, hstate, -, -, -, hperm⟩ := hp s (List.mem_of_find?_eq_some hslot)
  have hat := List.find?_some hslot
  simp only [Workflow.activeSlot, decide_eq_true_eq] at hat
  rw [hat.1.1, Version.state?_id hc, hc] at hstate
  obtain rfl := Option.some.inj hstate
  exact ⟨hperm, horg⟩

end

/-! ## Calls that move nothing -/

/-- What is left of a row without its due date and its escalation level. -/
def Step.core (s : Step) : Step := { s with slaDueAt := none, escalationLevel := 0 }

/-- The instance stays where it is, no row is signed and no transition is logged. -/
structure Quiet (inst inst' : Instance) : Prop where
  version : inst'.definitionVersionId = inst.definitionVersionId
  state : inst'.currentStateId = inst.currentStateId
  rowVersion : inst'.rowVersion = inst.rowVersion
  revision : inst'.revisionNo = inst.revisionNo
  originator : inst'.originatorUserId = inst.originatorUserId
  orgUnit : inst'.orgUnitId = inst.orgUnitId
  core : inst'.steps.map Step.core = inst.steps.map Step.core
  events : ∃ extra, inst'.events = inst.events ++ extra ∧
    ∀ e ∈ extra, e.eventType ≠ .transition ∧ e.action = none ∧ e.toStateId = none ∧
      e.idempotencyKey = none

section

variable {v : Version κ} {inst inst' : Instance}

theorem doneSlots_core (g rev : ℕ) (steps : List Step) :
    doneSlots g rev (steps.map Step.core) = doneSlots g rev steps := by
  simp only [doneSlots, List.filter_map, List.map_map]
  rfl

theorem openSlots_core (g rev : ℕ) (steps : List Step) :
    openSlots g rev (steps.map Step.core) = openSlots g rev steps := by
  simp only [openSlots, List.countP_map]
  rfl

theorem Quiet.refl (inst : Instance) : Quiet inst inst :=
  ⟨rfl, rfl, rfl, rfl, rfl, rfl, rfl, [], by simp, by simp⟩

theorem Quiet.doneSlots (h : Quiet inst inst') (g rev : ℕ) :
    doneSlots g rev inst'.steps = doneSlots g rev inst.steps := by
  rw [← doneSlots_core, h.core, doneSlots_core]

theorem Quiet.openSlots (h : Quiet inst inst') (g rev : ℕ) :
    openSlots g rev inst'.steps = openSlots g rev inst.steps := by
  rw [← openSlots_core, h.core, openSlots_core]

theorem Quiet.template (h : Quiet inst inst') :
    inst'.steps.map Step.template = inst.steps.map Step.template := by
  have hcore : ∀ steps : List Step,
      steps.map Step.template = (steps.map Step.core).map Step.template := by
    intro steps
    simp only [List.map_map]
    rfl
  rw [hcore, h.core, ← hcore]

theorem quiet_sweepDueSteps (now : Time) (picked : List ℕ) :
    Quiet inst (sweepDueSteps now picked inst) where
  version := rfl
  state := rfl
  rowVersion := rfl
  revision := rfl
  originator := rfl
  orgUnit := rfl
  core := by
    refine List.ext_getElem? fun i => ?_
    simp only [sweepDueSteps, List.getElem?_map, List.getElem?_mapIdx, Option.map_map]
    refine congrArg (Option.map · _) (funext fun s => ?_)
    simp only [Function.comp_apply]
    split_ifs <;> rfl
  events := by
    refine ⟨_, rfl, fun e he => ?_⟩
    obtain ⟨i, -, rfl⟩ := List.mem_map.1 he
    exact ⟨by simp, rfl, rfl, rfl⟩

theorem quiet_stampSla (stateId : ℕ) (due : Time) : Quiet inst (stampSla stateId due inst) where
  version := rfl
  state := rfl
  rowVersion := rfl
  revision := rfl
  originator := rfl
  orgUnit := rfl
  core := by
    simp only [stampSla, List.map_map]
    refine List.map_congr_left fun s _ => ?_
    simp only [Function.comp_apply]
    split_ifs <;> rfl
  events := ⟨[], by simp [stampSla], by simp⟩

/-- Every returning call is quiet or takes a transition. -/
theorem Call.apply_cases {c : Call} (h : c.apply v inst = .ok inst') :
    Quiet inst inst' ∨ ∃ dir r current t out entered, c = .act dir r ∧
      Fired dir v inst r current t out entered inst' := by
  cases c with
  | act dir r =>
      obtain ⟨⟨e, inst''⟩, hex, rfl⟩ := map_eq_ok.1 h
      rcases executeAction_cases hex with ⟨-, heq⟩ | ⟨current, t, out, entered, hf, -⟩
      · dsimp only
        rw [heq]
        exact .inl (Quiet.refl inst)
      · exact .inr ⟨dir, r, current, t, out, entered, rfl, hf⟩
  | sweep now picked =>
      obtain rfl := Except.ok.inj h
      exact .inl (quiet_sweepDueSteps now picked)
  | remind stepId level revisionNo =>
      obtain rfl := Except.ok.inj h
      exact .inl ⟨rfl, rfl, rfl, rfl, rfl, rfl, rfl, _, rfl, by simp⟩
  | setAmount amount =>
      obtain rfl := Except.ok.inj h
      exact .inl ⟨rfl, rfl, rfl, rfl, rfl, rfl, rfl, [], by simp, by simp⟩
  | stampSla stateId due =>
      obtain rfl := Except.ok.inj h
      exact .inl (quiet_stampSla stateId due)

theorem Quiet.pinned (h : Quiet inst inst') (hp : Pinned v inst) : Pinned v inst' := by
  unfold Pinned
  rw [h.orgUnit, h.revision]
  exact pinned_of_template h.template hp

theorem Call.apply_pinned {c : Call} (h : c.apply v inst = .ok inst') (hp : Pinned v inst) :
    Pinned v inst' := by
  rcases Call.apply_cases h with hq | ⟨dir, r, current, t, out, entered, -, hf⟩
  · exact hq.pinned hp
  · exact hf.pinned hp

theorem initialState_mem {initial : State κ} (h : initialState v = some initial) :
    initial ∈ v.states := List.mem_of_find?_eq_some h

end

/-! ## Started instances -/

section

variable [ToString κ] {v : Published κ} {initial : State κ}

/-- Ids are keys: looking a state of the version up by its id finds it. -/
theorem Published.state?_of_mem (v : Published κ) {s : State κ} (hs : s ∈ v.states) :
    v.state? s.id = some s := by
  obtain ⟨s', hs'⟩ : ∃ s', v.state? s.id = some s' :=
    Option.isSome_iff_exists.1 (List.find?_isSome.2 ⟨s, hs, by simp⟩)
  have hmem : s' ∈ v.states := List.mem_of_find?_eq_some hs'
  rw [hs', List.inj_on_of_nodup_map v.idsNodup hmem hs (Version.state?_id hs')]

theorem newInstance_pinned (h : initialState v.toVersion = some initial) (start : Start)
    (now : Time) : Pinned v.toVersion (newInstance v.toVersion initial start now) :=
  activateStateSteps_pinned (v.state?_of_mem (initialState_mem h))

/-- Every row of every reachable instance carries its gate's template. -/
theorem runFrom_pinned (h : initialState v.toVersion = some initial) (start : Start) (now : Time)
    (calls : List Call) : Pinned v.toVersion (runFrom v.toVersion initial start now calls) :=
  run_invariant (P := fun _ _ => True) (fun _ _ _ _ hp hc => Call.apply_pinned hc hp) calls _
    (newInstance_pinned h start now) (conforms_true _ _)

end

end OfficeConnect.Workflow
