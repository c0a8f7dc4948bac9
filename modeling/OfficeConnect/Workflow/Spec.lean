import OfficeConnect.Workflow.Engine

/-!
# What one action does

The executor inverted, once: which checks a returning call has passed and which row it leaves.  Two
measures of the step rows carry every later argument, the completed slots of a gate and the number
of its open ones, and each branch of the executor is described by what it does to them.
-/

namespace OfficeConnect.Workflow

open Lib

variable {κ : Type} {dir : Directory} {v : Version κ} {inst inst' : Instance} {r : Request}
  {current : State κ} {t : Transition} {out : Outcome} {e : Event} {now : Time}

/-! ## Inversion -/

theorem route_eq_ok :
    route v inst r = .ok (current, t) ↔
      (∀ n, r.expectedVersion = some n → inst.rowVersion = n) ∧
      v.state? inst.currentStateId = some current ∧ current.kind ≠ .terminal ∧
      selectTransition v inst current r.action = some t ∧
      ¬ ((t.requiresComment ∨ current.requiresComment) ∧ blank r.comment) := by
  simp only [route, bind_eq_ok, refuse_eq_ok, found_eq_ok, pure_eq_ok, Prod.mk.injEq]
  constructor
  · rintro ⟨-, hver, c, hc, -, hk, t', ht, -, hcom, rfl, rfl⟩
    exact ⟨fun n hn => by by_contra hne; exact hver ⟨n, hn, hne⟩, hc, hk, ht, hcom⟩
  · rintro ⟨hver, hc, hk, ht, hcom⟩
    refine ⟨(), ?_, current, hc, (), hk, t, ht, (), hcom, rfl, rfl⟩
    rintro ⟨n, hn, hne⟩
    exact hne (hver n hn)

theorem replayed_mem {key : Option String} (h : replayed inst key = some e) :
    e ∈ inst.events ∧ e.idempotencyKey = key := by
  unfold replayed at h
  split_ifs at h
  exact ⟨List.mem_of_find?_eq_some h, by simpa using List.find?_some h⟩

theorem executeAction_eq_ok :
    executeAction dir v inst r = .ok (e, inst') ↔
      (replayed inst r.idempotencyKey = some e ∧ inst' = inst) ∨
      (replayed inst r.idempotencyKey = none ∧ ∃ current t out,
        route v inst r = .ok (current, t) ∧
        decideAction dir v inst current t r (r.now.getD dir.utcNow) = .ok out ∧
        advance v inst current r out (r.now.getD dir.utcNow) = .ok (e, inst')) := by
  unfold executeAction
  cases hrep : replayed inst r.idempotencyKey with
  | some e' => simp [eq_comm]
  | none => simp

theorem advance_eq_ok :
    advance v inst current r out now = .ok (e, inst') ↔
      ∃ entered, enteredSteps v inst current out now = .ok entered ∧
        ¬ (r.idempotencyKey ≠ none ∧ ∃ e ∈ inst.events, e.idempotencyKey = r.idempotencyKey) ∧
        e = emitEvent current r out ∧
        inst' = { inst with
          currentStateId := out.newStateId
          rowVersion := inst.rowVersion + 1
          revisionNo := out.revisionNo
          steps := out.steps ++ entered
          events := inst.events ++ [emitEvent current r out] } := by
  simp only [advance, bind_eq_ok, refuse_eq_ok, pure_eq_ok, Prod.mk.injEq]
  constructor
  · rintro ⟨entered, h, -, hkey, rfl, rfl⟩
    exact ⟨entered, h, hkey, rfl, rfl⟩
  · rintro ⟨entered, h, hkey, rfl, rfl⟩
    exact ⟨entered, h, (), hkey, rfl, rfl⟩

/-- A move to another state enters it; anything else spawns no rows. -/
theorem enteredSteps_eq_ok {entered : List Step} :
    enteredSteps v inst current out now = .ok entered ↔
      (out.newStateId = current.id ∧ entered = []) ∨
      (out.newStateId ≠ current.id ∧ ∃ next, v.state? out.newStateId = some next ∧
        entered = activateStateSteps next out.revisionNo inst.orgUnitId now) := by
  unfold enteredSteps
  split_ifs with h
  · simp [h, eq_comm]
  · simp only [bind_eq_ok, found_eq_ok, pure_eq_ok, h, false_and, not_false_eq_true, true_and,
      false_or, ne_eq, @eq_comm _ entered]

/-- The action goes to the approval branch, to the return and reject branch, or to the originator
branch. -/
theorem decideAction_cases (h : decideAction dir v inst current t r now = .ok out) :
    (r.action = .approve ∧ approveGate dir v inst current t r now = .ok out) ∨
    ((r.action = .return ∨ r.action = .reject) ∧
      resolveGate dir v inst current t r now = .ok out) ∨
    (r.action ≠ .approve ∧ r.action ≠ .return ∧ r.action ≠ .reject ∧
      originatorAction dir v inst t r now = .ok out) := by
  unfold decideAction at h
  cases ha : r.action <;> simp_all

/-- The authority an approval is checked against: the open slot's pinned permission and unit. -/
def slotAuthority (dir : Directory) (v : Version κ) (r : Request) (s : Step) (now : Time) :
    Authority :=
  resolveAuthority dir r.actorUserId s.requiredPermission s.orgUnitId v.definitionId now

/-- The step rows right after the open slot is filled, before the fan-in is evaluated. -/
def filled (inst : Instance) (current : State κ) (r : Request) (onBehalfOf : Option ℕ)
    (now : Time) : List Step :=
  updateFirst (activeSlot current.id inst.revisionNo) (Step.approvedBy r onBehalfOf now) inst.steps

@[simp] theorem mem_gateSteps {s : Step} {g rev : ℕ} :
    s ∈ inst.gateSteps g rev ↔ s ∈ inst.steps ∧ s.At g rev := by
  simp [Instance.gateSteps, gateRows]

theorem find_active_gateRows (g rev : ℕ) (steps : List Step) :
    (gateRows g rev steps).find? (·.status = .active) = steps.find? (activeSlot g rev) := by
  simp only [gateRows, List.find?_filter]
  congr 1
  funext s
  simp [activeSlot]

theorem approveGate_eq_ok :
    approveGate dir v inst current t r now = .ok out ↔
      (¬ ∃ s ∈ inst.gateSteps current.id inst.revisionNo,
        s.actedByUserId = some r.actorUserId ∧ s.status = .done) ∧
      ∃ s, inst.steps.find? (activeSlot current.id inst.revisionNo) = some s ∧
        (slotAuthority dir v r s now).authorized = true ∧
        checkSegregation inst current (inst.gateSteps current.id inst.revisionNo)
          r.actorUserId = .ok () ∧
        let obo := (slotAuthority dir v r s now).onBehalfOf
        let steps := filled inst current r obo now
        let closed := joinSatisfied (gateRows current.id inst.revisionNo steps)
        out = {
          steps := if closed then skipRest current.id inst.revisionNo steps else steps
          revisionNo := inst.revisionNo
          newStateId := if closed then t.toStateId else current.id
          onBehalfOf := obo
          actedStepId := some (inst.steps.findIdx (activeSlot current.id inst.revisionNo)) } := by
  rw [← find_active_gateRows]
  simp only [approveGate, bind_eq_ok, refuse_eq_ok, found_eq_ok, pure_eq_ok, not_not]
  constructor
  · rintro ⟨-, hdup, s, hs, -, hauth, _, hseg, rfl⟩
    exact ⟨hdup, s, hs, hauth, hseg, rfl⟩
  · rintro ⟨hdup, s, hs, hauth, hseg, rfl⟩
    exact ⟨(), hdup, s, hs, (), hauth, (), hseg, rfl⟩

theorem resolveGate_eq_ok :
    resolveGate dir v inst current t r now = .ok out ↔
      let auth := resolveAuthority dir r.actorUserId
        (orText current.requiredPermission t.requiredPermission) inst.orgUnitId v.definitionId now
      auth.authorized = true ∧
      out = {
        steps := resolveRows current.id inst.revisionNo r auth.onBehalfOf now inst.steps
        revisionNo := inst.revisionNo
        newStateId := t.toStateId
        onBehalfOf := auth.onBehalfOf } := by
  simp only [resolveGate, bind_eq_ok, refuse_eq_ok, pure_eq_ok, not_not]
  constructor
  · rintro ⟨-, hauth, rfl⟩
    exact ⟨hauth, rfl⟩
  · rintro ⟨hauth, rfl⟩
    exact ⟨(), hauth, rfl⟩

theorem originatorAction_eq_ok :
    originatorAction dir v inst t r now = .ok out ↔
      let auth := authorizeOriginator dir v inst t r.actorUserId now
      auth.authorized = true ∧
      out = {
        steps := inst.steps
        revisionNo := if r.action = .resubmit then inst.revisionNo + 1 else inst.revisionNo
        newStateId := t.toStateId
        onBehalfOf := auth.onBehalfOf } := by
  simp only [originatorAction, bind_eq_ok, refuse_eq_ok, pure_eq_ok, not_not]
  constructor
  · rintro ⟨-, hauth, rfl⟩
    exact ⟨hauth, rfl⟩
  · rintro ⟨hauth, rfl⟩
    exact ⟨(), hauth, rfl⟩

/-! ## The two measures of a gate -/

/-- The completed slots of a gate: who filled each one, and for whom. -/
def doneSlots (g rev : ℕ) (steps : List Step) : List (Option ℕ × Option ℕ) :=
  (steps.filter fun s => s.At g rev ∧ s.status = .done).map
    fun s => (s.actedByUserId, s.onBehalfOfUserId)

/-- The number of open slots of a gate. -/
def openSlots (g rev : ℕ) (steps : List Step) : ℕ := steps.countP (activeSlot g rev)

section Measures

variable {g rev g' rev' : ℕ} {steps : List Step}

@[simp] theorem doneSlots_append (as bs : List Step) :
    doneSlots g rev (as ++ bs) = doneSlots g rev as ++ doneSlots g rev bs := by
  simp [doneSlots]

@[simp] theorem openSlots_append (as bs : List Step) :
    openSlots g rev (as ++ bs) = openSlots g rev as + openSlots g rev bs := by
  simp [openSlots]

theorem doneSlots_cons_of_pos {s : Step} (hat : s.At g rev) (hs : s.status = .done) :
    doneSlots g rev (s :: steps) =
      (s.actedByUserId, s.onBehalfOfUserId) :: doneSlots g rev steps := by
  rw [doneSlots, List.filter_cons_of_pos (by simp [hat, hs]), List.map_cons, doneSlots]

theorem doneSlots_cons_of_neg {s : Step} (hs : ¬ (s.At g rev ∧ s.status = .done)) :
    doneSlots g rev (s :: steps) = doneSlots g rev steps := by
  rw [doneSlots, List.filter_cons_of_neg (by simpa using hs), doneSlots]

theorem mem_doneSlots {a o : Option ℕ} :
    (a, o) ∈ doneSlots g rev steps ↔
      ∃ s ∈ steps, s.At g rev ∧ s.status = .done ∧ s.actedByUserId = a ∧
        s.onBehalfOfUserId = o := by
  simp [doneSlots, and_assoc]

theorem openSlots_pos : 0 < openSlots g rev steps ↔ ∃ s ∈ steps, s.At g rev ∧ s.status = .active := by
  simp [openSlots, List.countP_pos_iff, activeSlot]

theorem activateStateSteps_active {state : State κ} {orgUnitId : Option ℕ} {s : Step}
    (hs : s ∈ activateStateSteps state rev orgUnitId now) : s.status = .active := by
  unfold activateStateSteps at hs
  split_ifs at hs
  · obtain ⟨seq, -, rfl⟩ := List.mem_map.1 hs
    rfl
  · simp at hs

@[simp] theorem doneSlots_activateStateSteps (state : State κ) (orgUnitId : Option ℕ) :
    doneSlots g' rev' (activateStateSteps state rev orgUnitId now) = [] := by
  simp only [doneSlots, List.map_eq_nil_iff, List.filter_eq_nil_iff, decide_eq_true_eq]
  intro s hs ⟨_, hdone⟩
  rw [activateStateSteps_active hs] at hdone
  cases hdone

/-- Entering a gate opens `max 1 step_count` slots of it and of nothing else. -/
theorem openSlots_activateStateSteps (state : State κ) (orgUnitId : Option ℕ) :
    openSlots g' rev' (activateStateSteps state rev orgUnitId now) =
      if state.isApprovalGate ∧ state.id = g' ∧ rev = rev' then (max 1 state.stepCount).toNat
      else 0 := by
  unfold activateStateSteps
  by_cases hgate : state.isApprovalGate
  · by_cases hat : state.id = g' ∧ rev = rev'
    · simp [openSlots, hgate, hat, List.countP_map, Function.comp_def, activeSlot, Step.At]
    · simp [openSlots, hgate, hat, List.countP_map, Function.comp_def, activeSlot, Step.At]
  · simp [openSlots, hgate]

/-- A write that only resolves open rows of one gate closes that gate. -/
theorem openSlots_of_resolved {f : Step → Step}
    (hf : ∀ s, (f s).At g' rev' ↔ s.At g' rev')
    (hstatus : ∀ s, s.At g rev → (f s).status ≠ .active)
    (hother : ∀ s, ¬ s.At g rev → (f s).status = s.status) :
    openSlots g' rev' (steps.map f) =
      if g' = g ∧ rev' = rev then 0 else openSlots g' rev' steps := by
  unfold openSlots
  rw [List.countP_map]
  split_ifs with h
  · obtain ⟨rfl, rfl⟩ := h
    refine List.countP_eq_zero.2 fun s _ hs => ?_
    simp only [Function.comp_apply, activeSlot, hf, decide_eq_true_eq] at hs
    exact hstatus s hs.1 hs.2
  · refine List.countP_congr fun s _ => ?_
    simp only [Function.comp_apply, activeSlot, hf, decide_eq_true_eq]
    refine and_congr_right fun hat => ?_
    have hne : ¬ s.At g rev := fun hs => h ⟨hat.1.symm.trans hs.1, hat.2.symm.trans hs.2⟩
    rw [hother s hne]

theorem openSlots_skipRest :
    openSlots g' rev' (skipRest g rev steps) =
      if g' = g ∧ rev' = rev then 0 else openSlots g' rev' steps := by
  refine openSlots_of_resolved (fun s => ?_) (fun s hs => ?_) (fun s hs => ?_)
  · split_ifs <;> rfl
  · split_ifs with h
    · simp
    · exact fun ha => h ⟨hs, ha⟩
  · rw [if_neg fun h => hs h.1]

theorem openSlots_resolveRows {obo : Option ℕ} :
    openSlots g' rev' (resolveRows g rev r obo now steps) =
      if g' = g ∧ rev' = rev then 0 else openSlots g' rev' steps := by
  refine openSlots_of_resolved (fun s => ?_) (fun s hs => ?_) (fun s hs => ?_)
  · split_ifs <;> rfl
  · split_ifs with h h'
    · simp
    · simp
    · exact fun ha => h ⟨hs, .inl ha⟩
  · rw [if_neg fun h => hs h.1]

/-- A write that leaves completed rows alone and completes none keeps the completed slots. -/
theorem doneSlots_map {f : Step → Step} (hdone : ∀ s, s.status = .done → f s = s)
    (hnew : ∀ s, (f s).status = .done → s.status = .done) :
    doneSlots g rev (steps.map f) = doneSlots g rev steps := by
  induction steps with
  | nil => rfl
  | cons s steps ih =>
      rw [List.map_cons]
      by_cases hs : s.At g rev ∧ s.status = .done
      · rw [hdone s hs.2, doneSlots_cons_of_pos hs.1 hs.2, doneSlots_cons_of_pos hs.1 hs.2, ih]
      · rw [doneSlots_cons_of_neg hs, doneSlots_cons_of_neg, ih]
        intro ⟨hat, hf⟩
        have hd := hnew s hf
        rw [hdone s hd] at hat
        exact hs ⟨hat, hd⟩

theorem doneSlots_skipRest : doneSlots g' rev' (skipRest g rev steps) = doneSlots g' rev' steps := by
  refine doneSlots_map (fun s hs => ?_) (fun s hs => ?_)
  · simp [hs]
  · split_ifs at hs
    exact hs

theorem doneSlots_resolveRows {obo : Option ℕ} :
    doneSlots g' rev' (resolveRows g rev r obo now steps) = doneSlots g' rev' steps := by
  refine doneSlots_map (fun s hs => ?_) (fun s hs => ?_)
  · simp [hs]
  · split_ifs at hs
    exact hs

/-- An approval fills one open slot of the gate with the actor. -/
theorem doneSlots_filled (g rev : ℕ) (r : Request) (obo : Option ℕ) (now : Time) {s : Step}
    (hs : inst.steps.find? (activeSlot current.id inst.revisionNo) = some s) :
    (doneSlots g rev (filled inst current r obo now)).Perm
      (if g = current.id ∧ rev = inst.revisionNo then
        (some r.actorUserId, obo) :: doneSlots g rev inst.steps
      else doneSlots g rev inst.steps) := by
  obtain ⟨as, bs, hsplit, -, hfilled⟩ := updateFirst_of_find
    (f := Step.approvedBy r obo now) hs
  have hslot := List.find?_some hs
  simp only [activeSlot, decide_eq_true_eq] at hslot
  rw [filled, hfilled, hsplit]
  split_ifs with h
  · obtain ⟨rfl, rfl⟩ := h
    have hnew : (Step.approvedBy r obo now s).At current.id inst.revisionNo := hslot.1
    rw [doneSlots_append, doneSlots_append, doneSlots_cons_of_pos hnew rfl,
      doneSlots_cons_of_neg fun hd => by simp [hslot.2] at hd]
    exact List.perm_middle
  · have hne : ¬ s.At g rev := fun hs => h ⟨hs.1.symm.trans hslot.1.1, hs.2.symm.trans hslot.1.2⟩
    have hne' : ¬ (Step.approvedBy r obo now s).At g rev := hne
    rw [doneSlots_append, doneSlots_append, doneSlots_cons_of_neg fun hd => hne hd.1,
      doneSlots_cons_of_neg fun hd => hne' hd.1]

theorem openSlots_filled (g rev : ℕ) (r : Request) (obo : Option ℕ) (now : Time) {s : Step}
    (hs : inst.steps.find? (activeSlot current.id inst.revisionNo) = some s) :
    openSlots g rev inst.steps = openSlots g rev (filled inst current r obo now) +
      if g = current.id ∧ rev = inst.revisionNo then 1 else 0 := by
  obtain ⟨as, bs, hsplit, -, hfilled⟩ := updateFirst_of_find
    (f := Step.approvedBy r obo now) hs
  have hslot := List.find?_some hs
  simp only [activeSlot, decide_eq_true_eq] at hslot
  have hnew : activeSlot g rev (Step.approvedBy r obo now s) = false := by
    simp [activeSlot, Step.approvedBy]
  rw [filled, hfilled, hsplit]
  have hold : activeSlot g rev s = decide (g = current.id ∧ rev = inst.revisionNo) := by
    have : s.At g rev ↔ g = current.id ∧ rev = inst.revisionNo := by
      rw [← hslot.1.1, ← hslot.1.2, Step.At, eq_comm, @eq_comm _ rev]
    simp [activeSlot, hslot.2, this]
  simp only [openSlots, List.countP_append, List.countP_cons, hnew, hold, decide_eq_true_eq,
    Bool.false_eq_true, if_false]
  omega

/-! ## The fan-in in terms of the measures -/

/-- The rule a join amounts to: one completed slot, every live slot, or a number of them. -/
inductive FanIn where
  | any | all | atLeast (quorum : ℤ)
deriving DecidableEq, Repr

/-- A quorum without a count, or with the count zero, asks for every live slot. -/
def fanIn (join : JoinType) (quorum : Option ℤ) : FanIn :=
  match join with
  | .any => .any
  | .quorum =>
      match quorum with
      | none | some 0 => .all
      | some q => .atLeast q
  | .all => .all

def State.fanIn (state : State κ) : FanIn := Workflow.fanIn state.joinType state.quorumCount

/-- The fan-in condition of a gate with `active` open and `done` completed slots. -/
def FanIn.Closes : FanIn → ℕ → ℕ → Prop
  | any, _, done => 1 ≤ done
  | all, active, done => active = 0 ∧ 1 ≤ done
  | atLeast quorum, active, done => 0 < active + done ∧ quorum ≤ done

/-- The live rows of the gate that are done are its completed slots. -/
theorem countP_live_done : ((gateRows g rev steps).filter fun s =>
    s.status = .active ∨ s.status = .done).countP (·.status = .done) =
      (doneSlots g rev steps).length := by
  simp only [doneSlots, gateRows, List.length_map, List.countP_filter,
    ← List.countP_eq_length_filter]
  refine List.countP_congr fun s _ => ?_
  simp only [Bool.and_eq_true, decide_eq_true_eq]
  tauto

/-- The live rows of the gate are its open and its completed slots. -/
theorem length_live : ((gateRows g rev steps).filter fun s =>
    s.status = .active ∨ s.status = .done).length =
      openSlots g rev steps + (doneSlots g rev steps).length := by
  rw [List.length_eq_countP_add_countP (·.status = .done), countP_live_done, add_comm]
  congr 1
  simp only [openSlots, gateRows, List.countP_filter]
  refine List.countP_congr fun s _ => ?_
  simp only [Bool.and_eq_true, decide_eq_true_eq, activeSlot, decide_not, Bool.not_eq_true',
    decide_eq_false_iff_not]
  constructor
  · rintro ⟨⟨hnd, ha | hd⟩, hat⟩
    · exact ⟨hat, ha⟩
    · exact absurd hd hnd
  · rintro ⟨hat, ha⟩
    exact ⟨⟨by simp [ha], .inl ha⟩, hat⟩

theorem joinSatisfied_gateRows {join : JoinType} {quorum : Option ℤ}
    (hpin : ∀ s ∈ steps, s.At g rev → s.joinType = join ∧ s.quorumCount = quorum) :
    joinSatisfied (gateRows g rev steps) = true ↔
      (fanIn join quorum).Closes (openSlots g rev steps) (doneSlots g rev steps).length := by
  set live := (gateRows g rev steps).filter fun s => s.status = .active ∨ s.status = .done with hlive
  have hdone : live.countP (·.status = .done) = (doneSlots g rev steps).length := countP_live_done
  have htotal : live.length = openSlots g rev steps + (doneSlots g rev steps).length := length_live
  have hpinned : ∀ s ∈ live, s.joinType = join ∧ s.quorumCount = quorum := by
    intro s hs
    simp only [hlive, gateRows, List.mem_filter, decide_eq_true_eq] at hs
    exact hpin s hs.1.1 hs.1.2
  simp only [joinSatisfied, ← hlive, hdone, htotal]
  cases hl : live with
  | nil =>
      have hzero : openSlots g rev steps + (doneSlots g rev steps).length = 0 := by
        rw [← htotal, hl]
        rfl
      unfold FanIn.Closes
      simp only [Bool.false_eq_true, false_iff]
      split <;> omega
  | cons first rest =>
      obtain ⟨hj, hq⟩ := hpinned first (by simp [hl])
      have hpos : 0 < openSlots g rev steps + (doneSlots g rev steps).length := by
        rw [← htotal, hl]
        simp
      unfold fanIn
      simp only [hj, hq]
      cases join with
      | any => simp [FanIn.Closes]
      | all =>
          simp only [FanIn.Closes, decide_eq_true_eq]
          omega
      | quorum =>
          dsimp only
          split
          · simp only [FanIn.Closes, decide_eq_true_eq]
            omega
          · simp only [FanIn.Closes, decide_eq_true_eq]
            omega
          · simp only [FanIn.Closes, decide_eq_true_eq]
            omega

end Measures

end OfficeConnect.Workflow
