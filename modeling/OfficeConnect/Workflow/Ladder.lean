import Mathlib.Data.List.DropRight
import OfficeConnect.Workflow.Machine

/-!
# Chains that climb

A ladder is a definition whose gates take one signature and whose every move but a resubmission
climbs in rank.  On a ladder a state is entered at most once in a revision, so an approval always
closes its gate, an instance never stands twice in one place of one revision, and the approvals
since the last submission are the rungs below where it stands, in order.
-/

namespace OfficeConnect.Workflow

open Lib

variable {κ : Type}

structure Ladder (v : Version κ) (rank : ℕ → ℕ) : Prop where
  single : ∀ s ∈ v.states, s.isApprovalGate = true → s.joinType = .all ∧ s.stepCount = 1
  climbs : ∀ t ∈ v.transitions, t.action ≠ .resubmit → rank t.fromStateId < rank t.toStateId
  leaves : ∀ t ∈ v.transitions, t.toStateId ≠ t.fromStateId
  originates : ∀ t ∈ v.transitions, t.action ≠ .approve → t.action ≠ .return →
    t.action ≠ .reject → ∀ s ∈ v.states, s.id = t.fromStateId → s.isApprovalGate = false

/-- Where an instance stands: rows of this revision are no higher, the current gate has its one open
slot and nothing else is open. -/
structure OnLadder (v : Version κ) (rank : ℕ → ℕ) (inst : Instance) : Prop where
  version : inst.definitionVersionId = v.id
  state : ∃ current, v.state? inst.currentStateId = some current
  pinned : Pinned v inst
  past : ∀ s ∈ inst.steps, s.revisionNo = inst.revisionNo →
    rank s.stateId ≤ rank inst.currentStateId
  unsigned : doneSlots inst.currentStateId inst.revisionNo inst.steps = []
  slots : ∀ current, v.state? inst.currentStateId = some current → ∀ g rev,
    openSlots g rev inst.steps =
      if current.isApprovalGate = true ∧ g = current.id ∧ rev = inst.revisionNo then 1 else 0

/-- A place the instance has left: an earlier revision, or a lower rank of this one. -/
def Before (rank : ℕ → ℕ) (inst : Instance) (revisionNo stateId : ℕ) : Prop :=
  revisionNo < inst.revisionNo ∨
    revisionNo = inst.revisionNo ∧ rank stateId < rank inst.currentStateId

section

variable {rank : ℕ → ℕ} {dir : Directory} {v : Version κ} {inst inst' : Instance} {r : Request}
  {current : State κ} {t : Transition} {out : Outcome} {entered : List Step}

theorem Fired.transition (h : Fired dir v inst r current t out entered inst') :
    t ∈ v.transitions ∧ t.fromStateId = current.id ∧ t.action = r.action :=
  have hsel := selectTransition_mem h.selected
  ⟨hsel.1, hsel.2.1, hsel.2.2.1⟩

/-- A row that kept its template is at a place a row was at before. -/
theorem exists_row_of_template {steps steps' : List Step}
    (h : steps'.map Step.template = steps.map Step.template) {s : Step} (hs : s ∈ steps') :
    ∃ s' ∈ steps, s'.stateId = s.stateId ∧ s'.revisionNo = s.revisionNo := by
  have hmem : s.template ∈ steps.map Step.template := by
    rw [← h]
    exact List.mem_map_of_mem hs
  obtain ⟨s', hs', heq⟩ := List.mem_map.1 hmem
  have hst : s'.template.stateId = s.template.stateId := by rw [heq]
  have hrev : s'.template.revisionNo = s.template.revisionNo := by rw [heq]
  exact ⟨s', hs', hst, hrev⟩

/-! ## One action -/

/-- On a ladder every action takes its transition: no approval is partial. -/
theorem Fired.moves (h : Fired dir v inst r current t out entered inst') (hl : Ladder v rank)
    (ho : OnLadder v rank inst) : out.newStateId = t.toStateId := by
  rcases h.newState with hto | ⟨ha, -⟩
  · exact hto
  · obtain ⟨hpos, hclosed | ⟨hopen, -⟩⟩ := h.openSlots_approve ha (ho.pinned.uniform h.state)
    · exact hclosed.2.1
    · have hslots := ho.slots current h.state current.id inst.revisionNo
      split_ifs at hslots with hgate
      · have hjoin := hl.single current (List.mem_of_find?_eq_some h.state) hgate.1
        have hdone := ho.unsigned
        rw [← h.current_id] at hdone
        refine absurd ?_ hopen
        simp [State.fanIn, fanIn, hjoin.1, FanIn.Closes, hslots, hdone]
      · omega

theorem Fired.climbed (h : Fired dir v inst r current t out entered inst') (hl : Ladder v rank)
    (ho : OnLadder v rank inst) (ha : r.action ≠ .resubmit) :
    rank inst.currentStateId < rank out.newStateId := by
  obtain ⟨hmem, hfrom, hact⟩ := h.transition
  have hrank := hl.climbs t hmem (by rw [hact]; exact ha)
  rwa [hfrom, h.current_id, ← h.moves hl ho] at hrank

theorem Fired.leaves (h : Fired dir v inst r current t out entered inst') (hl : Ladder v rank)
    (ho : OnLadder v rank inst) : out.newStateId ≠ current.id := by
  obtain ⟨hmem, hfrom, -⟩ := h.transition
  rw [h.moves hl ho, ← hfrom]
  exact hl.leaves t hmem

/-- The state entered and the rows it opens. -/
theorem Fired.enters_next (h : Fired dir v inst r current t out entered inst')
    (hl : Ladder v rank) (ho : OnLadder v rank inst) :
    ∃ next, v.state? t.toStateId = some next ∧
      entered = activateStateSteps next out.revisionNo inst.orgUnitId
        (r.now.getD dir.utcNow) := by
  rcases h.entered_cases with ⟨hstay, -⟩ | ⟨-, next, hnext, hent⟩
  · exact absurd hstay (h.leaves hl ho)
  · exact ⟨next, by rw [← h.moves hl ho]; exact hnext, hent⟩

/-- Every action leaves no open slot behind. -/
theorem Fired.openSlots_left (h : Fired dir v inst r current t out entered inst')
    (hl : Ladder v rank) (ho : OnLadder v rank inst) (g rev : ℕ) :
    openSlots g rev out.steps = 0 := by
  have hslots := ho.slots current h.state g rev
  have hclosed : (∀ g rev, openSlots g rev out.steps =
      if g = current.id ∧ rev = inst.revisionNo then 0 else openSlots g rev inst.steps) →
      openSlots g rev out.steps = 0 := by
    intro hres
    rw [hres g rev]
    split_ifs with hat
    · rfl
    · rw [hslots, if_neg fun hgate => hat hgate.2]
  by_cases ha : r.action = .approve
  · obtain ⟨-, hres | ⟨-, hstay, -⟩⟩ := h.openSlots_approve ha (ho.pinned.uniform h.state)
    · exact hclosed hres.2.2
    · exact absurd hstay (h.leaves hl ho)
  · by_cases hr : r.action = .return ∨ r.action = .reject
    · exact hclosed (h.openSlots_resolve hr)
    · rw [not_or] at hr
      obtain ⟨hmem, hfrom, hact⟩ := h.transition
      have hgate := hl.originates t hmem (by rw [hact]; exact ha) (by rw [hact]; exact hr.1)
        (by rw [hact]; exact hr.2) current (List.mem_of_find?_eq_some h.state) hfrom.symm
      rw [h.steps_originator ha hr.1 hr.2, hslots]
      simp [hgate]

/-- No row belongs to the place an action leads to: it is higher than every row of the revision, or
the revision is new. -/
theorem Fired.fresh_place (h : Fired dir v inst r current t out entered inst')
    (hl : Ladder v rank) (ho : OnLadder v rank inst) :
    ∀ s ∈ out.steps, ¬ s.At out.newStateId out.revisionNo := by
  intro s hs hat
  obtain ⟨s', hs', hst, hrev⟩ := exists_row_of_template h.template hs
  have hout := h.revision
  split_ifs at hout with ha
  · have hle := (ho.pinned s' hs').1
    have := hat.2
    omega
  · have hpast := ho.past s' hs' (by rw [hrev, hat.2, hout])
    have hclimb := h.climbed hl ho ha
    rw [hst, hat.1] at hpast
    omega

theorem Fired.onLadder (h : Fired dir v inst r current t out entered inst') (hl : Ladder v rank)
    (ho : OnLadder v rank inst) : OnLadder v rank inst' := by
  obtain ⟨next, hnext, hent⟩ := h.enters_next hl ho
  have hmoves := h.moves hl ho
  have hid := Version.state?_id hnext
  have hfresh := h.fresh_place hl ho
  have hpinned := h.pinned ho.pinned
  have hentered : ∀ s ∈ entered, s.stateId = out.newStateId := by
    intro s hs
    rw [hent] at hs
    unfold activateStateSteps at hs
    split_ifs at hs
    · obtain ⟨seq, -, rfl⟩ := List.mem_map.1 hs
      rw [hmoves, ← hid]
    · simp at hs
  have hres := h.result
  subst hres
  refine ⟨ho.version, ⟨next, by rw [hmoves]; exact hnext⟩, hpinned, ?_, ?_, ?_⟩
  · intro s hs hrev
    rcases List.mem_append.1 hs with hs | hs
    · obtain ⟨s', hs', hst, hsr⟩ := exists_row_of_template h.template hs
      have hout := h.revision
      dsimp only at hrev ⊢
      split_ifs at hout with ha
      · have hle := (ho.pinned s' hs').1
        omega
      · have hpast := ho.past s' hs' (by omega)
        have hclimb := h.climbed hl ho ha
        rw [← hst]
        omega
    · rw [hentered s hs]
  · dsimp only
    rw [doneSlots_append, h.doneSlots_entered, List.append_nil]
    simp only [doneSlots, List.map_eq_nil_iff, List.filter_eq_nil_iff, decide_eq_true_eq]
    exact fun s hs hat => hfresh s hs hat.1
  · intro next' hnext' g rev
    dsimp only at hnext' ⊢
    rw [hmoves, hnext] at hnext'
    obtain rfl := Option.some.inj hnext'
    rw [openSlots_append, h.openSlots_left hl ho, zero_add, hent, openSlots_activateStateSteps]
    by_cases hgate : next.isApprovalGate = true
    · have hcount := (hl.single next (List.mem_of_find?_eq_some hnext) hgate).2
      simp only [hgate, true_and, hcount]
      simp only [eq_comm (a := next.id), eq_comm (a := out.revisionNo)]
      rfl
    · simp [hgate]

theorem Fired.before (h : Fired dir v inst r current t out entered inst') (hl : Ladder v rank)
    (ho : OnLadder v rank inst) : Before rank inst' inst.revisionNo inst.currentStateId := by
  have hres := h.result
  have hrev := h.revision
  subst hres
  split_ifs at hrev with ha
  · left
    dsimp only
    omega
  · exact .inr ⟨hrev.symm, h.climbed hl ho ha⟩

theorem Fired.before_mono (h : Fired dir v inst r current t out entered inst')
    (hl : Ladder v rank) (ho : OnLadder v rank inst) {rev st : ℕ} (hb : Before rank inst rev st) :
    Before rank inst' rev st := by
  have hnew := h.before hl ho
  unfold Before at hb hnew ⊢
  omega

/-! ## Quiet calls and the start -/

theorem Quiet.onLadder (h : Quiet inst inst') (ho : OnLadder v rank inst) :
    OnLadder v rank inst' := by
  refine ⟨h.version.trans ho.version, ?_, h.pinned ho.pinned, ?_, ?_, ?_⟩
  · rw [h.state]
    exact ho.state
  · intro s hs hrev
    obtain ⟨s', hs', hst, hsr⟩ := exists_row_of_template h.template hs
    rw [h.state, ← hst]
    exact ho.past s' hs' (by rw [hsr, hrev, h.revision])
  · rw [h.state, h.revision, h.doneSlots]
    exact ho.unsigned
  · intro current hcurrent g rev
    rw [h.state] at hcurrent
    rw [h.openSlots, h.revision]
    exact ho.slots current hcurrent g rev

theorem Quiet.before (h : Quiet inst inst') {rev st : ℕ} (hb : Before rank inst rev st) :
    Before rank inst' rev st := by
  unfold Before
  rw [h.state, h.revision]
  exact hb

end

/-! ## The approvals since the last submission -/

/-- The transition events after the last submission or resubmission. -/
def lastRound (events : List Event) : List Event :=
  (events.filter (·.eventType = .transition)).rtakeWhile
    fun e => e.action ≠ some .submit ∧ e.action ≠ some .resubmit

/-- The rungs cleared below a state; none where a state says nothing about the round. -/
structure Rungs (v : Version κ) (cleared : ℕ → Option (List ℕ)) : Prop where
  starts : ∀ t ∈ v.transitions, t.action = .submit ∨ t.action = .resubmit →
    ∀ l, cleared t.toStateId = some l → l = []
  climbs : ∀ t ∈ v.transitions, t.action = .approve → ∀ l, cleared t.toStateId = some l →
    ∃ below, cleared t.fromStateId = some below ∧ l = below ++ [t.fromStateId]
  leaves : ∀ t ∈ v.transitions, t.action ≠ .submit → t.action ≠ .resubmit →
    t.action ≠ .approve → cleared t.toStateId = none

/-- The round of the instance is the approvals of the rungs below it, in order. -/
def Climbed (cleared : ℕ → Option (List ℕ)) (inst : Instance) : Prop :=
  ∀ l, cleared inst.currentStateId = some l →
    l.Forall₂ (fun g e => e.action = some .approve ∧ e.fromStateId = some g)
      (lastRound inst.events)

section

variable {rank : ℕ → ℕ} {cleared : ℕ → Option (List ℕ)} {dir : Directory} {v : Version κ}
  {inst inst' : Instance} {r : Request} {current : State κ} {t : Transition} {out : Outcome}
  {entered : List Step}

theorem lastRound_concat (events : List Event) {e : Event} (he : e.eventType = .transition) :
    lastRound (events ++ [e]) =
      if e.action ≠ some .submit ∧ e.action ≠ some .resubmit then lastRound events ++ [e]
      else [] := by
  simp only [lastRound, List.filter_append, List.filter_cons, he, decide_true, if_true,
    List.filter_nil, List.rtakeWhile_concat, decide_eq_true_eq]

theorem mem_of_mem_lastRound {events : List Event} {e : Event} (h : e ∈ lastRound events) :
    e ∈ events :=
  List.mem_of_mem_filter ((List.rtakeWhile_suffix _ _).mem h)

theorem Quiet.lastRound (h : Quiet inst inst') : lastRound inst'.events = lastRound inst.events := by
  obtain ⟨extra, hevents, hextra⟩ := h.events
  have hnone : extra.filter (·.eventType = .transition) = [] := by
    rw [List.filter_eq_nil_iff]
    intro e he
    simp [(hextra e he).1]
  simp only [Workflow.lastRound, hevents, List.filter_append, hnone, List.append_nil]

theorem Quiet.climbed (h : Quiet inst inst') (hc : Climbed cleared inst) :
    Climbed cleared inst' := by
  unfold Climbed
  rw [h.state, h.lastRound]
  exact hc

theorem Fired.climbedRungs (h : Fired dir v inst r current t out entered inst')
    (hl : Ladder v rank) (hr : Rungs v cleared) (ho : OnLadder v rank inst)
    (hc : Climbed cleared inst) : Climbed cleared inst' := by
  obtain ⟨hmem, hfrom, hact⟩ := h.transition
  have hmoves := h.moves hl ho
  have hres := h.result
  subst hres
  intro l hcleared
  dsimp only at hcleared ⊢
  rw [hmoves] at hcleared
  rw [lastRound_concat _ rfl]
  have haction : (emitEvent current r out).action = some t.action := by rw [hact]; rfl
  rw [haction]
  by_cases hsub : t.action = .submit ∨ t.action = .resubmit
  · rw [if_neg (by rcases hsub with hs | hs <;> simp [hs]), hr.starts t hmem hsub l hcleared]
    exact .nil
  · rw [not_or] at hsub
    rw [if_pos (by simp [hsub])]
    by_cases happ : t.action = .approve
    · obtain ⟨below, hbelow, rfl⟩ := hr.climbs t hmem happ l hcleared
      rw [hfrom, h.current_id] at hbelow
      refine List.rel_append (hc below hbelow) (.cons ⟨?_, ?_⟩ .nil)
      · rw [haction, happ]
      · rw [hfrom]
        rfl
    · rw [hr.leaves t hmem hsub.1 hsub.2 happ] at hcleared
      cases hcleared

end

/-! ## Terminal states -/

/-- An event that led to a terminal state is where the instance still stands. -/
def TerminalLast (v : Version κ) (inst : Instance) : Prop :=
  ∀ e ∈ inst.events, ∀ id, e.toStateId = some id → ∀ s, v.state? id = some s →
    s.kind = .terminal → inst.currentStateId = id

section

variable {dir : Directory} {v : Version κ} {inst inst' : Instance} {r : Request}
  {current : State κ} {t : Transition} {out : Outcome} {entered : List Step}

theorem Quiet.terminalLast (h : Quiet inst inst') (ht : TerminalLast v inst) :
    TerminalLast v inst' := by
  intro e he id hid s hs hterm
  obtain ⟨extra, hevents, hextra⟩ := h.events
  rw [hevents] at he
  rw [h.state]
  rcases List.mem_append.1 he with he | he
  · exact ht e he id hid s hs hterm
  · rw [(hextra e he).2.2.1] at hid
    cases hid

theorem Fired.terminalLast (h : Fired dir v inst r current t out entered inst')
    (ht : TerminalLast v inst) : TerminalLast v inst' := by
  have hres := h.result
  subst hres
  intro e he id hid s hs hterm
  rcases List.mem_append.1 he with he | he
  · have hcur := ht e he id hid s hs hterm
    have hstate := h.state
    rw [hcur, hs] at hstate
    obtain rfl := Option.some.inj hstate
    exact absurd hterm h.open'
  · obtain rfl := List.mem_singleton.1 he
    exact Option.some.inj hid

end

end OfficeConnect.Workflow
