import OfficeConnect.Core.OrgUnits
import OfficeConnect.Lib.Rows
import OfficeConnect.Workflow.Graph

/-!
# The workflow engine

`executeAction` is the single mutating entry point: replay, compare-and-swap, route, authorize,
advance.  `availableActions` is the read side that a screen renders.  An instance carries its own
step rows and its own event log, each in insertion order, so the id of a row is its position.
-/

namespace OfficeConnect.Workflow

open Lib

/-! ## Runtime rows -/

/-- An approver slot, pinned with the gate's template and the instance's unit at activation. -/
structure Step where
  stateId : ℕ
  revisionNo : ℕ
  sequenceNo : ℕ
  joinType : JoinType
  quorumCount : Option ℤ
  requiredPermission : Option String
  orgUnitId : Option ℕ
  status : StepStatus
  actedByUserId : Option ℕ := none
  onBehalfOfUserId : Option ℕ := none
  actedAt : Option Time := none
  comment : Option String := none
  slaDueAt : Option Time := none
  escalationLevel : ℕ := 0
deriving DecidableEq, Repr

/-- A row of the append-only log. -/
structure Event where
  eventType : EventType
  stepId : Option ℕ := none
  action : Option Action := none
  fromStateId : Option ℕ := none
  toStateId : Option ℕ := none
  actorUserId : Option ℕ := none
  onBehalfOfUserId : Option ℕ := none
  comment : Option String := none
  idempotencyKey : Option String := none
  escalationLevel : Option ℕ := none
  revisionNo : Option ℕ := none
deriving DecidableEq, Repr

structure Instance where
  definitionVersionId : ℕ
  currentStateId : ℕ
  rowVersion : ℕ := 1
  revisionNo : ℕ := 1
  originatorUserId : Option ℕ
  orgUnitId : Option ℕ
  amount : Option ℤ
  steps : List Step := []
  events : List Event := []
deriving DecidableEq, Repr

/-! ## Authority -/

structure Authority where
  authorized : Bool
  onBehalfOf : Option ℕ := none
deriving DecidableEq, Repr

/-- The delegations to `actor` in force at `now` whose scope covers the definition and the unit. -/
def candidateDelegations (dir : Directory) (actor : ℕ) (orgUnitId definitionId : Option ℕ)
    (now : Time) : List Delegation :=
  let covering := if orgUnitId = none ∨ orgUnitId = some 0 then [] else dir.ancestorsOrSelf orgUnitId
  dir.delegations.filter fun d =>
    d.delegateUserId = actor ∧ d.startsAt ≤ now ∧ now < d.endsAt ∧
      (d.definitionId = none ∨ d.definitionId = definitionId) ∧
      (d.orgUnitId = none ∨ ∃ unit ∈ covering, d.orgUnitId = some unit)

/-- No permission is an open gate, a direct grant wins, else the first delegation whose delegator
holds the permission. -/
def resolveAuthority (dir : Directory) (actor : ℕ) (requiredPermission : Option String)
    (orgUnitId definitionId : Option ℕ) (now : Time) : Authority :=
  match requiredPermission with
  | none => { authorized := true }
  | some perm =>
      if dir.authorizeScoped actor perm orgUnitId then { authorized := true }
      else
        match (candidateDelegations dir actor orgUnitId definitionId now).find?
            fun d => dir.authorizeScoped d.delegatorUserId perm orgUnitId with
        | some d => { authorized := true, onBehalfOf := some d.delegatorUserId }
        | none => { authorized := false }

/-- The maker is not a checker and no two checkers are one person. -/
def assertSegregation (makerId : ℕ) (checkerIds : List ℕ) : Except Raised Unit := do
  refuse (makerId ∈ checkerIds)
    (.api 409 "segregation_of_duties" "The person who prepared this cannot also approve it.")
  refuse (¬ checkerIds.Nodup)
    (.api 409 "segregation_of_duties" "Each approval step must be signed by a distinct approver.")

/-! ## Steps -/

/-- The row belongs to the gate `stateId` in revision `revisionNo`. -/
def Step.At (stateId revisionNo : ℕ) (s : Step) : Prop :=
  s.stateId = stateId ∧ s.revisionNo = revisionNo

instance (stateId revisionNo : ℕ) : DecidablePred (Step.At stateId revisionNo) := fun s =>
  inferInstanceAs (Decidable (s.stateId = stateId ∧ s.revisionNo = revisionNo))

/-- The rows of one gate in one revision. -/
def gateRows (stateId revisionNo : ℕ) (steps : List Step) : List Step :=
  steps.filter (Step.At stateId revisionNo)

def Instance.gateSteps (inst : Instance) (stateId revisionNo : ℕ) : List Step :=
  gateRows stateId revisionNo inst.steps

/-- The active rows a gate spawns when it is entered; none for a state that is no gate. -/
def activateStateSteps {κ : Type} (state : State κ) (revisionNo : ℕ) (orgUnitId : Option ℕ)
    (now : Time) : List Step :=
  if state.isApprovalGate then
    (List.range (max 1 state.stepCount).toNat).map fun seq =>
      { stateId := state.id
        revisionNo := revisionNo
        sequenceNo := seq
        joinType := state.joinType
        quorumCount := state.quorumCount
        requiredPermission := state.requiredPermission
        orgUnitId := orgUnitId
        status := .active
        slaDueAt := match state.slaHours with
          | none | some 0 => none
          | some hours => some (now + hours * hour) }
  else []

/-- The fan-in condition over the live rows; returned and skipped rows never count. -/
def joinSatisfied (steps : List Step) : Bool :=
  let live := steps.filter fun s => s.status = .active ∨ s.status = .done
  let done : ℕ := live.countP (·.status = .done)
  let total : ℕ := live.length
  match live with
  | [] => false
  | first :: _ =>
      match first.joinType with
      | .any => 1 ≤ done
      | .quorum =>
          match first.quorumCount with
          | none | some 0 => total ≤ done
          | some quorum => quorum ≤ done
      | .all => total ≤ done

/-! ## One action -/

structure Request where
  action : Action
  actorUserId : ℕ
  comment : Option String := none
  idempotencyKey : Option String := none
  expectedVersion : Option ℕ := none
  now : Option Time := none
deriving DecidableEq, Repr

variable {κ : Type}

/-- The transitions out of a state for one action, in routing order. -/
def Version.routes (v : Version κ) (stateId : ℕ) (action : Action) : List Transition :=
  (v.transitions.filter fun t => t.fromStateId = stateId ∧ t.action = action).insertionSort
    Transition.le

/-- The first transition whose amount guard passes. -/
def selectTransition (v : Version κ) (inst : Instance) (current : State κ) (action : Action) :
    Option Transition :=
  (v.routes current.id action).find? fun t => amountGuardPasses t inst.amount

def authorizeOriginator (dir : Directory) (v : Version κ) (inst : Instance) (t : Transition)
    (actor : ℕ) (now : Time) : Authority :=
  if inst.originatorUserId = some actor then { authorized := true }
  else resolveAuthority dir actor t.requiredPermission inst.orgUnitId v.definitionId now

/-- What the branch for one action decides: the step rows, the revision and the next state. -/
structure Outcome where
  steps : List Step
  revisionNo : ℕ
  newStateId : ℕ
  onBehalfOf : Option ℕ := none
  actedStepId : Option ℕ := none

/-- The actors of the completed slots of a gate. -/
def doneActors (gate : List Step) : List ℕ :=
  (gate.filter (·.status = .done)).filterMap (·.actedByUserId)

/-- The segregation check of an approval gate; without an originator there is no maker. -/
def checkSegregation (inst : Instance) (current : State κ) (gate : List Step) (actor : ℕ) :
    Except Raised Unit :=
  match inst.originatorUserId with
  | some maker =>
      if current.enforceSegregation then assertSegregation maker (doneActors gate ++ [actor])
      else .ok ()
  | none => .ok ()

/-- The row an approval fills. -/
def Step.approvedBy (r : Request) (onBehalfOf : Option ℕ) (now : Time) (s : Step) : Step :=
  { s with
    status := .done
    actedByUserId := some r.actorUserId
    onBehalfOfUserId := onBehalfOf
    actedAt := some now
    comment := r.comment }

/-- The active rows of a gate that closed are skipped. -/
def skipRest (stateId revisionNo : ℕ) (steps : List Step) : List Step :=
  steps.map fun s =>
    if s.At stateId revisionNo ∧ s.status = .active then { s with status := .skipped } else s

/-- The row is an open slot of the gate. -/
def activeSlot (stateId revisionNo : ℕ) (s : Step) : Bool :=
  s.At stateId revisionNo ∧ s.status = .active

def approveGate (dir : Directory) (v : Version κ) (inst : Instance) (current : State κ)
    (t : Transition) (r : Request) (now : Time) : Except Raised Outcome := do
  let gate := inst.gateSteps current.id inst.revisionNo
  refuse (∃ s ∈ gate, s.actedByUserId = some r.actorUserId ∧ s.status = .done) alreadyActed
  let step ← found (gate.find? (·.status = .active)) alreadyActed
  let auth := resolveAuthority dir r.actorUserId step.requiredPermission step.orgUnitId
    v.definitionId now
  refuse (¬ auth.authorized) notAuthorized
  checkSegregation inst current gate r.actorUserId
  let slot := activeSlot current.id inst.revisionNo
  let steps := updateFirst slot (Step.approvedBy r auth.onBehalfOf now) inst.steps
  let closed := joinSatisfied (gateRows current.id inst.revisionNo steps)
  return {
    steps := if closed then skipRest current.id inst.revisionNo steps else steps
    revisionNo := inst.revisionNo
    newStateId := if closed then t.toStateId else current.id
    onBehalfOf := auth.onBehalfOf
    actedStepId := some (inst.steps.findIdx slot) }

/-- The open rows of a returned or rejected gate. -/
def resolveRows (stateId revisionNo : ℕ) (r : Request) (onBehalfOf : Option ℕ) (now : Time)
    (steps : List Step) : List Step :=
  steps.map fun s =>
    if s.At stateId revisionNo ∧ (s.status = .active ∨ s.status = .pending) then
      { s with
        status := if r.action = .return then .returned else .skipped
        actedByUserId := some r.actorUserId
        onBehalfOfUserId := onBehalfOf
        actedAt := some now }
    else s

def resolveGate (dir : Directory) (v : Version κ) (inst : Instance) (current : State κ)
    (t : Transition) (r : Request) (now : Time) : Except Raised Outcome := do
  let auth := resolveAuthority dir r.actorUserId
    (orText current.requiredPermission t.requiredPermission) inst.orgUnitId v.definitionId now
  refuse (¬ auth.authorized) notAuthorized
  return {
    steps := resolveRows current.id inst.revisionNo r auth.onBehalfOf now inst.steps
    revisionNo := inst.revisionNo
    newStateId := t.toStateId
    onBehalfOf := auth.onBehalfOf }

def originatorAction (dir : Directory) (v : Version κ) (inst : Instance) (t : Transition)
    (r : Request) (now : Time) : Except Raised Outcome := do
  let auth := authorizeOriginator dir v inst t r.actorUserId now
  refuse (¬ auth.authorized) notAuthorized
  return {
    steps := inst.steps
    revisionNo := if r.action = .resubmit then inst.revisionNo + 1 else inst.revisionNo
    newStateId := t.toStateId
    onBehalfOf := auth.onBehalfOf }

def decideAction (dir : Directory) (v : Version κ) (inst : Instance) (current : State κ)
    (t : Transition) (r : Request) (now : Time) : Except Raised Outcome :=
  match r.action with
  | .approve => approveGate dir v inst current t r now
  | .return | .reject => resolveGate dir v inst current t r now
  | _ => originatorAction dir v inst t r now

/-- The rows spawned by moving to `newStateId`. -/
def enteredSteps (v : Version κ) (inst : Instance) (current : State κ) (out : Outcome)
    (now : Time) : Except Raised (List Step) :=
  if out.newStateId = current.id then .ok []
  else do
    let state ← found (v.state? out.newStateId) .attributeError
    return activateStateSteps state out.revisionNo inst.orgUnitId now

def emitEvent (current : State κ) (r : Request) (out : Outcome) : Event :=
  { eventType := .transition
    stepId := out.actedStepId
    action := some r.action
    fromStateId := some current.id
    toStateId := some out.newStateId
    actorUserId := some r.actorUserId
    onBehalfOfUserId := out.onBehalfOf
    comment := r.comment
    idempotencyKey := r.idempotencyKey
    revisionNo := some out.revisionNo }

/-- Move, bump the version, activate the next gate's rows and append the event.  A key is unique
among the events of an instance. -/
def advance (v : Version κ) (inst : Instance) (current : State κ) (r : Request) (out : Outcome)
    (now : Time) : Except Raised (Event × Instance) := do
  let entered ← enteredSteps v inst current out now
  let event := emitEvent current r out
  refuse (r.idempotencyKey ≠ none ∧ ∃ e ∈ inst.events, e.idempotencyKey = r.idempotencyKey)
    (.integrityError "uq_core_workflow_events_idempotency")
  return (event, { inst with
    currentStateId := out.newStateId
    rowVersion := inst.rowVersion + 1
    revisionNo := out.revisionNo
    steps := out.steps ++ entered
    events := inst.events ++ [event] })

/-- The event a key already labels. -/
def replayed (inst : Instance) (key : Option String) : Option Event :=
  if blank key then none else inst.events.find? (·.idempotencyKey = key)

/-- The checks between the replay and the authorization: the state and the transition taken. -/
def route (v : Version κ) (inst : Instance) (r : Request) :
    Except Raised (State κ × Transition) := do
  refuse (∃ n, r.expectedVersion = some n ∧ inst.rowVersion ≠ n) staleVersion
  let current ← found (v.state? inst.currentStateId) .attributeError
  refuse (current.kind = .terminal) stateConflict
  let t ← found (selectTransition v inst current r.action) (transitionNotAllowed r.action)
  refuse ((t.requiresComment ∨ current.requiresComment) ∧ blank r.comment) commentRequired
  return (current, t)

def executeAction (dir : Directory) (v : Version κ) (inst : Instance) (r : Request) :
    Except Raised (Event × Instance) :=
  let now := r.now.getD dir.utcNow
  match replayed inst r.idempotencyKey with
  | some event => .ok (event, inst)
  | none => do
      let (current, t) ← route v inst r
      let out ← decideAction dir v inst current t r now
      advance v inst current r out now

/-! ## The actions a screen offers -/

/-- The transition's own checks: the step rows and the actor for a gate, the owner for the rest. -/
def offered (dir : Directory) (v : Version κ) (inst : Instance) (current : State κ) (actor : ℕ)
    (now : Time) (t : Transition) : Bool :=
  let gateAuthority := resolveAuthority dir actor
    (orText current.requiredPermission t.requiredPermission) inst.orgUnitId v.definitionId now
  match t.action with
  | .approve =>
      let gate := inst.gateSteps current.id inst.revisionNo
      (∃ s ∈ gate, s.status = .active) ∧
      (¬ ∃ s ∈ gate, s.actedByUserId = some actor ∧ s.status = .done) ∧
      ¬ (current.enforceSegregation ∧ inst.originatorUserId = some actor) ∧
      gateAuthority.authorized
  | .return | .reject => gateAuthority.authorized
  | _ => (authorizeOriginator dir v inst t actor now).authorized

/-- One round of the loop: a transition whose action is listed is passed over. -/
def offer (dir : Directory) (v : Version κ) (inst : Instance) (current : State κ) (actor : ℕ)
    (now : Time) (allowed : List Action) (t : Transition) : List Action :=
  if t.action ∈ allowed then allowed
  else if ¬ amountGuardPasses t inst.amount then allowed
  else if offered dir v inst current actor now t then allowed ++ [t.action]
  else allowed

def availableActions (dir : Directory) (v : Version κ) (inst : Instance) (actor : ℕ)
    (now : Option Time := none) : List Action :=
  match v.state? inst.currentStateId with
  | none => []
  | some current =>
      if current.kind = .terminal then []
      else
        ((v.transitions.filter (·.fromStateId = current.id)).insertionSort Transition.le).foldl
          (offer dir v inst current actor (now.getD dir.utcNow)) []

/-! ## Starting an instance -/

structure Start where
  actorUserId : Option ℕ := none
  orgUnitId : Option ℕ := none
  amount : Option ℤ := none
deriving DecidableEq, Repr

def initialState (v : Version κ) : Option (State κ) := v.states.find? (·.kind = .initial)

/-- The row `startInstance` writes, on the version the definition's code resolves to. -/
def newInstance (v : Version κ) (initial : State κ) (start : Start) (now : Time) : Instance :=
  { definitionVersionId := v.id
    currentStateId := initial.id
    originatorUserId := start.actorUserId
    orgUnitId := start.orgUnitId
    amount := start.amount
    steps := activateStateSteps initial 1 start.orgUnitId now
    events := [{
      eventType := .started
      toStateId := some initial.id
      actorUserId := start.actorUserId
      revisionNo := some 1 }] }

/-- `version` is what the definition's code resolves to, and `enabled` its feature flag. -/
def startInstance (enabled : Bool) (definitionCode : String) (version : Option (Version κ))
    (start : Start) (now : Time) : Except Raised Instance := do
  refuse (¬ enabled) moduleDisabled
  let v ← found version (definitionNotPublished definitionCode)
  let initial ← found (initialState v) .noResultFound
  return newInstance v initial start now

/-! ## Escalation -/

def Step.isDue (now : Time) (s : Step) : Prop :=
  s.status = .active ∧ s.escalationLevel = 0 ∧ ∃ due, s.slaDueAt = some due ∧ due ≤ now

instance (now : Time) : DecidablePred (Step.isDue now) := fun s =>
  decidable_of_iff (s.status = .active ∧ s.escalationLevel = 0 ∧ ∃ due ∈ s.slaDueAt, due ≤ now)
    (by simp [Step.isDue])

/-- Escalate the due steps among `picked`, the rows the sweep reached: within its limit and not
locked by another transaction. -/
def sweepDueSteps (now : Time) (picked : List ℕ) (inst : Instance) : Instance :=
  let due := (List.range inst.steps.length).filter fun i =>
    i ∈ picked ∧ ∃ s ∈ inst.steps[i]?, s.isDue now
  { inst with
    steps := inst.steps.mapIdx fun i s =>
      if i ∈ due then { s with escalationLevel := s.escalationLevel + 1 } else s
    events := inst.events ++ due.map fun i =>
      { eventType := .escalation, stepId := some i, escalationLevel := some 1 } }

end OfficeConnect.Workflow
