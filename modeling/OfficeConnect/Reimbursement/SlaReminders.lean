import OfficeConnect.Reimbursement.Reminders

/-!
# The SLA reminder ladder

A step whose SLA has fallen due is escalated once; the holder of its claim is told then, and again
every few working days while the step stays active.  The first notice comes from the delivery of the
escalation or from the sweep, whichever is first: both write it under one key.
-/

namespace OfficeConnect.Reimbursement

open Lib Workflow

/-! ## The tables -/

/-- An instance by what it is about. -/
structure Subject where
  subjectKind : String
  subjectId : Option ℕ
deriving DecidableEq, Repr

/-- The rows a nudge reads and writes, a row's id being its place.  A step and an event come with the
id of their instance. -/
structure SlaDesk where
  steps : List (ℕ × Step) := []
  instances : List Subject := []
  claims : List Claim := []
  outbox : List NotificationOutbox := []
  events : List (ℕ × Event) := []
deriving DecidableEq, Repr

/-- `SUBJECT_KIND`. -/
def claimSubject : String := "reimb.claim"

/-- The claim an instance is about. -/
def SlaDesk.claimOf (d : SlaDesk) (instanceId : ℕ) : Option (ℕ × Claim) := do
  let inst ← d.instances[instanceId]?
  guard (inst.subjectKind = claimSubject)
  let claimId ← inst.subjectId
  let claim ← d.claims[claimId]?
  return (claimId, claim)

/-! ## One nudge -/

def slaDedupKey (stepId : ℕ) (k : ℤ) : String :=
  joinColon ["reimb.claim.sla", toString stepId, toString k]

/-- The subject and the body of a nudge. -/
def slaText (claimId : ℕ) (claim : Claim) (k : ℤ) : String × String :=
  let ref := match claim.refNo with
    | none | some "" => s!"claim #{claimId}"
    | some no => no
  let label := (vocabulary claim.kind).label claim.status
  let when := if k = 0 then "is past its SLA" else s!"is still waiting (reminder #{k})"
  let action := match claim.nextAction with
    | none | some "" => "take the next action"
    | some action => action
  (s!"Reimbursement {ref} is waiting on you", s!"{ref} ({label}) {when} — {action}.")

def slaNudge (claimId : ℕ) (claim : Claim) (stepId holderId : ℕ) (k : ℤ) : Notification :=
  { channel := .inApp
    about := {
      dedupKey := some (slaDedupKey stepId k)
      recipientUserId := some holderId
      module := some "reimbursement"
      subject := (slaText claimId claim k).1
      bodyText := some (slaText claimId claim k).2 } }

/-- `_send_nudge`: the id of the row, when one was written. -/
def sendNudge (room : MailRoom) (claimId : ℕ) (claim : Claim) (stepId : ℕ) (k : ℤ) (d : SlaDesk) :
    Except Raised (SlaDesk × Option ℕ) :=
  match claim.holderKind, claim.holderId with
  | some .user, some holderId =>
      if alreadySent d.outbox (slaDedupKey stepId k) then .ok (d, none)
      else do
        let (id, rows) ← persistNotification room (slaNudge claimId claim stepId holderId k) d.outbox
        return ({ d with outbox := rows }, some id)
  | _, _ => .ok (d, none)

/-- The delivery of a committed escalation. -/
def notifyEscalation (room : MailRoom) (stepId : ℕ) (d : SlaDesk) :
    Except Raised (SlaDesk × Option ℕ) :=
  match d.steps[stepId]? with
  | none => .ok (d, none)
  | some (instanceId, step) =>
      if step.status ≠ .active ∨ step.escalationLevel < 1 then .ok (d, none)
      else
        match d.claimOf instanceId with
        | none => .ok (d, none)
        | some (claimId, claim) => sendNudge room claimId claim stepId 0 d

/-! ## The sweep -/

/-- The step is escalated, active and due, and belongs to a claim. -/
def SlaDesk.overdue (d : SlaDesk) (now : Time) (instanceId : ℕ) (step : Step) (due : Time) : Prop :=
  step.status = .active ∧ 1 ≤ step.escalationLevel ∧ due ≤ now ∧
    ∃ inst ∈ d.instances[instanceId]?, inst.subjectKind = claimSubject

instance (d : SlaDesk) (now : Time) (instanceId : ℕ) (step : Step) (due : Time) :
    Decidable (d.overdue now instanceId step due) :=
  inferInstanceAs (Decidable (_ ∧ _ ∧ _ ∧ ∃ inst ∈ d.instances[instanceId]?, _))

/-- The keys the sweep pages through. -/
def overdueSteps (now : Time) (d : SlaDesk) : List (Time ×ₗ ℕ) :=
  d.steps.zipIdx.filterMap fun ((instanceId, step), id) => step.slaDueAt.bind fun due =>
    if d.overdue now instanceId step due then some (toLex (due, id)) else none

/-- The loop's state: `checked` is the length of `examined`. -/
structure SlaBeat where
  desk : SlaDesk
  examined : List ℕ := []
  nudged : ℕ := 0
deriving DecidableEq, Repr

/-- The rung of a step's ladder: how often the cadence has passed since it fell due. -/
def nudgeIndex (env : Env) (every : ℤ) (due now : Time) : Option ℤ :=
  let today := manilaDate now
  let dueLocal := manilaDate due
  let nonworking := loadNonworkingDates env.holidays (min dueLocal today) today
  let overdue := workingDaysBetween dueLocal today nonworking
  if overdue < 0 then none else some (if 0 < every then overdue / every else 0)

/-- The decision-trail row of a repeated nudge. -/
def reminderEvent (stepId : ℕ) (step : Step) (k : ℤ) : Event :=
  { eventType := .reminder
    stepId := some stepId
    escalationLevel := some k.toNat
    revisionNo := some step.revisionNo }

/-- One step of a page. -/
def examineStep (env : Env) (room : MailRoom) (now : Time) (every : ℤ) (key : Time ×ₗ ℕ)
    (b : SlaBeat) : Except Raised SlaBeat :=
  let (due, stepId) := ofLex key
  match b.desk.steps[stepId]? with
  | none => .ok b
  | some (instanceId, step) =>
      let b := { b with examined := b.examined ++ [stepId] }
      match b.desk.claimOf instanceId, nudgeIndex env every due now with
      | some (claimId, claim), some k => do
          let (desk, written) ← sendNudge room claimId claim stepId k b.desk
          match written with
          | none => return { b with desk := desk }
          | some _ =>
              let events := if 0 < k then desk.events ++ [(instanceId, reminderEvent stepId step k)]
                else desk.events
              return { b with desk := { desk with events := events }, nudged := b.nudged + 1 }
      | _, _ => .ok b

structure SlaSweep where
  now : Option Time := none
  pageSize : ℕ := 200
  maxPages : ℕ := 50
deriving DecidableEq, Repr

structure SlaReport where
  checked : ℕ
  nudged : ℕ
  drained : Bool
deriving DecidableEq, Repr

/-- The loop over the pages. -/
def drainSlaSteps (env : Env) (room : MailRoom) (r : SlaSweep) (d : SlaDesk) :
    Except Raised (SlaBeat × Bool) :=
  let now := env.at r.now
  let every := reminderEvery env (manilaDate now)
  drainPages (fun b : SlaBeat => overdueSteps now b.desk) (examineStep env room now every)
    r.pageSize r.maxPages none { desk := d }

def sweepSlaReminders (env : Env) (room : MailRoom) (r : SlaSweep) (d : SlaDesk) :
    Except Raised (SlaDesk × SlaReport) := do
  let (b, drained) ← drainSlaSteps env room r d
  return (b.desk, { checked := b.examined.length, nudged := b.nudged, drained := drained })

/-! ## Histories -/

/-- A sweep, the delivery of an escalation, any other notification, a dispatch or a dead-letter write
on an outbox row, or whatever the rest of the application makes of the steps and claims. -/
inductive SlaCall where
  | sweep (env : Env) (room : MailRoom) (r : SlaSweep)
  | escalation (room : MailRoom) (stepId : ℕ)
  | post (room : MailRoom) (n : Notification)
  | deliver (id : ℕ) (c : MailCall)
  | tables (steps : List (ℕ × Step)) (instances : List Subject) (claims : List Claim)

/-- One row rewritten by the dispatcher, under the dedup index. -/
def SlaDesk.deliver (id : ℕ) (c : MailCall) (d : SlaDesk) : Except Raised SlaDesk :=
  match d.outbox[id]? with
  | none => .ok d
  | some row => do
      let mail ← c.step { row := row }
      let rows := d.outbox.set id mail.row
      refuse (¬ (rows.filterMap NotificationOutbox.liveKey).Nodup) (.integrityError dedupIndex)
      return { d with outbox := rows }

def SlaCall.step (c : SlaCall) (d : SlaDesk) : Except Raised SlaDesk :=
  match c with
  | .sweep env room r => Prod.fst <$> sweepSlaReminders env room r d
  | .escalation room stepId => Prod.fst <$> notifyEscalation room stepId d
  | .post room n => do
      let (_, rows) ← persistNotification room n d.outbox
      return { d with outbox := rows }
  | .deliver id c => d.deliver id c
  | .tables steps instances claims =>
      .ok { d with steps := steps, instances := instances, claims := claims }

end OfficeConnect.Reimbursement
