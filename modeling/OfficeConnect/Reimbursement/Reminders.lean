import OfficeConnect.Core.Outbox
import OfficeConnect.Lib.Pages
import OfficeConnect.Reimbursement.Machine

/-!
# The liquidation reminder ladder

A daily sweep warns the holder of every unliquidated advance whose pinned deadline is near or past.
What has been sent is known from the outbox alone: a rung is sent once for each advance and channel,
under a key that names them.
-/

namespace OfficeConnect.Reimbursement

open Lib

/-! ## The ladder -/

/-- A rung of the ladder; the overdue rung repeats and carries its index. -/
inductive Rung where
  | d7 | d3 | d0
  | overdue (k : ℤ)
deriving DecidableEq, Repr

/-- The thresholds, most urgent first. -/
def milestones : List (ℤ × Rung) := [(0, .d0), (3, .d3), (7, .d7)]

/-- The days before a deadline at which its ladder begins. -/
def ladderDays : ℤ := (milestones.getLast (by decide)).1

/-- The most urgent milestone reached. -/
def milestoneFor (remaining : ℤ) : Option Rung :=
  if remaining < 0 then none
  else (milestones.find? fun m => remaining ≤ m.1).map (·.2)

/-- The kind of the rung. -/
def Rung.milestone : Rung → String
  | d7 => "d7"
  | d3 => "d3"
  | d0 => "d0"
  | overdue _ => "overdue"

/-- The parts of the rung's token. -/
def Rung.token : Rung → List String
  | overdue k => ["overdue", toString k]
  | rung => [rung.milestone]

def emailMilestones : List Rung := [.d3, .d0]

/-- The rung an advance stands at on a day.  The overdue cadence counts working days. -/
def rungAt (env : Env) (every : ℤ) (deadline today : Day) : Option Rung :=
  if deadline - today < 0 then
    let nonworking := loadNonworkingDates env.holidays deadline today
    let overdue := workingDaysBetween deadline today nonworking
    some (.overdue (if 0 < every then overdue / every else 0))
  else milestoneFor (deadline - today)

def channelName : NotificationChannel → String
  | .email => "email"
  | .inApp => "in_app"

def liquidationDedupKey (cashAdvanceId : ℕ) (rung : Rung) (channel : NotificationChannel) : String :=
  joinColon ("reimb.liquidation.deadline" :: toString cashAdvanceId ::
    (rung.token ++ [channelName channel]))

/-! ## Texts -/

/-- Digits, lowest first, with a comma after every third. -/
def groupThousands : List Char → List Char
  | a :: b :: c :: d :: rest => a :: b :: c :: ',' :: groupThousands (d :: rest)
  | rest => rest

/-- An amount of centavos as the copy shows it. -/
def pesoText (centavos : ℤ) : String :=
  let pesos := (groupThousands (toString (centavos.natAbs / 100)).toList.reverse).reverse
  "₱" ++ (if centavos < 0 then "-" else "") ++ String.ofList pesos ++ "." ++
    padded 2 (centavos.natAbs % 100)

example : pesoText 123456750 = "₱1,234,567.50" := by decide +kernel

def overdueNoteKey : String := "liquidation.overdue_note"

/-- The consequence sentence of the config pack. -/
def overdueNote (env : Env) (today : Day) : Option String :=
  match (effectiveConfig env.configs today overdueNoteKey).bind (·.field? "text") with
  | some (.text s) => if s = "" then none else some s
  | _ => none

/-- The subject and the body of a nudge. -/
def liquidationBody (advance : CashAdvance) (rung : Rung) (remaining : ℤ) (note : Option String) :
    String × String :=
  let which := match advance.dvNo with
    | none | some "" => "cash advance"
    | some no => "cash advance " ++ no
  let due := match advance.deadlineDate with
    | none => "soon"
    | some d => isoDate d
  let amount := pesoText advance.amount
  let (subject, body) := match rung with
    | .overdue _ => (s!"Overdue: liquidate your {which}",
        s!"Your {which} of {amount} was due for liquidation on {due} and is now " ++
          s!"{remaining.natAbs} day(s) overdue. File your liquidation report as soon as possible.")
    | .d0 => (s!"Due today: liquidate your {which}",
        s!"Your {which} of {amount} must be liquidated today ({due}). File your liquidation " ++
          "report now.")
    | .d3 => (s!"Liquidate your {which} within 3 days",
        s!"Your {which} of {amount} must be liquidated by {due} — {remaining} day(s) left. " ++
          "Prepare your liquidation report.")
    | .d7 => (s!"Liquidate your {which} within 7 days",
        s!"Your {which} of {amount} must be liquidated by {due} — {remaining} day(s) left. " ++
          "Prepare your liquidation report.")
  match note with
  | some text =>
      if rung.milestone = "d0" ∨ rung.milestone = "overdue" then (subject, body ++ " " ++ text)
      else (subject, body)
  | none => (subject, body)

/-! ## Sending -/

/-- The module's tables and the outbox.  `promises` is no column: it pairs each row the ladder wrote
with the deadline it was written for. -/
structure Board where
  store : Store := {}
  outbox : List NotificationOutbox := []
  promises : List (ℕ × Day) := []

/-- Some row under the key is not dead. -/
def alreadySent (outbox : List NotificationOutbox) (key : String) : Bool :=
  outbox.any fun row => row.dedupKey = some key ∧ row.status ≠ .dead

/-- Persist a notice unless its key was already sent, and count the row written. -/
def Board.post (room : MailRoom) (deadline : Day) (key : String) (notice : Except Raised Notification)
    (b : Board) : Except Raised (Board × ℕ) :=
  if alreadySent b.outbox key then .ok (b, 0)
  else do
    let n ← notice
    let (id, rows) ← persistNotification room n b.outbox
    return ({ b with outbox := rows, promises := b.promises ++ [(id, deadline)] }, 1)

/-- What the nudge says beside the message. -/
def nudgeMeta (cashAdvanceId recipientUserId : ℕ) (rung : Rung) (channel : NotificationChannel) :
    NotificationMeta :=
  { dedupKey := some (liquidationDedupKey cashAdvanceId rung channel)
    recipientUserId := some recipientUserId
    notificationClass := "transactional"
    module := some "reimbursement"
    cashAdvanceId := some cashAdvanceId
    milestone := some rung.milestone }

def inAppNudge (cashAdvanceId recipientUserId : ℕ) (rung : Rung) (text : String × String) :
    Notification :=
  { channel := .inApp
    about := { nudgeMeta cashAdvanceId recipientUserId rung .inApp with
      subject := text.1, bodyText := some text.2 } }

def emailNudge (cashAdvanceId recipientUserId : ℕ) (rung : Rung) (address : String)
    (text : String × String) : Except Raised Notification := do
  let message ← EmailMessage.checked { toAddrs := [address], subject := text.1, textBody := text.2 }
  return { channel := .email
           email := some message
           about := nudgeMeta cashAdvanceId recipientUserId rung .email }

/-- The address an email nudge goes to, where the rung sends one. -/
def emailAddress (rung : Rung) (address : Option String) : Option String :=
  if rung ∈ emailMilestones ∧ ¬ blank address then address else none

/-- The in-app nudge, and the email at D-3 and D-0; returns the rows written. -/
def sendLiquidationNudge (room : MailRoom) (cashAdvanceId : ℕ) (deadline : Day)
    (recipientUserId : ℕ) (recipientEmail : Option String) (rung : Rung) (text : String × String)
    (b : Board) : Except Raised (Board × ℕ) := do
  let (b, inApp) ← b.post room deadline (liquidationDedupKey cashAdvanceId rung .inApp)
    (.ok (inAppNudge cashAdvanceId recipientUserId rung text))
  match emailAddress rung recipientEmail with
  | none => return (b, inApp)
  | some address => do
      let (b, email) ← b.post room deadline (liquidationDedupKey cashAdvanceId rung .email)
        (emailNudge cashAdvanceId recipientUserId rung address text)
      return (b, inApp + email)

/-! ## The sweep -/

/-- The keys of the advances the sweep reads.  `locked` are the rows another transaction holds. -/
def dueAdvances (horizon : Day) (locked : List ℕ) (σ : Store) : List (Day ×ₗ ℕ) :=
  σ.advances.zipIdx.filterMap fun (a, id) => a.deadlineDate.bind fun d =>
    if a.unliquidated ∧ d ≤ horizon ∧ id ∉ locked then some (toLex (d, id)) else none

/-- The loop's state. -/
structure Beat where
  board : Board
  checked : ℕ := 0
  nudged : ℕ := 0
  flipped : ℕ := 0

structure LiquidationSweep where
  now : Option Time := none
  pageSize : ℕ := 200
  maxPages : ℕ := 50
  locked : List ℕ := []
deriving DecidableEq, Repr

structure SweepReport where
  checked : ℕ
  nudged : ℕ
  flippedOverdue : ℕ
  drained : Bool
deriving DecidableEq, Repr

/-- The flip of an advance past its deadline, with or without a login to notify. -/
def flipOverdue (id : ℕ) (advance : CashAdvance) (remaining : ℤ) (b : Beat) : Except Raised Beat :=
  if remaining < 0 then do
    let store ← markOverdue id b.board.store
    let flips := advance.status = .opened ∨ advance.status = .liquidationStarted
    return { b with
      board := { b.board with store := store }
      flipped := if flips then b.flipped + 1 else b.flipped }
  else .ok b

/-- The login's own address. -/
def loginEmail (room : MailRoom) (userId : ℕ) : Option String :=
  (room.users.find? (·.id = userId)).bind (·.email)

/-- One advance of a page. -/
def remindAdvance (env : Env) (room : MailRoom) (today : Day) (every : ℤ) (note : Option String)
    (due : Day ×ₗ ℕ) (b : Beat) : Except Raised Beat :=
  let (deadline, id) := ofLex due
  match b.board.store.advances[id]? with
  | none => .ok b
  | some advance => do
      let b ← flipOverdue id advance (deadline - today) { b with checked := b.checked + 1 }
      match rungAt env every deadline today, ownerUser env advance.claimantId with
      | some rung, some owner => do
          let text := liquidationBody advance rung (deadline - today) note
          let (board, written) ← sendLiquidationNudge room id deadline owner.id
            (loginEmail room owner.id) rung text b.board
          return { b with board := board, nudged := b.nudged + written }
      | _, _ => return b

def reminderKey : String := "sla.reminder_repeat_days"

/-- The day of the sweep. -/
def LiquidationSweep.today (env : Env) (r : LiquidationSweep) : Day := manilaDate (env.at r.now)

/-- The repeat cadence in force on a day. -/
def reminderEvery (env : Env) (today : Day) : ℤ :=
  configInt env.configs reminderKey "working_days" 2 today

def sweepLiquidationReminders (env : Env) (room : MailRoom) (r : LiquidationSweep) (b : Board) :
    Except Raised (Board × SweepReport) := do
  let today := r.today env
  let every := reminderEvery env today
  let note := overdueNote env today
  let (beat, drained) ← drainPages
    (fun beat : Beat => dueAdvances (today + ladderDays) r.locked beat.board.store)
    (remindAdvance env room today every note) r.pageSize r.maxPages none { board := b }
  return (beat.board, {
    checked := beat.checked
    nudged := beat.nudged
    flippedOverdue := beat.flipped
    drained := drained })

/-! ## Histories -/

/-- A call on the tables, a dispatch or a dead-letter write on an outbox row, or a beat. -/
inductive BoardCall where
  | call (c : Call)
  | deliver (id : ℕ) (c : MailCall)
  | beat (env : Env) (room : MailRoom) (r : LiquidationSweep)

/-- One row rewritten by the dispatcher, under the dedup index. -/
def Board.deliver (id : ℕ) (c : MailCall) (b : Board) : Except Raised Board :=
  match b.outbox[id]? with
  | none => .ok b
  | some row => do
      let mail ← c.step { row := row }
      let rows := b.outbox.set id mail.row
      refuse (¬ (rows.filterMap NotificationOutbox.liveKey).Nodup) (.integrityError dedupIndex)
      return { b with outbox := rows }

def BoardCall.step (c : BoardCall) (b : Board) : Except Raised Board :=
  match c with
  | .call c => do
      let store ← c.step b.store
      return { b with store := store }
  | .deliver id c => b.deliver id c
  | .beat env room r => Prod.fst <$> sweepLiquidationReminders env room r b

end OfficeConnect.Reimbursement
