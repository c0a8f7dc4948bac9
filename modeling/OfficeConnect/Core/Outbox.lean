import OfficeConnect.Core.Base
import OfficeConnect.Lib.Run

/-!
# The notification outbox

A notification is persisted as a row in the transaction of the business change and dispatched after
its commit, by a task that may be delivered more than once.  A dispatch runs in its own transaction:
it records the outcome and commits, also when the transport raised.  A dispatch whose driver raises
anything but an `EmailError` is rolled back whole and is no step here.
-/

namespace OfficeConnect

open Lib

/-! ## Messages -/

inductive NotificationChannel where
  | email | inApp
deriving DecidableEq, Repr

inductive NotificationStatus where
  | queued | sending | sent | failed | dead | suppressed
deriving DecidableEq, Repr

structure EmailMessage where
  toAddrs : List String
  subject : String
  textBody : String
  htmlBody : Option String := none
  sender : Option String := none
  cc : List String := []
deriving DecidableEq, Repr

structure SendResult where
  driver : String
  sent : Bool
  recipients : List String
  messageId : Option String := none
deriving DecidableEq, Repr

/-- `EmailMessage.__post_init__`. -/
def EmailMessage.checked (m : EmailMessage) : Except Raised EmailMessage := do
  refuse (m.toAddrs = []) (.emailError "email has no recipients")
  refuse (m.subject = "") (.emailError "email has no subject")
  return m

/-- What a caller says beside the message. -/
structure NotificationMeta where
  dedupKey : Option String := none
  recipientUserId : Option ℕ := none
  recipientEmail : Option String := none
  notificationClass : String := "operational"
  module : Option String := none
  cashAdvanceId : Option ℕ := none
  milestone : Option String := none
  subject : String := ""
  bodyText : Option String := none
deriving DecidableEq, Repr

structure Notification where
  channel : NotificationChannel
  email : Option EmailMessage := none
  about : NotificationMeta := {}
deriving DecidableEq, Repr

structure Payload where
  toAddrs : List String := []
  cc : List String := []
  htmlBody : Option String := none
  sender : Option String := none
deriving DecidableEq, Repr

structure NotificationOutbox where
  channel : NotificationChannel
  status : NotificationStatus := .queued
  recipientEmail : Option String := none
  recipientUserId : Option ℕ := none
  subject : String
  bodyText : Option String := none
  payload : Payload := {}
  about : NotificationMeta := {}
  dedupKey : Option String := none
  module : Option String := none
  attemptCount : ℕ := 0
  lastError : Option String := none
  sentAt : Option Time := none
  driver : Option String := none
  dispatchedMessageId : Option String := none
deriving DecidableEq, Repr

/-! ## Persisting -/

/-- A live login with its address; `staff` is the live staff record's address, when there is one. -/
structure MailUser where
  id : ℕ
  email : Option String := none
  staff : Option (Option String) := none
deriving DecidableEq, Repr

structure NotificationPreference where
  userId : ℕ
  channel : NotificationChannel
  module : Option String := none
  enabled : Bool
deriving DecidableEq, Repr

/-- The directory and the preferences a persist reads. -/
structure MailRoom where
  users : List MailUser := []
  preferences : List NotificationPreference := []
deriving DecidableEq, Repr

/-- A module-specific row overrides the channel default; no row means enabled. -/
def MailRoom.channelEnabled (room : MailRoom) (userId : ℕ) (channel : NotificationChannel)
    (module : Option String) : Bool :=
  let rows := room.preferences.filter fun p => p.userId = userId ∧ p.channel = channel
  match (rows.find? (·.module = module)).or (rows.find? (·.module = none)) with
  | some p => p.enabled
  | none => true

def prefsBypassClasses : List String := ["security", "transactional"]

/-- The address of a login: its own, else its staff record's. -/
def MailUser.address (u : MailUser) : Option String :=
  match u.staff with
  | some email => if blank u.email then email else u.email
  | none => u.email

structure Resolved where
  recipientEmail : Option String
  recipientUserId : Option ℕ
  status : NotificationStatus
deriving DecidableEq, Repr

/-- Who receives the row, and whether it is dispatched at all. -/
def resolveRecipient (room : MailRoom) (n : Notification) : Resolved :=
  let given := (n.email.bind (·.toAddrs.head?)).or n.about.recipientEmail
  let user := n.about.recipientUserId.bind fun id => room.users.find? (·.id = id)
  let recipientEmail := given.or (user.bind MailUser.address)
  let optedOut := user.any fun u => n.about.notificationClass ∉ prefsBypassClasses ∧
    ¬ room.channelEnabled u.id n.channel n.about.module
  let unresolvable := n.channel = .email ∧ recipientEmail = none ∧ n.about.recipientUserId ≠ none
  { recipientEmail := recipientEmail
    recipientUserId := n.about.recipientUserId
    status := if optedOut ∨ unresolvable then .suppressed else .queued }

def Notification.payload (n : Notification) : Payload :=
  match n.channel, n.email with
  | .email, some m => { toAddrs := m.toAddrs, cc := m.cc, htmlBody := m.htmlBody, sender := m.sender }
  | _, _ => {}

/-- The row a notification becomes. -/
def outboxRow (room : MailRoom) (n : Notification) : NotificationOutbox :=
  let resolved := resolveRecipient room n
  { channel := n.channel
    status := resolved.status
    recipientEmail := resolved.recipientEmail
    recipientUserId := resolved.recipientUserId
    subject := match n.email with
      | some m => m.subject
      | none => n.about.subject
    bodyText := match n.email with
      | some m => some m.textBody
      | none => n.about.bodyText
    payload := n.payload
    about := n.about
    dedupKey := n.about.dedupKey
    module := n.about.module }

/-- The unique column of the dedup index: the key of a row that is not dead. -/
def NotificationOutbox.liveKey (row : NotificationOutbox) : Option String :=
  if row.status = .dead then none else row.dedupKey

def dedupIndex : String := "uq_core_notifications_dedup_key"

/-- The id of the row that stands for the notification: a live row under its key, else a new one. -/
def persistNotification (room : MailRoom) (n : Notification) (rows : List NotificationOutbox) :
    Except Raised (ℕ × List NotificationOutbox) :=
  let existing := (n.about.dedupKey.filter (· ≠ "")).bind fun key =>
    rows.findIdx? fun row => row.dedupKey = some key ∧ row.status ≠ .dead
  match existing with
  | some id => .ok (id, rows)
  | none => do
      let rows := rows ++ [outboxRow room n]
      refuse (¬ (rows.filterMap NotificationOutbox.liveKey).Nodup) (.integrityError dedupIndex)
      return (rows.length - 1, rows)

/-! ## Dispatching -/

inductive DeliveryOutcome where
  | sent | failed
deriving DecidableEq, Repr

/-- A row of the append-only delivery log. -/
structure NotificationDelivery where
  attemptNo : ℕ
  outcome : DeliveryOutcome
  driver : Option String := none
  messageId : Option String := none
  error : Option String := none
  recipients : Option (List String) := none
deriving DecidableEq, Repr

/-- What a dispatch handed to the channel, and what came of it. -/
inductive Handoff where
  | inApp
  | email (message : EmailMessage) (answer : Except String SendResult)

def Handoff.succeeded : Handoff → Bool
  | .inApp => true
  | .email _ (.ok _) => true
  | .email _ (.error _) => false

/-- One row with its delivery log; `handoffs` is what committed dispatches handed to the channel. -/
structure Mail where
  row : NotificationOutbox
  deliveries : List NotificationDelivery := []
  handoffs : List Handoff := []

/-- `[row.recipient_email] if row.recipient_email else []`. -/
def NotificationOutbox.recipients (row : NotificationOutbox) : List String :=
  if blank row.recipientEmail then [] else row.recipientEmail.toList

/-- Rebuild the transport message from a persisted row. -/
def messageFromRow (row : NotificationOutbox) : Except Raised EmailMessage :=
  EmailMessage.checked {
    toAddrs := if row.payload.toAddrs = [] then row.recipients else row.payload.toAddrs
    subject := row.subject
    textBody := row.bodyText.getD ""
    htmlBody := row.payload.htmlBody
    sender := row.payload.sender
    cc := row.payload.cc }

/-- `text[:2000]`. -/
def clipped (text : String) : String := String.ofList (text.toList.take 2000)

/-- One dispatch.  `send` is the configured driver, an error being the `EmailError` it raises;
`locked` says that another worker holds the row.  A raised message error is before the commit, a
raised transport error after it. -/
def dispatchOutboxRow (send : EmailMessage → Except String SendResult) (now : Time) (locked : Bool)
    (m : Mail) : Except Raised SendResult × Mail :=
  if locked then (.ok { driver := "none", sent := false, recipients := [] }, m)
  else if m.row.status = .sent then
    (.ok {
      driver := (orText m.row.driver (some "none")).getD "none"
      sent := true
      recipients := m.row.recipients
      messageId := m.row.dispatchedMessageId }, m)
  else if m.row.status = .suppressed then
    (.ok { driver := "suppressed", sent := false, recipients := m.row.recipients }, m)
  else
    let row := { m.row with status := .sending, attemptCount := m.row.attemptCount + 1 }
    match row.channel with
    | .inApp =>
        (.ok { driver := "in_app", sent := true, recipients := row.recipients },
          { row := { row with status := .sent, sentAt := some now, driver := some "in_app" }
            deliveries := m.deliveries ++ [{
              attemptNo := row.attemptCount, outcome := .sent, driver := some "in_app" }]
            handoffs := m.handoffs ++ [.inApp] })
    | .email =>
        match messageFromRow row with
        | .error e => (.error e, m)
        | .ok message =>
            let handoffs := m.handoffs ++ [.email message (send message)]
            match send message with
            | .error text =>
                (.error (.emailError text),
                  { row := { row with status := .failed, lastError := some (clipped text) }
                    deliveries := m.deliveries ++ [{
                      attemptNo := row.attemptCount, outcome := .failed, error := some text }]
                    handoffs := handoffs })
            | .ok result =>
                (.ok result,
                  { row := { row with
                      status := .sent
                      sentAt := some now
                      driver := some result.driver
                      dispatchedMessageId := result.messageId }
                    deliveries := m.deliveries ++ [{
                      attemptNo := row.attemptCount
                      outcome := .sent
                      driver := some result.driver
                      messageId := result.messageId
                      recipients := some result.recipients }]
                    handoffs := handoffs })

/-- The dead-letter state after retries are exhausted. -/
def markDead (error : String) (m : Mail) : Mail :=
  { m with
    row := { m.row with status := .dead, lastError := some (clipped error) }
    deliveries := m.deliveries ++ [{
      attemptNo := m.row.attemptCount, outcome := .failed, error := some error }] }

/-! ## Runs on one row -/

inductive MailCall where
  | dispatch (send : EmailMessage → Except String SendResult) (now : Time) (locked : Bool)
  | markDead (error : String)

/-- The committed transaction of a call. -/
def MailCall.step (c : MailCall) (m : Mail) : Except Raised Mail :=
  match c with
  | .dispatch send now locked => .ok (dispatchOutboxRow send now locked m).2
  | .markDead error => .ok (OfficeConnect.markDead error m)

end OfficeConnect
