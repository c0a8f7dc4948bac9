import OfficeConnect.Core.Outbox

/-!
# The dispatch task

A worker runs a dispatch and asks Celery for another execution when the transport raised.  The
dead-letter write stands in the handler of `MaxRetriesExceededError`, which `Task.retry` raises only
when it is not given an exception of its own: the task gives it one, so the write is never reached.
-/

namespace OfficeConnect

open Lib

/-! ## One execution -/

structure NotificationSettings where
  maxAttempts : ℕ := 5
  retryBaseSeconds : ℕ := 60
  retryMaxSeconds : ℕ := 3600
deriving DecidableEq, Repr

/-- How an execution of a task ends. -/
inductive TaskOutcome where
  | returned (result : SendResult)
  | retry (countdown : ℕ)
  | raised (e : Raised)
  | maxRetriesExceeded
deriving DecidableEq, Repr

/-- `Task.retry(exc=exc, countdown=countdown)` of an execution that `retries` others went before. -/
def taskRetry (maxRetries retries countdown : ℕ) (exc : Option Raised) : TaskOutcome :=
  if retries < maxRetries then .retry countdown
  else
    match exc with
    | some e => .raised e
    | none => .maxRetriesExceeded

/-- What the executions of one task meet: the driver, the clock and the row's lock, by the number of
retries before. -/
structure Surroundings where
  send : ℕ → EmailMessage → Except String SendResult
  now : ℕ → Time := fun _ => 0
  locked : ℕ → Bool := fun _ => false

/-- `dispatch_notification`. -/
def dispatchNotification (s : NotificationSettings) (w : Surroundings) (retries : ℕ) (m : Mail) :
    TaskOutcome × Mail :=
  match dispatchOutboxRow (w.send retries) (w.now retries) (w.locked retries) m with
  | (.ok result, m) => (.returned result, m)
  | (.error (.emailError text), m) =>
      let countdown := min (s.retryBaseSeconds * 2 ^ retries) s.retryMaxSeconds
      match taskRetry s.maxAttempts retries countdown (some (.emailError text)) with
      | .maxRetriesExceeded => (.maxRetriesExceeded, markDead text m)
      | outcome => (outcome, m)
  | (.error e, m) => (.raised e, m)

/-! ## Until the retries are used up -/

/-- The executions from one on, with at most `left` more behind it. -/
def runTaskFrom (s : NotificationSettings) (w : Surroundings) : ℕ → ℕ → Mail → TaskOutcome × Mail
  | 0, retries, m => dispatchNotification s w retries m
  | left + 1, retries, m =>
      match dispatchNotification s w retries m with
      | (.retry _, m) => runTaskFrom s w left (retries + 1) m
      | ended => ended

/-- The task from its first execution until it is not retried any more. -/
def runTask (s : NotificationSettings) (w : Surroundings) (m : Mail) : TaskOutcome × Mail :=
  runTaskFrom s w s.maxAttempts 0 m

/-- The dead-letter state, with one delivery row for each attempt and one for the dead letter. -/
structure DeadLettered (before after : Mail) (attempts : ℕ) : Prop where
  status : after.row.status = .dead
  deliveries : after.deliveries.length = before.deliveries.length + attempts + 1

/-- A row that dispatches take to the transport, with the message they hand over. -/
structure Mailable (row : NotificationOutbox) (message : EmailMessage) : Prop where
  channel : row.channel = .email
  notSent : row.status ≠ .sent
  notSuppressed : row.status ≠ .suppressed
  message : messageFromRow row = .ok message

section

variable {s : NotificationSettings} {w : Surroundings} {m : Mail} {message : EmailMessage}
variable {retries left : ℕ}

/-- What a dispatch whose transport raises leaves. -/
structure Bounced (before after : Mail) (text : String) : Prop where
  status : after.row.status = .failed
  deliveries : ∃ row, after.deliveries = before.deliveries ++ [row] ∧ row.outcome = .failed ∧
    row.attemptNo = after.row.attemptCount ∧ row.error = some text
  counted : after.row.attemptCount = before.row.attemptCount + 1

theorem dispatchOutboxRow_bounced {send : EmailMessage → Except String SendResult} (now : Time)
    {text : String} (hm : Mailable m.row message) (hsend : send message = .error text) :
    ∃ m', dispatchOutboxRow send now false m = (.error (.emailError text), m') ∧
      Bounced m m' text ∧ Mailable m'.row message := by
  have hrow : messageFromRow { m.row with
      status := .sending, attemptCount := m.row.attemptCount + 1 } = .ok message := hm.message
  unfold dispatchOutboxRow
  rw [if_neg Bool.false_ne_true, if_neg hm.notSent, if_neg hm.notSuppressed]
  simp only [hm.channel] at hrow ⊢
  simp only [hrow, hsend]
  refine ⟨_, rfl, ⟨rfl, ⟨_, rfl, rfl, rfl, rfl⟩, rfl⟩, rfl, ?_, ?_, hm.message⟩
  · simp
  · simp

/-- An execution whose transport raises asks for another one, or raises what the transport raised. -/
theorem dispatchNotification_bounced {text : String} (hm : Mailable m.row message)
    (hfree : w.locked retries = false) (hsend : w.send retries message = .error text) :
    ∃ m', Bounced m m' text ∧ Mailable m'.row message ∧
      dispatchNotification s w retries m =
        (if retries < s.maxAttempts then
          .retry (min (s.retryBaseSeconds * 2 ^ retries) s.retryMaxSeconds)
        else .raised (.emailError text), m') := by
  obtain ⟨m', hdispatch, hbounced, hm'⟩ :=
    dispatchOutboxRow_bounced (w.now retries) hm hsend
  refine ⟨m', hbounced, hm', ?_⟩
  unfold dispatchNotification taskRetry
  rw [hfree, hdispatch]
  by_cases hleft : retries < s.maxAttempts
  · simp [hleft]
  · simp [hleft]

/-- What the executions of a task leave that all bounced. -/
structure GivenUp (before after : Mail) (attempts : ℕ) : Prop where
  status : after.row.status = .failed
  deliveries : ∃ rows, after.deliveries = before.deliveries ++ rows ∧ rows.length = attempts ∧
    ∀ row ∈ rows, row.outcome = .failed
  counted : after.row.attemptCount = before.row.attemptCount + attempts

theorem Bounced.givenUp {m' : Mail} {text : String} (h : Bounced m m' text) : GivenUp m m' 1 := by
  obtain ⟨row, hrows, hfailed, -⟩ := h.deliveries
  exact ⟨h.status, ⟨[row], hrows, rfl, by simpa using hfailed⟩, h.counted⟩

theorem GivenUp.trans {m₁ m₂ m₃ : Mail} {j k : ℕ} (h : GivenUp m₁ m₂ j) (h' : GivenUp m₂ m₃ k) :
    GivenUp m₁ m₃ (j + k) := by
  obtain ⟨rows, hrows, hlength, hfailed⟩ := h.deliveries
  obtain ⟨rows', hrows', hlength', hfailed'⟩ := h'.deliveries
  refine ⟨h'.status, ⟨rows ++ rows', ?_, ?_, ?_⟩, ?_⟩
  · rw [hrows', hrows, List.append_assoc]
  · rw [List.length_append, hlength, hlength']
  · intro row hrow
    exact (List.mem_append.1 hrow).elim (hfailed row) (hfailed' row)
  · rw [h'.counted, h.counted, add_assoc]

variable (retries) in
/-- By induction on the retries that are left. -/
theorem runTaskFrom_bounced (hm : Mailable m.row message) (hleft : retries + left = s.maxAttempts)
    (hfree : ∀ k, w.locked k = false) (hdown : ∀ k, ∃ text, w.send k message = .error text) :
    ∃ text m', runTaskFrom s w left retries m = (.raised (.emailError text), m') ∧
      GivenUp m m' (left + 1) := by
  induction left generalizing retries m with
  | zero =>
      obtain ⟨text, hsend⟩ := hdown retries
      obtain ⟨m', hbounced, -, hrun⟩ := dispatchNotification_bounced (s := s) hm (hfree _) hsend
      rw [if_neg (by omega)] at hrun
      exact ⟨text, m', hrun, hbounced.givenUp⟩
  | succ left ih =>
      obtain ⟨text, hsend⟩ := hdown retries
      obtain ⟨m₁, hbounced, hm₁, hrun⟩ := dispatchNotification_bounced (s := s) hm (hfree _) hsend
      rw [if_pos (by omega)] at hrun
      obtain ⟨text', m', hrest, hgiven⟩ := ih _ (m := m₁) hm₁ (show retries + 1 + left = _ by omega)
      refine ⟨text', m', ?_, ?_⟩
      · rw [runTaskFrom, hrun]
        exact hrest
      · rw [add_comm (left + 1) 1]
        exact hbounced.givenUp.trans hgiven

end

/-- A task whose transport is down for every attempt is never dead-lettered: the last execution
raises the transport's own error, and the row stays failed with a delivery row for each attempt. -/
theorem runTask_never_deadLettered (s : NotificationSettings) (w : Surroundings) (m : Mail)
    (message : EmailMessage) (hm : Mailable m.row message) (hfree : ∀ k, w.locked k = false)
    (hdown : ∀ k, ∃ text, w.send k message = .error text) :
    ¬ DeadLettered m (runTask s w m).2 (s.maxAttempts + 1) ∧
      (∃ text, (runTask s w m).1 = .raised (.emailError text)) ∧
      GivenUp m (runTask s w m).2 (s.maxAttempts + 1) := by
  obtain ⟨text, m', hrun, hgiven⟩ :=
    runTaskFrom_bounced (s := s) (w := w) 0 hm (zero_add _) hfree hdown
  unfold runTask
  rw [hrun]
  refine ⟨fun hdead => ?_, ⟨text, rfl⟩, hgiven⟩
  have hstatus := hdead.status
  rw [hgiven.status] at hstatus
  cases hstatus

/-- A queued mail and a transport that is down. -/
def overdueMail : Mail where
  row := outboxRow {} {
    channel := .email
    email := some { toAddrs := ["x@x"], subject := "dead", textBody := "b" } }

def smtpDown : Surroundings where
  send := fun _ _ => .error "smtp send failed"

theorem overdueMail_staysFailed :
    GivenUp overdueMail (runTask {} smtpDown overdueMail).2 6 :=
  (runTask_never_deadLettered {} smtpDown overdueMail
    { toAddrs := ["x@x"], subject := "dead", textBody := "b" }
    ⟨rfl, by decide, by decide, rfl⟩ (fun _ => rfl) (fun _ => ⟨_, rfl⟩)).2.2

/-- One retry, both attempts failed: the row is not dead and there is no dead-letter row. -/
theorem overdueMail_notDead :
    ¬ DeadLettered overdueMail (runTask { maxAttempts := 1 } smtpDown overdueMail).2 2 := by
  intro hdead
  have hstatus := hdead.status
  revert hstatus
  decide +kernel

end OfficeConnect
