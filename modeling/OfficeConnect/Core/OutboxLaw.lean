import OfficeConnect.Core.Outbox

/-!
# What a row of the outbox goes through

A dispatch either leaves the row alone or hands it to the channel once and counts the attempt.
Nothing stops a dispatch of a dead row, nor the dead-letter writer on a row that was sent or
suppressed; a run that does neither delivers the row at most once and ends where it first stops.
-/

namespace OfficeConnect

open Lib

/-! ## One call -/

/-- The statuses a row is not meant to leave. -/
def NotificationStatus.Terminal (s : NotificationStatus) : Prop :=
  s = .sent ∨ s = .suppressed ∨ s = .dead

/-- A dispatch of the row gets as far as the channel. -/
def NotificationOutbox.Deliverable (row : NotificationOutbox) : Prop :=
  row.channel = .inApp ∨ ∃ message, messageFromRow row = .ok message

section

variable {send : EmailMessage → Except String SendResult} {now : Time} {locked : Bool}
variable {m m' : Mail} {c : MailCall}

/-- A dispatch does nothing, or hands the row over once. -/
inductive Attempted (locked : Bool) (m : Mail) : Mail → Prop
  | skipped (h : locked = true ∨ m.row.status = .sent ∨ m.row.status = .suppressed ∨
      ¬ m.row.Deliverable) : Attempted locked m m
  | handed (m' : Mail) (handoff : Handoff) (hlock : locked = false) (hsent : m.row.status ≠ .sent)
      (hsuppressed : m.row.status ≠ .suppressed) (hdeliverable : m.row.Deliverable)
      (hcount : m'.row.attemptCount = m.row.attemptCount + 1)
      (hlog : m'.handoffs = m.handoffs ++ [handoff])
      (hstatus : m'.row.status = if handoff.succeeded then .sent else .failed) :
      Attempted locked m m'

theorem attempted_dispatch (send : EmailMessage → Except String SendResult) (now : Time)
    (locked : Bool) (m : Mail) : Attempted locked m (dispatchOutboxRow send now locked m).2 := by
  unfold dispatchOutboxRow
  split_ifs with hlock hsent hsuppressed
  · exact .skipped (.inl hlock)
  · exact .skipped (.inr (.inl hsent))
  · exact .skipped (.inr (.inr (.inl hsuppressed)))
  · cases hchannel : m.row.channel with
    | inApp =>
        simp only [hchannel]
        exact .handed _ .inApp (by simpa using hlock) hsent hsuppressed (.inl hchannel) rfl rfl rfl
    | email =>
        simp only [hchannel]
        split
        · rename_i e hmessage
          change messageFromRow m.row = .error e at hmessage
          refine .skipped (.inr (.inr (.inr ?_)))
          rintro (hinApp | ⟨message, hok⟩)
          · rw [hchannel] at hinApp
            cases hinApp
          · rw [hmessage] at hok
            cases hok
        · rename_i message hmessage
          have hdeliverable : m.row.Deliverable := .inr ⟨message, hmessage⟩
          have hfree : locked = false := by simpa using hlock
          cases hanswer : send message with
          | error text =>
              exact .handed _ (.email message (.error text)) hfree hsent hsuppressed hdeliverable
                rfl rfl rfl
          | ok result =>
              exact .handed _ (.email message (.ok result)) hfree hsent hsuppressed hdeliverable
                rfl rfl rfl

/-! ## The condition and the law -/

/-- The missing guards: a dead row is not handed over, and a row that was sent or suppressed is not
marked dead. -/
def Guarded (m : Mail) (c : MailCall) : Prop :=
  match c with
  | .dispatch _ _ locked => ¬ (m.row.status = .dead ∧ locked = false ∧ m.row.Deliverable)
  | .markDead _ => m.row.status ≠ .sent ∧ m.row.status ≠ .suppressed

def Mail.successes (m : Mail) : ℕ := (m.handoffs.filter Handoff.succeeded).length

/-- The row after a list of calls. -/
def mailAfter (m : Mail) (calls : List MailCall) : Mail := run MailCall.step m calls

/-- Sent, suppressed and dead are absorbing, a dead or suppressed row is never handed over again,
at most one handover succeeds, and the attempts count the handovers. -/
structure OutboxLaw (m₀ : Mail) (calls : List MailCall) : Prop where
  absorbing : ∀ done more rest, calls = done ++ more ++ rest →
    (mailAfter m₀ done).row.status.Terminal →
    (mailAfter m₀ (done ++ more)).row.status = (mailAfter m₀ done).row.status
  quiet : ∀ done more rest, calls = done ++ more ++ rest →
    (mailAfter m₀ done).row.status = .dead ∨ (mailAfter m₀ done).row.status = .suppressed →
    (mailAfter m₀ (done ++ more)).handoffs = (mailAfter m₀ done).handoffs
  once : ∀ done rest, calls = done ++ rest → (mailAfter m₀ done).successes ≤ 1
  counted : ∀ done rest, calls = done ++ rest →
    (mailAfter m₀ done).row.attemptCount = (mailAfter m₀ done).handoffs.length

/-- A guarded call leaves a terminal row where it is and hands nothing over. -/
theorem Guarded.absorbs (h : Guarded m c) (hterminal : m.row.status.Terminal)
    (hstep : c.step m = .ok m') :
    m'.row.status = m.row.status ∧ m'.handoffs = m.handoffs := by
  cases c with
  | dispatch send now locked =>
      obtain rfl := Except.ok.inj hstep
      have hattempt := attempted_dispatch send now locked m
      generalize (dispatchOutboxRow send now locked m).2 = m' at hattempt
      cases hattempt with
      | skipped => exact ⟨rfl, rfl⟩
      | handed m' handoff hlock hsent hsuppressed hdeliverable =>
          rcases hterminal with hs | hs | hs
          · exact absurd hs hsent
          · exact absurd hs hsuppressed
          · exact absurd ⟨hs, hlock, hdeliverable⟩ h
  | markDead error =>
      obtain rfl := Except.ok.inj hstep
      rcases hterminal with hs | hs | hs
      · exact absurd hs h.1
      · exact absurd hs h.2
      · exact ⟨hs.symm, rfl⟩

/-- A call that leaves a terminal row where it is was guarded. -/
theorem guarded_of_absorbs (hstep : c.step m = .ok m')
    (h : m.row.status.Terminal → m'.row.status = m.row.status) : Guarded m c := by
  cases c with
  | dispatch send now locked =>
      obtain rfl := Except.ok.inj hstep
      rintro ⟨hdead, hlock, hdeliverable⟩
      have hkept := h (.inr (.inr hdead))
      have hattempt := attempted_dispatch send now locked m
      generalize (dispatchOutboxRow send now locked m).2 = m' at hattempt hkept
      cases hattempt with
      | skipped hskip =>
          rcases hskip with hs | hs | hs | hs
          · rw [hlock] at hs
            cases hs
          · rw [hdead] at hs
            cases hs
          · rw [hdead] at hs
            cases hs
          · exact hs hdeliverable
      | handed m' handoff _ _ _ _ _ _ hstatus =>
          rw [hdead, hstatus] at hkept
          split_ifs at hkept
  | markDead error =>
      obtain rfl := Except.ok.inj hstep
      constructor
      · intro hs
        have hkept := h (.inl hs)
        rw [hs] at hkept
        cases hkept
      · intro hs
        have hkept := h (.inr (.inl hs))
        rw [hs] at hkept
        cases hkept

/-! ## Whole runs -/

/-- The attempts count the handovers. -/
def Counted (m : Mail) : Prop := m.row.attemptCount = m.handoffs.length

/-- Nothing was delivered yet, or the one delivery left the row sent. -/
def DeliveredOnce (m : Mail) : Prop := m.successes = 0 ∨ (m.successes = 1 ∧ m.row.status = .sent)

theorem Counted.step (h : Counted m) (hstep : c.step m = .ok m') : Counted m' := by
  cases c with
  | dispatch send now locked =>
      obtain rfl := Except.ok.inj hstep
      have hattempt := attempted_dispatch send now locked m
      generalize (dispatchOutboxRow send now locked m).2 = m' at hattempt
      cases hattempt with
      | skipped => exact h
      | handed m' handoff _ _ _ _ hcount hlog =>
          rw [Counted, hcount, hlog, List.length_append, List.length_singleton, h]
  | markDead error =>
      obtain rfl := Except.ok.inj hstep
      exact h

theorem DeliveredOnce.step (h : DeliveredOnce m) (hguard : Guarded m c)
    (hstep : c.step m = .ok m') : DeliveredOnce m' := by
  cases c with
  | dispatch send now locked =>
      obtain rfl := Except.ok.inj hstep
      have hattempt := attempted_dispatch send now locked m
      generalize (dispatchOutboxRow send now locked m).2 = m' at hattempt
      cases hattempt with
      | skipped => exact h
      | handed m' handoff _ hsent _ _ _ hlog hstatus =>
          have hnone : m.successes = 0 := h.resolve_right fun hs => hsent hs.2
          have hsucc : m'.successes = m.successes + if handoff.succeeded then 1 else 0 := by
            rw [Mail.successes, hlog, List.filter_append, List.length_append, Mail.successes]
            cases hok : handoff.succeeded <;> simp [hok]
          cases hok : handoff.succeeded with
          | true =>
              right
              rw [hsucc, hnone, hstatus, hok]
              exact ⟨rfl, rfl⟩
          | false =>
              left
              rw [hsucc, hnone, hok]
              rfl
  | markDead error =>
      obtain rfl := Except.ok.inj hstep
      exact .inl (h.resolve_right fun hs => hguard.1 hs.2)

theorem mailAfter_append (m : Mail) (done more : List MailCall) :
    mailAfter m (done ++ more) = mailAfter (mailAfter m done) more := run_append ..

/-- From a terminal row on, a guarded run stays where it is. -/
theorem terminal_stays {calls : List MailCall} (hterminal : m.row.status.Terminal)
    (hcalls : Conforms MailCall.step Guarded m calls) :
    (mailAfter m calls).row.status = m.row.status ∧ (mailAfter m calls).handoffs = m.handoffs := by
  refine run_invariant (P := Guarded)
    (I := fun x : Mail => x.row.status = m.row.status ∧ x.handoffs = m.handoffs)
    (fun x c x' hguard hx hstep => ?_) calls m ⟨rfl, rfl⟩ hcalls
  obtain ⟨hstatus, hlog⟩ := hguard.absorbs (hx.1 ▸ hterminal) hstep
  exact ⟨hstatus.trans hx.1, hlog.trans hx.2⟩

theorem outboxRow_status (room : MailRoom) (n : Notification) :
    (outboxRow room n).status = .queued ∨ (outboxRow room n).status = .suppressed := by
  simp only [outboxRow, resolveRecipient]
  split_ifs
  · exact .inr rfl
  · exact .inl rfl

/-- For every persisted notification and every sequence of dispatches and dead-letter writes on its
row, the delivery law holds exactly when no call hands over a dead row or marks a sent or
suppressed row dead. -/
theorem outboxLaw_iff (room : MailRoom) (n : Notification) (calls : List MailCall) :
    OutboxLaw { row := outboxRow room n } calls ↔
      Conforms MailCall.step Guarded { row := outboxRow room n } calls := by
  constructor
  · intro h
    refine conforms_iff_forall_split.2 fun done c rest hsplit => ?_
    obtain ⟨m', hstep⟩ : ∃ m', c.step (mailAfter { row := outboxRow room n } done) = .ok m' := by
      cases c <;> exact ⟨_, rfl⟩
    refine guarded_of_absorbs hstep fun hterminal => ?_
    have hkept := h.absorbing done [c] rest (by simp [hsplit]) hterminal
    have hlast : mailAfter (mailAfter { row := outboxRow room n } done) [c] = m' := by
      rw [mailAfter, run_cons, run_nil, commit, hstep]
    rw [mailAfter_append, hlast] at hkept
    exact hkept
  · intro h
    have hparts : ∀ done rest, calls = done ++ rest →
        Conforms MailCall.step Guarded { row := outboxRow room n } done ∧
          Conforms MailCall.step Guarded (mailAfter { row := outboxRow room n } done) rest := by
      rintro done rest rfl
      exact conforms_append.1 h
    have hstays : ∀ done more rest, calls = done ++ more ++ rest →
        (mailAfter { row := outboxRow room n } done).row.status.Terminal →
        (mailAfter { row := outboxRow room n } (done ++ more)).row.status =
            (mailAfter { row := outboxRow room n } done).row.status ∧
          (mailAfter { row := outboxRow room n } (done ++ more)).handoffs =
            (mailAfter { row := outboxRow room n } done).handoffs := by
      intro done more rest hsplit hterminal
      rw [mailAfter_append]
      rw [List.append_assoc] at hsplit
      exact terminal_stays hterminal (conforms_append.1 (hparts done _ hsplit).2).1
    constructor
    · exact fun done more rest hsplit hterminal => (hstays done more rest hsplit hterminal).1
    · intro done more rest hsplit hstopped
      refine (hstays done more rest hsplit ?_).2
      rcases hstopped with hs | hs
      · exact .inr (.inr hs)
      · exact .inr (.inl hs)
    · intro done rest hsplit
      have honce : DeliveredOnce (mailAfter { row := outboxRow room n } done) :=
        run_invariant (fun _ _ _ hguard hm hstep => hm.step hguard hstep) done _ (.inl rfl)
          (hparts done rest hsplit).1
      rcases honce with hs | ⟨hs, -⟩ <;> omega
    · intro done rest _
      exact run_invariant (P := fun _ _ => True) (I := Counted)
        (fun _ _ _ _ hm hstep => hm.step hstep) done _ rfl (conforms_true _ _)

/-- A transport that is down raises, the task gives up and marks the row dead, and the broker
redelivers the task once the transport is back: the dead row is sent. -/
theorem deadRow_sent : ¬ OutboxLaw
    { row := outboxRow {} {
        channel := .email
        email := some { toAddrs := ["x@x"], subject := "due", textBody := "b" } } }
    [.dispatch (fun _ => .error "smtp send failed") 0 false,
      .markDead "smtp send failed",
      .dispatch (fun m => .ok { driver := "smtp", sent := true, recipients := m.toAddrs }) 0 false] := by
  intro h
  have hkept := h.absorbing [_, _] [_] [] rfl (.inr (.inr rfl))
  revert hkept
  decide +kernel

end

end OfficeConnect
