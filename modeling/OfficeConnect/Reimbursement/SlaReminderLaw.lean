import OfficeConnect.Reimbursement.ReminderLaw
import OfficeConnect.Reimbursement.SlaReminders

/-!
# The law of the SLA ladder

A sweep within its page budget examines every overdue step once, writes only to the user who holds
the step's claim, and leaves nothing for a second sweep at the same instant to write.  The sweep and
the delivery of the escalation share the key of the first rung, so at most one live row stands at
any rung of any step.
-/

namespace OfficeConnect.Reimbursement

open Lib Workflow

/-! ## Words for the law -/

/-- The claim of the step is with this user. -/
def SlaDesk.HeldBy (d : SlaDesk) (stepId holderId : ℕ) : Prop :=
  ∃ instanceId step claimId claim, d.steps[stepId]? = some (instanceId, step) ∧
    d.claimOf instanceId = some (claimId, claim) ∧ claim.holderKind = some .user ∧
    claim.holderId = some holderId

/-- The dedup index holds. -/
def SlaDesk.Live (d : SlaDesk) : Prop := (d.outbox.filterMap NotificationOutbox.liveKey).Nodup

/-- A row of the ladder of some step, to the user who holds the step's claim. -/
def Addressed (d : SlaDesk) (row : NotificationOutbox) : Prop :=
  ∃ stepId k holderId, row.dedupKey = some (slaDedupKey stepId k) ∧ d.HeldBy stepId holderId ∧
    row.recipientUserId = some holderId

/-- From one desk to another only rows to current holders were written. -/
structure Nudged (d₀ d : SlaDesk) : Prop where
  steps : d.steps = d₀.steps
  instances : d.instances = d₀.instances
  claims : d.claims = d₀.claims
  live : d.Live
  rows : ∃ rows, d.outbox = d₀.outbox ++ rows ∧ ∀ row ∈ rows, Addressed d₀ row

/-- The key's step has its row for the rung it stands at, if its claim is with a user. -/
def Told (env : Env) (now : Time) (every : ℤ) (d : SlaDesk) (outbox : List NotificationOutbox)
    (key : Time ×ₗ ℕ) : Prop :=
  ∀ holderId k, d.HeldBy (ofLex key).2 holderId → nudgeIndex env every (ofLex key).1 now = some k →
    alreadySent outbox (slaDedupKey (ofLex key).2 k) = true

/-! ## One nudge -/

/-- A nudge writes nothing, its key being sent or nobody being there to tell, or it writes its row to
the holder. -/
inductive Nudging (claim : Claim) (stepId : ℕ) (k : ℤ) (d : SlaDesk) :
    SlaDesk → Option ℕ → Prop
  | idle (h : ∀ holderId, claim.holderKind = some .user → claim.holderId = some holderId →
      alreadySent d.outbox (slaDedupKey stepId k) = true) : Nudging claim stepId k d d none
  | wrote (row : NotificationOutbox) (holderId : ℕ) (hkind : claim.holderKind = some .user)
      (hholder : claim.holderId = some holderId)
      (hunsent : ¬ alreadySent d.outbox (slaDedupKey stepId k) = true)
      (hkey : row.dedupKey = some (slaDedupKey stepId k))
      (hrecipient : row.recipientUserId = some holderId)
      (hsent : alreadySent (d.outbox ++ [row]) (slaDedupKey stepId k) = true)
      (hlive : ({ d with outbox := d.outbox ++ [row] } : SlaDesk).Live) :
      Nudging claim stepId k d { d with outbox := d.outbox ++ [row] } (some d.outbox.length)

section

variable {env : Env} {room : MailRoom} {now : Time} {every k : ℤ} {d d' d₀ : SlaDesk}
variable {b : SlaBeat} {claim : Claim} {claimId stepId instanceId : ℕ} {step : Step}
variable {written : Option ℕ} {key : Time ×ₗ ℕ} {keys : List (Time ×ₗ ℕ)}
variable {outbox rows : List NotificationOutbox}

theorem sendNudge_eq_ok (room : MailRoom) (claimId : ℕ) (claim : Claim) (stepId : ℕ) (k : ℤ)
    (hlive : d.Live) : ∃ d' written, sendNudge room claimId claim stepId k d = .ok (d', written) ∧
      Nudging claim stepId k d d' written := by
  have hidle : (∀ holderId, claim.holderKind = some .user → claim.holderId ≠ some holderId) →
      Nudging claim stepId k d d none := fun h =>
    .idle fun holderId hkind hholder => absurd hholder (h holderId hkind)
  cases hkind : claim.holderKind with
  | none => exact ⟨d, none, by simp [sendNudge, hkind], hidle fun _ h => by simp [hkind] at h⟩
  | some kind =>
      cases kind with
      | externalFms =>
          exact ⟨d, none, by simp [sendNudge, hkind], hidle fun _ h => by simp [hkind] at h⟩
      | user =>
          cases hholder : claim.holderId with
          | none =>
              exact ⟨d, none, by simp [sendNudge, hkind, hholder],
                hidle fun _ _ => by simp [hholder]⟩
          | some holderId =>
              by_cases hsent : alreadySent d.outbox (slaDedupKey stepId k) = true
              · exact ⟨d, none, by simp [sendNudge, hkind, hholder, hsent], .idle fun _ _ _ => hsent⟩
              · have hkey : (slaNudge claimId claim stepId holderId k).about.dedupKey =
                    some (slaDedupKey stepId k) := rfl
                refine ⟨_, _, ?_, .wrote _ holderId hkind hholder hsent rfl rfl
                  (alreadySent_outboxRow room hkey) (nodup_liveKeys_append room hlive hkey hsent)⟩
                simp only [sendNudge, hkind, hholder, if_neg hsent,
                  persistNotification_unsent room hlive hkey hsent, ok_bind]
                rfl

theorem Nudged.refl (hlive : d.Live) : Nudged d d :=
  ⟨rfl, rfl, rfl, hlive, [], by simp, by simp⟩

theorem HeldBy_congr (hsteps : d'.steps = d.steps) (hinstances : d'.instances = d.instances)
    (hclaims : d'.claims = d.claims) (stepId holderId : ℕ) :
    d'.HeldBy stepId holderId ↔ d.HeldBy stepId holderId := by
  unfold SlaDesk.HeldBy SlaDesk.claimOf
  rw [hsteps, hinstances, hclaims]

/-- A nudge about a step of the desk is one to the current holder. -/
theorem Nudged.nudging (h : Nudged d₀ d) (hstep : d.steps[stepId]? = some (instanceId, step))
    (hclaim : d.claimOf instanceId = some (claimId, claim))
    (hnudging : Nudging claim stepId k d d' written) : Nudged d₀ d' := by
  cases hnudging with
  | idle => exact h
  | wrote row holderId hkind hholder _ hkey hrecipient _ hlive =>
      obtain ⟨rows, hrows, hall⟩ := h.rows
      refine ⟨h.steps, h.instances, h.claims, hlive, rows ++ [row], ?_, ?_⟩
      · rw [hrows, List.append_assoc]
      · intro r hr
        rcases List.mem_append.1 hr with hold | hnew
        · exact hall r hold
        · rw [List.mem_singleton.1 hnew]
          have hheld : d.HeldBy stepId holderId :=
            ⟨instanceId, step, claimId, claim, hstep, hclaim, hkind, hholder⟩
          exact ⟨stepId, k, holderId, hkey,
            (HeldBy_congr h.steps h.instances h.claims _ _).1 hheld, hrecipient⟩

theorem Nudged.of_tables (h : Nudged d₀ d) (hsteps : d'.steps = d.steps)
    (hinstances : d'.instances = d.instances) (hclaims : d'.claims = d.claims)
    (houtbox : d'.outbox = d.outbox) : Nudged d₀ d' := by
  refine ⟨hsteps.trans h.steps, hinstances.trans h.instances, hclaims.trans h.claims, ?_, ?_⟩
  · unfold SlaDesk.Live
    rw [houtbox]
    exact h.live
  · rw [houtbox]
    exact h.rows

/-! ## The escalation -/

/-- The delivery of an escalation writes at most its one row, to the holder. -/
theorem notifyEscalation_eq_ok (room : MailRoom) (stepId : ℕ) (hlive : d.Live) :
    ∃ d' written, notifyEscalation room stepId d = .ok (d', written) ∧ Nudged d d' := by
  unfold notifyEscalation
  cases hstep : d.steps[stepId]? with
  | none => exact ⟨d, none, rfl, .refl hlive⟩
  | some row =>
      obtain ⟨instanceId, step⟩ := row
      dsimp only
      split_ifs with hoff
      · exact ⟨d, none, rfl, .refl hlive⟩
      · cases hclaim : d.claimOf instanceId with
        | none => exact ⟨d, none, rfl, .refl hlive⟩
        | some found =>
            obtain ⟨claimId, claim⟩ := found
            obtain ⟨d', written, hsend, hnudging⟩ :=
              sendNudge_eq_ok room claimId claim stepId 0 hlive
            exact ⟨d', written, hsend, (Nudged.refl hlive).nudging hstep hclaim hnudging⟩

/-! ## The work-list -/

theorem mem_overdueSteps : key ∈ overdueSteps now d ↔ ∃ instanceId step,
    d.steps[(ofLex key).2]? = some (instanceId, step) ∧ step.slaDueAt = some (ofLex key).1 ∧
      d.overdue now instanceId step (ofLex key).1 := by
  rw [overdueSteps, List.mem_filterMap]
  constructor
  · rintro ⟨⟨⟨instanceId, step⟩, id⟩, hmem, hkey⟩
    obtain ⟨due, hdue, hif⟩ := Option.bind_eq_some_iff.1 hkey
    split_ifs at hif with hover
    obtain rfl := Option.some.inj hif
    exact ⟨instanceId, step, List.mem_zipIdx_iff_getElem?.1 hmem, hdue, hover⟩
  · rintro ⟨instanceId, step, hstep, hdue, hover⟩
    refine ⟨((instanceId, step), (ofLex key).2), List.mem_zipIdx_iff_getElem?.2 hstep, ?_⟩
    simp only [hdue, Option.bind_some, if_pos hover]
    rfl

theorem overdueSteps_places (now : Time) (d : SlaDesk) :
    ((overdueSteps now d).map fun key => (ofLex key).2).Nodup := by
  refine nodup_places ?_ d.steps
  rintro ⟨⟨instanceId, step⟩, id⟩ key hkey
  obtain ⟨due, -, hif⟩ := Option.bind_eq_some_iff.1 hkey
  split_ifs at hif
  obtain rfl := Option.some.inj hif
  rfl

theorem overdueSteps_congr (h : Nudged d₀ d) : overdueSteps now d = overdueSteps now d₀ := by
  have hover : ∀ instanceId step due, d.overdue now instanceId step due ↔
      d₀.overdue now instanceId step due := fun instanceId step due => by
    unfold SlaDesk.overdue
    rw [h.instances]
  simp only [overdueSteps, h.steps, hover]

/-! ## One step -/

/-- What the examination of a step of the work-list does. -/
structure ExaminedStep (env : Env) (now : Time) (every : ℤ) (d₀ : SlaDesk) (key : Time ×ₗ ℕ)
    (b b' : SlaBeat) : Prop where
  nudged : Nudged d₀ b'.desk
  examined : b'.examined = b.examined ++ [(ofLex key).2]
  told : Told env now every d₀ b'.desk.outbox key
  rows : ∃ rows, b'.desk.outbox = b.desk.outbox ++ rows
  quiet : Told env now every d₀ b.desk.outbox key → b'.desk = b.desk ∧ b'.nudged = b.nudged

theorem Told.append (h : Told env now every d₀ outbox key) (rows : List NotificationOutbox) :
    Told env now every d₀ (outbox ++ rows) key := fun holderId k hheld hk =>
  alreadySent_append (h holderId k hheld hk)

/-- A step nobody is to be told about is told. -/
theorem told_of_none (hstep : d₀.steps[(ofLex key).2]? = some (instanceId, step))
    (h : d₀.claimOf instanceId = none ∨ nudgeIndex env every (ofLex key).1 now = none) :
    Told env now every d₀ outbox key := by
  rintro holderId k ⟨instanceId', step', claimId, claim, hstep', hclaim, -⟩ hk
  rw [hstep] at hstep'
  obtain ⟨rfl, rfl⟩ := Prod.mk.inj (Option.some.inj hstep')
  rcases h with h | h
  · rw [h] at hclaim
    cases hclaim
  · rw [h] at hk
    cases hk

variable (outbox) in
/-- A step with a claim and a rung is told when the claim's holder has the row of the rung. -/
theorem told_iff (hstep : d₀.steps[(ofLex key).2]? = some (instanceId, step))
    (hclaim : d₀.claimOf instanceId = some (claimId, claim))
    (hk : nudgeIndex env every (ofLex key).1 now = some k) :
    Told env now every d₀ outbox key ↔ ∀ holderId, claim.holderKind = some .user →
      claim.holderId = some holderId →
        alreadySent outbox (slaDedupKey (ofLex key).2 k) = true := by
  constructor
  · intro h holderId hkind hholder
    exact h holderId k ⟨instanceId, step, claimId, claim, hstep, hclaim, hkind, hholder⟩ hk
  · rintro h holderId k' ⟨instanceId', step', claimId', claim', hstep', hclaim', hkind, hholder⟩ hk'
    rw [hstep] at hstep'
    obtain ⟨rfl, rfl⟩ := Prod.mk.inj (Option.some.inj hstep')
    rw [hclaim] at hclaim'
    obtain ⟨rfl, rfl⟩ := Prod.mk.inj (Option.some.inj hclaim')
    rw [hk] at hk'
    obtain rfl := Option.some.inj hk'
    exact h holderId hkind hholder

variable (env every) in
theorem examineStep_eq_ok (room : MailRoom) (hb : Nudged d₀ b.desk)
    (hkey : key ∈ overdueSteps now d₀) :
    ∃ b', examineStep env room now every key b = .ok b' ∧
      ExaminedStep env now every d₀ key b b' := by
  obtain ⟨instanceId, step, hstep, -, -⟩ := mem_overdueSteps.1 hkey
  have hstep' : b.desk.steps[(ofLex key).2]? = some (instanceId, step) := by rw [hb.steps, hstep]
  have hclaims : b.desk.claimOf instanceId = d₀.claimOf instanceId := by
    unfold SlaDesk.claimOf
    rw [hb.instances, hb.claims]
  unfold examineStep
  dsimp only
  rw [hstep']
  dsimp only
  rw [hclaims]
  cases hclaim : d₀.claimOf instanceId with
  | none =>
      exact ⟨_, rfl, hb, rfl, told_of_none hstep (.inl hclaim), ⟨[], by simp⟩, fun _ => ⟨rfl, rfl⟩⟩
  | some found =>
      obtain ⟨claimId, claim⟩ := found
      cases hk : nudgeIndex env every (ofLex key).1 now with
      | none =>
          exact ⟨_, rfl, hb, rfl, told_of_none hstep (.inr hk), ⟨[], by simp⟩, fun _ => ⟨rfl, rfl⟩⟩
      | some k =>
          obtain ⟨desk, written, hsend, hnudging⟩ :=
            sendNudge_eq_ok room claimId claim (ofLex key).2 k hb.live
          have hnudged := hb.nudging hstep' (hclaims.trans hclaim) hnudging
          have htold := fun outbox => told_iff outbox hstep hclaim hk
          dsimp only
          rw [hsend, ok_bind]
          cases hnudging with
          | idle hidle =>
              exact ⟨_, rfl, hnudged, rfl, (htold _).2 hidle, ⟨[], by simp⟩, fun _ => ⟨rfl, rfl⟩⟩
          | wrote row holderId hkind hholder hunsent _ _ hsent =>
              refine ⟨_, rfl, hnudged.of_tables rfl rfl rfl rfl, rfl, (htold _).2 fun _ _ _ => hsent,
                ⟨[row], rfl⟩, fun h => ?_⟩
              exact absurd ((htold _).1 h holderId hkind hholder) hunsent

/-! ## A pass -/

variable (env every) in
/-- The visits of a list of keys, one after the other. -/
theorem examineSteps_eq_ok (room : MailRoom) (hb : Nudged d₀ b.desk)
    (hkeys : ∀ key ∈ keys, key ∈ overdueSteps now d₀) :
    ∃ b', keys.foldlM (fun b key => examineStep env room now every key b) b = .ok b' ∧
      Nudged d₀ b'.desk ∧ b'.examined = b.examined ++ keys.map (fun key => (ofLex key).2) ∧
      (∀ key ∈ keys, Told env now every d₀ b'.desk.outbox key) ∧
      ∃ rows, b'.desk.outbox = b.desk.outbox ++ rows := by
  induction keys generalizing b with
  | nil => exact ⟨b, rfl, hb, by simp, by simp, [], by simp⟩
  | cons key keys ih =>
      obtain ⟨b₁, hfirst, hexamined⟩ := examineStep_eq_ok env every room hb (hkeys key (by simp))
      obtain ⟨b', hrest, hnudged, hlist, htold, rows, hrows⟩ :=
        ih hexamined.nudged fun key hmem => hkeys key (by simp [hmem])
      obtain ⟨rows₁, hrows₁⟩ := hexamined.rows
      refine ⟨b', ?_, hnudged, ?_, ?_, rows₁ ++ rows, ?_⟩
      · rw [List.foldlM_cons, hfirst, ok_bind, hrest]
      · rw [hlist, hexamined.examined, List.append_assoc, List.map_cons, List.singleton_append]
      · refine List.forall_mem_cons.2 ⟨?_, htold⟩
        rw [hrows]
        exact hexamined.told.append rows
      · rw [hrows, hrows₁, List.append_assoc]

theorem overdueSteps_nodup (now : Time) (d : SlaDesk) : (overdueSteps now d).Nodup :=
  List.Nodup.of_map _ (overdueSteps_places now d)

variable {r again : SlaSweep}

/-- A pass within its budget. -/
theorem drainSlaSteps_eq_ok (room : MailRoom) (hlive : d.Live)
    (hbudget : (overdueSteps (env.at r.now) d).length ≤ r.pageSize * r.maxPages) :
    ∃ b drained, drainSlaSteps env room r d = .ok (b, drained) ∧ Nudged d b.desk ∧
      b.examined.Perm ((overdueSteps (env.at r.now) d).map fun key => (ofLex key).2) ∧
      ∀ key ∈ overdueSteps (env.at r.now) d,
        Told env (env.at r.now) (reminderEvery env (manilaDate (env.at r.now))) d b.desk.outbox
          key := by
  set now := env.at r.now with hnow
  set every := reminderEvery env (manilaDate now) with hevery
  have hperm := keysPast_none_perm (overdueSteps now d)
  obtain ⟨b, drained, hdrain, hfold⟩ := drainPages_eq_foldlM (n := r.pageSize)
    (I := fun b : SlaBeat => Nudged d b.desk) (overdueSteps_nodup now d)
    (fun b hb => overdueSteps_congr hb)
    (fun key hkey b hb => by
      obtain ⟨b', hok, hexamined⟩ := examineStep_eq_ok env every room hb hkey
      exact ⟨b', hok, hexamined.nudged⟩)
    r.maxPages none { desk := d } (Nudged.refl hlive)
    (by rw [hperm.length_eq]; exact hbudget)
  obtain ⟨b', hfold', hnudged, hlist, htold, -⟩ := examineSteps_eq_ok env every room
    (b := { desk := d }) (Nudged.refl hlive) fun key hkey => hperm.mem_iff.1 hkey
  rw [hfold'] at hfold
  obtain rfl := Except.ok.inj hfold
  refine ⟨b', drained, hdrain, hnudged, ?_, fun key hkey => htold key (hperm.mem_iff.2 hkey)⟩
  rw [hlist, List.nil_append]
  exact hperm.map _

/-- A pass that finds every step told writes nothing, whatever its budget. -/
theorem drainSlaSteps_quiet (room : MailRoom) (hlive : d.Live)
    (htold : ∀ key ∈ overdueSteps (env.at again.now) d,
      Told env (env.at again.now) (reminderEvery env (manilaDate (env.at again.now))) d d.outbox key) :
    ∃ b drained, drainSlaSteps env room again d = .ok (b, drained) ∧ b.desk = d ∧ b.nudged = 0 := by
  obtain ⟨b, drained, hdrain, hquiet, -⟩ := drainPages_visit
    (I := fun b : SlaBeat => b.desk = d ∧ b.nudged = 0) (Q := fun _ _ => True)
    (fun b : SlaBeat => overdueSteps (env.at again.now) b.desk)
    (examineStep env room (env.at again.now) (reminderEvery env (manilaDate (env.at again.now))))
    (overdueSteps (env.at again.now) d) again.pageSize again.maxPages { desk := d }
    (overdueSteps_nodup _ _) (fun b hb => by rw [hb.1])
    (fun key hkey b hb => by
      have hstart : Nudged d b.desk := by
        rw [hb.1]
        exact .refl hlive
      obtain ⟨b', hok, hexamined⟩ := examineStep_eq_ok env _ room hstart hkey
      obtain ⟨hdesk, hcount⟩ := hexamined.quiet (by rw [hb.1]; exact htold key hkey)
      exact ⟨b', hok, ⟨hdesk.trans hb.1, hcount.trans hb.2⟩, trivial, fun _ _ => trivial⟩)
    ⟨rfl, rfl⟩
  exact ⟨b, drained, hdrain, hquiet⟩

end

/-! ## Histories -/

section

variable {d d' : SlaDesk} {rows : List NotificationOutbox}

theorem persistNotification_live {n : Notification} {id : ℕ} (hlive : d.Live)
    (h : persistNotification room n d.outbox = .ok (id, rows)) :
    ({ d with outbox := rows } : SlaDesk).Live := by
  unfold persistNotification at h
  dsimp only at h
  split at h
  · cases h
    exact hlive
  · simp only [bind_eq_ok, refuse_eq_ok, pure_eq_ok, not_not] at h
    obtain ⟨-, hnodup, hrows⟩ := h
    cases hrows
    exact hnodup

/-- Every pass ends, and keeps the dedup index. -/
theorem sweepSlaReminders_live (env : Env) (room : MailRoom) (r : SlaSweep) (hlive : d.Live) :
    ∃ d' report, sweepSlaReminders env room r d = .ok (d', report) ∧ d'.Live := by
  obtain ⟨b, drained, hdrain, hnudged, -⟩ := drainPages_visit
    (I := fun b : SlaBeat => Nudged d b.desk) (Q := fun _ _ => True)
    (fun b : SlaBeat => overdueSteps (env.at r.now) b.desk)
    (examineStep env room (env.at r.now) (reminderEvery env (manilaDate (env.at r.now))))
    (overdueSteps (env.at r.now) d) r.pageSize r.maxPages { desk := d }
    (overdueSteps_nodup _ _) (fun b hb => overdueSteps_congr hb)
    (fun key hkey b hb => by
      obtain ⟨b', hok, hexamined⟩ := examineStep_eq_ok env _ room hb hkey
      exact ⟨b', hok, hexamined.nudged, trivial, fun _ _ => trivial⟩)
    (Nudged.refl hlive)
  refine ⟨b.desk, { checked := b.examined.length, nudged := b.nudged, drained := drained }, ?_,
    hnudged.live⟩
  unfold sweepSlaReminders drainSlaSteps
  dsimp only
  rw [hdrain]
  rfl

theorem SlaDesk.Live.step {c : SlaCall} (hlive : d.Live) (h : c.step d = .ok d') : d'.Live := by
  cases c with
  | sweep env room r =>
      obtain ⟨d₁, report, hsweep, hlive₁⟩ := sweepSlaReminders_live env room r hlive
      rw [SlaCall.step, hsweep] at h
      cases h
      exact hlive₁
  | escalation room stepId =>
      obtain ⟨d₁, written, hnotify, hnudged⟩ := notifyEscalation_eq_ok room stepId hlive
      rw [SlaCall.step, hnotify] at h
      cases h
      exact hnudged.live
  | post room n =>
      simp only [SlaCall.step, bind_eq_ok, pure_eq_ok] at h
      obtain ⟨⟨id, rows⟩, hpersist, rfl⟩ := h
      exact persistNotification_live hlive hpersist
  | deliver id c =>
      unfold SlaCall.step SlaDesk.deliver at h
      dsimp only at h
      split at h
      · cases h
        exact hlive
      · simp only [bind_eq_ok, refuse_eq_ok, pure_eq_ok, not_not] at h
        obtain ⟨mail, -, -, hnodup, rfl⟩ := h
        exact hnodup
  | tables steps instances claims =>
      cases h
      exact hlive

theorem run_slaDesk_live (calls : List SlaCall) : (run SlaCall.step {} calls).Live :=
  run_invariant (P := fun _ _ => True) (I := SlaDesk.Live)
    (fun _ _ _ _ hlive hstep => hlive.step hstep) calls {} List.nodup_nil (conforms_true _ _)

/-- One live row stands under a key. -/
theorem SlaDesk.Live.unique (hlive : d.Live) {dedupKey : String} {i j : ℕ}
    {row row' : NotificationOutbox} (hrow : d.outbox[i]? = some row)
    (hrow' : d.outbox[j]? = some row') (hkey : row.dedupKey = some dedupKey)
    (hkey' : row'.dedupKey = some dedupKey) (hdead : row.status ≠ .dead)
    (hdead' : row'.status ≠ .dead) : i = j := by
  refine eq_of_nodup_filterMap (x := dedupKey) hlive hrow hrow' ?_ ?_
  · rw [NotificationOutbox.liveKey, if_neg hdead, hkey]
  · rw [NotificationOutbox.liveKey, if_neg hdead', hkey']

end

/-- After any history: at most one live row stands at a rung of a step; the delivery of an escalation
writes only to the current holder; a pass within its budget examines every overdue step exactly once,
writes only to the current holders, leaves each of them the row of the rung, and a further pass at the
same instant writes nothing. -/
theorem slaReminders_once (calls : List SlaCall) (env : Env) (room : MailRoom) (r : SlaSweep)
    (hbudget : (overdueSteps (env.at r.now) (run SlaCall.step {} calls)).length ≤
      r.pageSize * r.maxPages) :
    (∀ (stepId : ℕ) (k : ℤ) (i j : ℕ) (row row' : NotificationOutbox),
      (run SlaCall.step {} calls).outbox[i]? = some row →
      (run SlaCall.step {} calls).outbox[j]? = some row' →
      row.dedupKey = some (slaDedupKey stepId k) → row'.dedupKey = some (slaDedupKey stepId k) →
      row.status ≠ .dead → row'.status ≠ .dead → i = j) ∧
    (∀ stepId, ∃ d written,
      notifyEscalation room stepId (run SlaCall.step {} calls) = .ok (d, written) ∧
        Nudged (run SlaCall.step {} calls) d) ∧
    ∃ b drained, drainSlaSteps env room r (run SlaCall.step {} calls) = .ok (b, drained) ∧
      b.examined.Nodup ∧
      (∀ stepId, stepId ∈ b.examined ↔ ∃ instanceId step due,
        (run SlaCall.step {} calls).steps[stepId]? = some (instanceId, step) ∧
          step.slaDueAt = some due ∧
          (run SlaCall.step {} calls).overdue (env.at r.now) instanceId step due) ∧
      Nudged (run SlaCall.step {} calls) b.desk ∧
      (∀ key ∈ overdueSteps (env.at r.now) (run SlaCall.step {} calls),
        Told env (env.at r.now) (reminderEvery env (manilaDate (env.at r.now)))
          (run SlaCall.step {} calls) b.desk.outbox key) ∧
      ∀ again : SlaSweep, env.at again.now = env.at r.now → ∃ b' drained',
        drainSlaSteps env room again b.desk = .ok (b', drained') ∧ b'.desk = b.desk ∧
          b'.nudged = 0 := by
  have hlive := run_slaDesk_live calls
  generalize run SlaCall.step {} calls = d at hlive hbudget ⊢
  refine ⟨fun stepId k i j row row' hrow hrow' hkey hkey' hdead hdead' =>
      hlive.unique hrow hrow' hkey hkey' hdead hdead',
    fun stepId => notifyEscalation_eq_ok room stepId hlive, ?_⟩
  obtain ⟨b, drained, hdrain, hnudged, hperm, htold⟩ := drainSlaSteps_eq_ok room hlive hbudget
  refine ⟨b, drained, hdrain, hperm.nodup_iff.2 (overdueSteps_places _ _), ?_, hnudged, htold, ?_⟩
  · intro stepId
    rw [hperm.mem_iff, List.mem_map]
    constructor
    · rintro ⟨key, hkey, rfl⟩
      obtain ⟨instanceId, step, hstep, hdue, hover⟩ := mem_overdueSteps.1 hkey
      exact ⟨instanceId, step, _, hstep, hdue, hover⟩
    · rintro ⟨instanceId, step, due, hstep, hdue, hover⟩
      exact ⟨toLex (due, stepId), mem_overdueSteps.2 ⟨instanceId, step, hstep, hdue, hover⟩, rfl⟩
  · intro again hnow
    refine drainSlaSteps_quiet room hnudged.live ?_
    rw [hnow, overdueSteps_congr hnudged]
    intro key hkey holderId k hheld hk
    exact htold key hkey holderId k
      ((HeldBy_congr hnudged.steps hnudged.instances hnudged.claims _ _).1 hheld) hk

/-- A claim that waits on user 7 since the morning of a Thursday, its escalation just delivered. -/
def waiting : List SlaCall := [
  .tables
    [(0, { stateId := 1, revisionNo := 1, sequenceNo := 0, joinType := .all, quorumCount := none,
           requiredPermission := none, orgUnitId := none, status := .active,
           slaDueAt := some (manilaInstant 20454 9), escalationLevel := 1 })]
    [{ subjectKind := claimSubject, subjectId := some 0 }]
    [{ kind := .reimbursement, claimantId := 1, status := .divisionApproval,
       holderKind := some .user, holderId := some 7 }],
  .escalation {} 0]

theorem waiting_examined_once : ∃ b drained,
    drainSlaSteps {} {} { now := some (manilaInstant 20460 9) } (run SlaCall.step {} waiting) =
        .ok (b, drained) ∧
      b.examined.Nodup ∧ 0 ∈ b.examined ∧
      alreadySent b.desk.outbox (slaDedupKey 0 2) = true := by
  obtain ⟨-, -, b, drained, hdrain, hnodup, hmem, -, htold, -⟩ :=
    slaReminders_once waiting {} {} { now := some (manilaInstant 20460 9) } (by decide +kernel)
  refine ⟨b, drained, hdrain, hnodup, (hmem 0).2 ⟨0, _, _, rfl, rfl, by decide +kernel⟩, ?_⟩
  exact htold (toLex (manilaInstant 20454 9, 0)) (by decide +kernel) 7 2
    ⟨0, _, 0, _, rfl, rfl, rfl, rfl⟩ (by decide +kernel)

end OfficeConnect.Reimbursement
