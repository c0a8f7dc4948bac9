import OfficeConnect.Core.OutboxLaw
import OfficeConnect.Reimbursement.Reminders

/-!
# Which deadline a reminder was written for

A beat leaves a live row under the rung of every advance it has to warn about, and a second beat of
the day writes nothing.  The key of a rung does not name the deadline, so the row that stands there
may have been written for a deadline that has since moved: the warning is about the current deadline
exactly when no such row was in the way.
-/

namespace OfficeConnect.Reimbursement

open Lib

/-! ## The law -/

section

variable (env : Env) (r : LiquidationSweep)

/-- The beat has to warn the holder of this advance about this deadline. -/
structure Owed (σ : Store) (id : ℕ) (deadline : Day) : Prop where
  advance : ∃ a, σ.advances[id]? = some a ∧ a.unliquidated = true ∧
    a.deadlineDate = some deadline ∧ (ownerUser env a.claimantId).isSome = true
  near : deadline ≤ r.today env + 7
  free : id ∉ r.locked

/-- The rung a deadline has on the day of the beat. -/
def LiquidationSweep.rung (deadline : Day) : Option Rung :=
  rungAt env (reminderEvery env (r.today env)) deadline (r.today env)

/-- Row `n` is a live in-app nudge of the advance for this rung. -/
def Board.Nudged (b : Board) (n id : ℕ) (rung : Rung) : Prop :=
  ∃ row, b.outbox[n]? = some row ∧ row.status ≠ .dead ∧ row.channel = .inApp ∧
    row.about.cashAdvanceId = some id ∧ row.dedupKey = some (liquidationDedupKey id rung .inApp)

/-- Every holder has a live nudge for the rung of the current deadline. -/
def Reached (b : Board) : Prop :=
  ∀ id deadline, Owed env r b.store id deadline →
    ∃ rung n, r.rung env deadline = some rung ∧ b.Nudged n id rung

/-- Every holder has a live nudge for the rung of the current deadline, written for that deadline. -/
def Warned (b : Board) : Prop :=
  ∀ id deadline, Owed env r b.store id deadline →
    ∃ rung n, r.rung env deadline = some rung ∧ b.Nudged n id rung ∧ (n, deadline) ∈ b.promises

/-- No live nudge at the rung of a current deadline was written for another deadline. -/
def SameDeadline (b : Board) : Prop :=
  ∀ id deadline rung n, Owed env r b.store id deadline → r.rung env deadline = some rung →
    b.Nudged n id rung → (n, deadline) ∈ b.promises

/-- A further beat of the day writes no row. -/
def Quiet (room : MailRoom) (b : Board) : Prop :=
  ∀ again : LiquidationSweep, again.today env = r.today env → r.locked ⊆ again.locked →
    ∃ b' report, sweepLiquidationReminders env room again b = .ok (b', report) ∧
      b'.outbox = b.outbox ∧ report.nudged = 0

end

/-! ## Rungs and keys -/

theorem milestoneFor_isSome {remaining : ℤ} (hpast : 0 ≤ remaining) (hnear : remaining ≤ 7) :
    ∃ rung, milestoneFor remaining = some rung := by
  rw [milestoneFor, if_neg (by omega)]
  by_cases h0 : remaining ≤ 0
  · exact ⟨.d0, by simp [milestones, h0]⟩
  · by_cases h3 : remaining ≤ 3
    · exact ⟨.d3, by simp [milestones, h0, h3]⟩
    · exact ⟨.d7, by simp [milestones, h0, h3, hnear]⟩

/-- Every deadline within a week stands at a rung. -/
theorem exists_rung {env : Env} {r : LiquidationSweep} {deadline : Day}
    (hnear : deadline ≤ r.today env + 7) : ∃ rung, r.rung env deadline = some rung := by
  unfold LiquidationSweep.rung rungAt
  by_cases hpast : deadline - r.today env < 0
  · simp only [if_pos hpast]
    exact ⟨_, rfl⟩
  · simp only [if_neg hpast]
    exact milestoneFor_isSome (not_lt.1 hpast) (Int.sub_left_le_of_le_add hnear)

theorem colonFree_int (k : ℤ) : ColonFree (toString k) := by
  cases k with
  | ofNat n => exact colonFree_nat n
  | negSucc n =>
      intro hmem
      have hrepr : toString (Int.negSucc n) = "-" ++ toString (n + 1) := rfl
      rw [hrepr, String.toList_append, List.mem_append] at hmem
      rcases hmem with h | h
      · exact absurd h (by decide)
      · exact colonFree_nat _ h

theorem colonFree_token (rung : Rung) : ∀ p ∈ rung.token, ColonFree p := by
  cases rung with
  | overdue k =>
      exact colonFree_cons (by unfold ColonFree; decide)
        (colonFree_cons (colonFree_int k) (by simp))
  | d7 => exact colonFree_cons (by unfold ColonFree; decide) (by simp)
  | d3 => exact colonFree_cons (by unfold ColonFree; decide) (by simp)
  | d0 => exact colonFree_cons (by unfold ColonFree; decide) (by simp)

theorem channelName_colonFree (channel : NotificationChannel) : ColonFree (channelName channel) := by
  cases channel <;> unfold ColonFree <;> decide

theorem channelName_injective : Function.Injective channelName := by
  intro c c' h
  cases c <;> cases c' <;> first | rfl | exact absurd h (by decide)

/-- A key names its advance and its channel. -/
theorem liquidationDedupKey_inj {id id' : ℕ} {rung rung' : Rung} {ch ch' : NotificationChannel}
    (h : liquidationDedupKey id rung ch = liquidationDedupKey id' rung' ch') :
    id = id' ∧ ch = ch' := by
  have hfree : ∀ (id : ℕ) (rung : Rung) (ch : NotificationChannel),
      ∀ p ∈ "reimb.liquidation.deadline" :: toString id :: (rung.token ++ [channelName ch]),
        ColonFree p := by
    intro id rung ch
    refine colonFree_cons (by unfold ColonFree; decide) (colonFree_cons (colonFree_nat id) ?_)
    intro p hp
    rcases List.mem_append.1 hp with hp | hp
    · exact colonFree_token rung p hp
    · rw [List.mem_singleton.1 hp]
      exact channelName_colonFree ch
  have hparts := joinColon_inj (by simp) (by simp) (hfree id rung ch) (hfree id' rung' ch') h
  obtain ⟨-, htail⟩ := List.cons.inj hparts
  obtain ⟨hid, hrest⟩ := List.cons.inj htail
  have hlast := congrArg List.getLast? hrest
  rw [List.getLast?_concat, List.getLast?_concat] at hlast
  exact ⟨toString_nat_inj hid, channelName_injective (Option.some.inj hlast)⟩

/-! ## The outbox between calls -/

/-- Live keys are distinct, the rows written for a deadline exist, and a row under a key of the
ladder is on the key's channel and about its advance. -/
structure BoardOk (b : Board) : Prop where
  live : (b.outbox.filterMap NotificationOutbox.liveKey).Nodup
  promised : ∀ n deadline, (n, deadline) ∈ b.promises → n < b.outbox.length
  keyed : ∀ (n : ℕ) (row : NotificationOutbox) (id : ℕ) (rung : Rung) (ch : NotificationChannel),
    b.outbox[n]? = some row → row.dedupKey = some (liquidationDedupKey id rung ch) →
      row.channel = ch ∧ row.about.cashAdvanceId = some id

theorem alreadySent_iff {outbox : List NotificationOutbox} {key : String} :
    alreadySent outbox key = true ↔
      ∃ (n : ℕ) (row : NotificationOutbox), outbox[n]? = some row ∧ row.dedupKey = some key ∧
        row.status ≠ .dead := by
  rw [alreadySent, List.any_eq_true]
  constructor
  · rintro ⟨row, hmem, hrow⟩
    obtain ⟨n, hn⟩ := List.mem_iff_getElem?.1 hmem
    exact ⟨n, row, hn, by simpa using hrow⟩
  · rintro ⟨n, row, hn, hrow⟩
    exact ⟨row, List.mem_of_getElem? hn, by simpa using hrow⟩

theorem alreadySent_append {outbox fresh : List NotificationOutbox} {key : String}
    (h : alreadySent outbox key = true) : alreadySent (outbox ++ fresh) key = true := by
  rw [alreadySent, List.any_append]
  exact Bool.or_eq_true_iff.2 (.inl h)

theorem BoardOk.nudged_iff {b : Board} (hb : BoardOk b) {id : ℕ} {rung : Rung} :
    (∃ n, b.Nudged n id rung) ↔
      alreadySent b.outbox (liquidationDedupKey id rung .inApp) = true := by
  rw [alreadySent_iff]
  constructor
  · rintro ⟨n, row, hrow, hlive, -, -, hkey⟩
    exact ⟨n, row, hrow, hkey, hlive⟩
  · rintro ⟨n, row, hrow, hkey, hlive⟩
    obtain ⟨hch, hid⟩ := hb.keyed n row id rung .inApp hrow hkey
    exact ⟨n, row, hrow, hlive, hch, hid, hkey⟩

/-- One live row stands at a rung. -/
theorem BoardOk.nudged_unique {b : Board} (hb : BoardOk b) {n m id : ℕ} {rung : Rung}
    (hn : b.Nudged n id rung) (hm : b.Nudged m id rung) : n = m := by
  obtain ⟨row, hrow, hlive, -, -, hkey⟩ := hn
  obtain ⟨row', hrow', hlive', -, -, hkey'⟩ := hm
  refine eq_of_nodup_filterMap (x := liquidationDedupKey id rung .inApp) hb.live hrow hrow' ?_ ?_
  · rw [NotificationOutbox.liveKey, if_neg hlive, hkey]
  · rw [NotificationOutbox.liveKey, if_neg hlive', hkey']

theorem BoardOk.of_eq {b b' : Board} (hb : BoardOk b) (ho : b'.outbox = b.outbox)
    (hp : b'.promises = b.promises) : BoardOk b' := by
  constructor
  · rw [ho]
    exact hb.live
  · rw [ho, hp]
    exact hb.promised
  · rw [ho]
    exact hb.keyed

/-! ## What a post does -/

/-- A post finds its key sent, or writes its row and records the deadline. -/
inductive Posted (key : String) (deadline : Day) (row : NotificationOutbox) (b : Board) :
    Board → ℕ → Prop
  | sent (h : alreadySent b.outbox key = true) : Posted key deadline row b b 0
  | wrote (h : ¬ alreadySent b.outbox key = true) : Posted key deadline row b
      { b with
        outbox := b.outbox ++ [row]
        promises := b.promises ++ [(b.outbox.length, deadline)] } 1

theorem outboxRow_liveKey (room : MailRoom) (n : Notification) :
    (outboxRow room n).liveKey = n.about.dedupKey := by
  rcases outboxRow_status room n with h | h <;> rw [NotificationOutbox.liveKey, h] <;> rfl

section

variable {room : MailRoom} {b b' b₀ : Board} {deadline : Day} {key : String} {n : Notification}
variable {row : NotificationOutbox} {written id owner : ℕ} {rung : Rung}
variable {ch : NotificationChannel} {a : CashAdvance} {env : Env} {today : Day} {every : ℤ}

theorem not_mem_liveKeys {outbox : List NotificationOutbox}
    (h : ¬ alreadySent outbox key = true) :
    key ∉ outbox.filterMap NotificationOutbox.liveKey := by
  intro hmem
  obtain ⟨row, hrow, hkey⟩ := List.mem_filterMap.1 hmem
  refine h (List.any_eq_true.2 ⟨row, hrow, ?_⟩)
  unfold NotificationOutbox.liveKey at hkey
  split_ifs at hkey with hdead
  simpa using ⟨hkey, hdead⟩

/-- The row of an unsent key leaves the live keys distinct. -/
theorem nodup_liveKeys_append {outbox : List NotificationOutbox} (room : MailRoom)
    (hlive : (outbox.filterMap NotificationOutbox.liveKey).Nodup)
    (hkey : n.about.dedupKey = some key) (hsent : ¬ alreadySent outbox key = true) :
    ((outbox ++ [outboxRow room n]).filterMap NotificationOutbox.liveKey).Nodup := by
  rw [List.filterMap_append, List.filterMap_cons_some (by rw [outboxRow_liveKey, hkey]),
    List.filterMap_nil, ← List.concat_eq_append]
  exact List.Nodup.concat (not_mem_liveKeys hsent) hlive

/-- A notification under an unsent key becomes a row. -/
theorem persistNotification_unsent {outbox : List NotificationOutbox} (room : MailRoom)
    (hlive : (outbox.filterMap NotificationOutbox.liveKey).Nodup)
    (hkey : n.about.dedupKey = some key) (hsent : ¬ alreadySent outbox key = true) :
    persistNotification room n outbox = .ok (outbox.length, outbox ++ [outboxRow room n]) := by
  have hmissing : ((n.about.dedupKey.filter (· ≠ "")).bind fun key =>
      outbox.findIdx? fun row => row.dedupKey = some key ∧ row.status ≠ .dead) = none := by
    rw [hkey]
    by_cases hempty : key = ""
    · simp [hempty]
    · rw [Option.filter_some_pos (by simpa using hempty), Option.bind_some,
        List.findIdx?_eq_none_iff]
      intro row hrow
      rw [alreadySent, List.any_eq_true] at hsent
      simpa using fun hrowKey => not_not.1 fun hdead => hsent ⟨row, hrow, by simp [hrowKey, hdead]⟩
  unfold persistNotification
  simp only [hmissing, refuse_of_not _ (not_not.2 (nodup_liveKeys_append room hlive hkey hsent)),
    ok_bind, List.length_append, List.length_singleton, Nat.add_sub_cancel]
  rfl

/-- What is persisted under a key is sent. -/
theorem alreadySent_outboxRow {outbox : List NotificationOutbox} (room : MailRoom)
    (hkey : n.about.dedupKey = some key) :
    alreadySent (outbox ++ [outboxRow room n]) key = true := by
  have hlive := outboxRow_liveKey room n
  rw [hkey] at hlive
  unfold NotificationOutbox.liveKey at hlive
  split_ifs at hlive with hdead
  rw [alreadySent, List.any_append]
  simp [hlive, hdead]

theorem post_eq_ok (room : MailRoom) (deadline : Day) (n : Notification) (hb : BoardOk b)
    (hkey : n.about.dedupKey = some key) :
    ∃ b' written, b.post room deadline key (.ok n) = .ok (b', written) ∧
      Posted key deadline (outboxRow room n) b b' written := by
  by_cases hsent : alreadySent b.outbox key = true
  · exact ⟨b, 0, by rw [Board.post, if_pos hsent], .sent hsent⟩
  · refine ⟨_, _, ?_, .wrote hsent⟩
    rw [Board.post, if_neg hsent, ok_bind, persistNotification_unsent room hb.live hkey hsent]
    rfl

theorem Posted.alreadySent (h : Posted key deadline (outboxRow room n) b b' written)
    (hkey : n.about.dedupKey = some key) : alreadySent b'.outbox key = true := by
  cases h with
  | sent h => exact h
  | wrote h => exact alreadySent_outboxRow room hkey

theorem Posted.extends (h : Posted key deadline row b b' written) :
    ∃ rows, b'.outbox = b.outbox ++ rows := by
  cases h with
  | sent => exact ⟨[], by simp⟩
  | wrote => exact ⟨_, rfl⟩

theorem Posted.store (h : Posted key deadline row b b' written) : b'.store = b.store := by
  cases h <;> rfl

/-- A key that was sent is not sent again. -/
theorem Posted.idle (h : Posted key deadline row b b' written)
    (hsent : OfficeConnect.Reimbursement.alreadySent b.outbox key = true) :
    b' = b ∧ written = 0 := by
  cases h with
  | sent => exact ⟨rfl, rfl⟩
  | wrote h => exact absurd hsent h

theorem Posted.boardOk
    (h : Posted (liquidationDedupKey id rung ch) deadline (outboxRow room n) b b' written)
    (hb : BoardOk b) (hkey : n.about.dedupKey = some (liquidationDedupKey id rung ch))
    (hch : n.channel = ch) (hid : n.about.cashAdvanceId = some id) : BoardOk b' := by
  cases h with
  | sent => exact hb
  | wrote h =>
      constructor
      · exact nodup_liveKeys_append room hb.live hkey h
      · intro n deadline hmem
        rw [List.length_append, List.length_singleton]
        rcases List.mem_append.1 hmem with hold | hnew
        · exact Nat.lt_succ_of_lt (hb.promised n deadline hold)
        · obtain ⟨rfl, -⟩ := Prod.mk.inj (List.mem_singleton.1 hnew)
          exact Nat.lt_succ_self _
      · intro m row id' rung' ch' hrow hrowKey
        rcases getElem?_concat_eq_some hrow with hold | ⟨-, rfl⟩
        · exact hb.keyed m row id' rung' ch' hold hrowKey
        · change n.about.dedupKey = _ at hrowKey
          rw [hkey] at hrowKey
          obtain ⟨rfl, rfl⟩ := liquidationDedupKey_inj (Option.some.inj hrowKey)
          exact ⟨hch, hid⟩

/-! ## What a beat has done so far -/

/-- What the sweep asks of an advance. -/
def CashAdvance.due (a : CashAdvance) : ℕ × Option Day × Bool :=
  (a.claimantId, a.deadlineDate, a.unliquidated)

def Store.dues (σ : Store) : List (ℕ × Option Day × Bool) := σ.advances.map CashAdvance.due

/-- The beat only appended rows, each written for the deadline of its advance. -/
structure Grown (b₀ b : Board) : Prop where
  dues : b.store.dues = b₀.store.dues
  rows : ∃ rows, b.outbox = b₀.outbox ++ rows
  kept : ∀ p ∈ b₀.promises, p ∈ b.promises
  old : ∀ n deadline, n < b₀.outbox.length → (n, deadline) ∈ b.promises →
    (n, deadline) ∈ b₀.promises
  written : ∀ (n : ℕ) (row : NotificationOutbox), b₀.outbox.length ≤ n → b.outbox[n]? = some row →
    ∃ id rung ch deadline, row.dedupKey = some (liquidationDedupKey id rung ch) ∧
      (∃ f ∈ b₀.store.dues[id]?, f.2.1 = some deadline) ∧ (n, deadline) ∈ b.promises

theorem Grown.refl (b : Board) : Grown b b := by
  refine ⟨rfl, ⟨[], by simp⟩, fun _ hp => hp, fun _ _ _ hp => hp, fun n row hn hrow => ?_⟩
  rw [List.getElem?_eq_none hn] at hrow
  cases hrow

theorem Grown.length_le (h : Grown b₀ b) : b₀.outbox.length ≤ b.outbox.length := by
  obtain ⟨rows, hrows⟩ := h.rows
  rw [hrows, List.length_append]
  exact Nat.le_add_right _ _

theorem Grown.post (h : Grown b₀ b)
    (hpost : Posted (liquidationDedupKey id rung ch) deadline row b b' written)
    (hkey : row.dedupKey = some (liquidationDedupKey id rung ch))
    (hdue : ∃ f ∈ b₀.store.dues[id]?, f.2.1 = some deadline) : Grown b₀ b' := by
  cases hpost with
  | sent => exact h
  | wrote =>
      obtain ⟨rows, hrows⟩ := h.rows
      refine ⟨h.dues, ⟨rows ++ [row], by rw [hrows, List.append_assoc]⟩, ?_, ?_, ?_⟩
      · exact fun p hp => List.mem_append_left _ (h.kept p hp)
      · intro n d hn hmem
        rcases List.mem_append.1 hmem with hold | hnew
        · exact h.old n d hn hold
        · obtain ⟨rfl, -⟩ := Prod.mk.inj (List.mem_singleton.1 hnew)
          exact absurd h.length_le (Nat.not_le.2 hn)
      · intro n newer hn hrow
        rcases getElem?_concat_eq_some hrow with hold | ⟨rfl, rfl⟩
        · obtain ⟨id', rung', ch', d, hk, hd, hp⟩ := h.written n newer hn hold
          exact ⟨id', rung', ch', d, hk, hd, List.mem_append_left _ hp⟩
        · exact ⟨id, rung, ch, deadline, hkey, hdue, List.mem_append_right _ (by simp)⟩

theorem Grown.of_eq (h : Grown b₀ b) (hd : b'.store.dues = b.store.dues)
    (ho : b'.outbox = b.outbox) (hp : b'.promises = b.promises) : Grown b₀ b' := by
  refine ⟨hd.trans h.dues, ?_, ?_, ?_, ?_⟩
  · rw [ho]
    exact h.rows
  · rw [hp]
    exact h.kept
  · rw [hp]
    exact h.old
  · rw [ho, hp]
    exact h.written

/-! ## One advance -/

theorem dueAdvances_eq (horizon : Day) (locked : List ℕ) (σ : Store) :
    dueAdvances horizon locked σ = σ.dues.zipIdx.filterMap fun f => f.1.2.1.bind fun d =>
      if f.1.2.2 ∧ d ≤ horizon ∧ f.2 ∉ locked then some (toLex (d, f.2)) else none := by
  rw [dueAdvances, Store.dues, List.zipIdx_map, List.filterMap_map]
  rfl

theorem mem_dueAdvances {horizon : Day} {locked : List ℕ} {σ : Store} {k : Day ×ₗ ℕ} :
    k ∈ dueAdvances horizon locked σ ↔
      ∃ a, σ.advances[(ofLex k).2]? = some a ∧ a.deadlineDate = some (ofLex k).1 ∧
        a.unliquidated = true ∧ (ofLex k).1 ≤ horizon ∧ (ofLex k).2 ∉ locked := by
  rw [dueAdvances, List.mem_filterMap]
  constructor
  · rintro ⟨⟨a, id⟩, hmem, hk⟩
    obtain ⟨d, hd, hif⟩ := Option.bind_eq_some_iff.1 hk
    split_ifs at hif with hcond
    obtain rfl := Option.some.inj hif
    exact ⟨a, List.mem_zipIdx_iff_getElem?.1 hmem, hd, hcond⟩
  · rintro ⟨a, hrow, hd, hcond⟩
    refine ⟨(a, (ofLex k).2), List.mem_zipIdx_iff_getElem?.2 hrow, ?_⟩
    simp only [hd, Option.bind_some, if_pos hcond]
    rfl

theorem dueAdvances_nodup (horizon : Day) (locked : List ℕ) (σ : Store) :
    (dueAdvances horizon locked σ).Nodup := by
  refine List.Nodup.of_map (fun k => (ofLex k).2) (nodup_places ?_ σ.advances)
  rintro ⟨a, id⟩ k hk
  obtain ⟨d, -, hif⟩ := Option.bind_eq_some_iff.1 hk
  split_ifs at hif
  obtain rfl := Option.some.inj hif
  rfl

/-- The flip touches neither the outbox nor what the sweep asks of an advance. -/
theorem flipOverdue_eq_ok (beat : Beat) (id : ℕ) (a : CashAdvance) (remaining : ℤ) :
    ∃ beat', flipOverdue id a remaining beat = .ok beat' ∧ beat'.nudged = beat.nudged ∧
      beat'.board.outbox = beat.board.outbox ∧ beat'.board.promises = beat.board.promises ∧
      beat'.board.store.dues = beat.board.store.dues := by
  unfold flipOverdue
  split_ifs with hpast
  · refine ⟨_, rfl, rfl, rfl, rfl, ?_⟩
    refine map_modify_of_eq (fun row => ?_) _ _
    split_ifs with hopen
    · rcases hopen with h | h <;> simp [CashAdvance.due, CashAdvance.unliquidated, h]
    · rfl
  · exact ⟨beat, rfl, rfl, rfl, rfl, rfl⟩

theorem liquidationBody_subject (a : CashAdvance) (rung : Rung) (remaining : ℤ)
    (note : Option String) : (liquidationBody a rung remaining note).1 ≠ "" := by
  have hne : ∀ s t : String, s ≠ "" → s ++ t ≠ "" := by
    intro s t hs h
    exact hs (String.append_eq_empty_iff.1 h).1
  have hkept : ∀ (c : Prop) [Decidable c] (subject body noted : String), subject ≠ "" →
      (if c then (subject, noted) else (subject, body)).1 ≠ "" := by
    intro c _ subject body noted h
    split_ifs <;> exact h
  cases note with
  | none =>
      cases rung with
      | overdue k => exact hne _ _ (by decide)
      | d0 => exact hne _ _ (by decide)
      | d3 => exact hne _ _ (hne _ _ (by decide))
      | d7 => exact hne _ _ (hne _ _ (by decide))
  | some text =>
      cases rung with
      | overdue k => exact hkept _ _ _ _ (hne _ _ (by decide))
      | d0 => exact hkept _ _ _ _ (hne _ _ (by decide))
      | d3 => exact hkept _ _ _ _ (hne _ _ (hne _ _ (by decide)))
      | d7 => exact hkept _ _ _ _ (hne _ _ (hne _ _ (by decide)))

/-- The keys the nudges of a rung go out under. -/
def nudgeKeys (id : ℕ) (rung : Rung) (address : Option String) : List String :=
  liquidationDedupKey id rung .inApp ::
    ((emailAddress rung address).map fun _ => liquidationDedupKey id rung .email).toList

theorem sendLiquidationNudge_eq_ok (room : MailRoom) (owner : ℕ) (rung : Rung)
    (address : Option String) {text : String × String}
    (hb : BoardOk b) (hgrown : Grown b₀ b) (hdue : ∃ f ∈ b₀.store.dues[id]?, f.2.1 = some deadline)
    (htext : text.1 ≠ "") :
    ∃ b' written, sendLiquidationNudge room id deadline owner address rung text b =
        .ok (b', written) ∧ BoardOk b' ∧ Grown b₀ b' ∧ (∃ rows, b'.outbox = b.outbox ++ rows) ∧
      (∀ key ∈ nudgeKeys id rung address, alreadySent b'.outbox key = true) ∧
      ((∀ key ∈ nudgeKeys id rung address, alreadySent b.outbox key = true) →
        b' = b ∧ written = 0) := by
  obtain ⟨b₁, w₁, hpost₁, hposted₁⟩ := post_eq_ok room deadline
    (inAppNudge id owner rung text) hb rfl
  have hok₁ := hposted₁.boardOk hb rfl rfl rfl
  have hgrown₁ := hgrown.post hposted₁ rfl hdue
  have hsent₁ := hposted₁.alreadySent rfl
  rw [sendLiquidationNudge, hpost₁, ok_bind]
  cases haddress : emailAddress rung address with
  | none =>
      refine ⟨b₁, w₁, rfl, hok₁, hgrown₁, hposted₁.extends, ?_, fun hall => ?_⟩
      · simpa [nudgeKeys, haddress] using hsent₁
      · exact hposted₁.idle (hall _ (by simp [nudgeKeys]))
  | some to' =>
      have hemail : emailNudge id owner rung to' text = .ok {
          channel := .email
          email := some { toAddrs := [to'], subject := text.1, textBody := text.2 }
          about := nudgeMeta id owner rung .email } := by
        unfold emailNudge EmailMessage.checked
        rw [refuse_of_not _ (by simp), refuse_of_not _ htext]
        rfl
      obtain ⟨b₂, w₂, hpost₂, hposted₂⟩ := post_eq_ok room deadline {
          channel := .email
          email := some { toAddrs := [to'], subject := text.1, textBody := text.2 }
          about := nudgeMeta id owner rung .email } hok₁ rfl
      obtain ⟨rows₁, hrows₁⟩ := hposted₁.extends
      obtain ⟨rows₂, hrows₂⟩ := hposted₂.extends
      refine ⟨b₂, w₁ + w₂, ?_, hposted₂.boardOk hok₁ rfl rfl rfl,
        hgrown₁.post hposted₂ rfl hdue, ⟨rows₁ ++ rows₂, ?_⟩, ?_, fun hall => ?_⟩
      · simp only [hemail, hpost₂, ok_bind]
        rfl
      · rw [hrows₂, hrows₁, List.append_assoc]
      · intro key hkey
        rcases (by simpa [nudgeKeys, haddress] using hkey :
          key = liquidationDedupKey id rung .inApp ∨ key = liquidationDedupKey id rung .email) with
          rfl | rfl
        · rw [hrows₂]
          exact alreadySent_append hsent₁
        · exact hposted₂.alreadySent rfl
      · obtain ⟨rfl, rfl⟩ := hposted₁.idle (hall _ (by simp [nudgeKeys]))
        obtain ⟨rfl, rfl⟩ := hposted₂.idle (hall _ (by simp [nudgeKeys, haddress]))
        exact ⟨rfl, rfl⟩

/-- The nudges this advance gets on this day are out. -/
def Served (env : Env) (room : MailRoom) (every : ℤ) (today : Day) (σ : Store) (k : Day ×ₗ ℕ)
    (outbox : List NotificationOutbox) : Prop :=
  ∀ f user rung, σ.dues[(ofLex k).2]? = some f → ownerUser env f.1 = some user →
    rungAt env every (ofLex k).1 today = some rung →
      ∀ key ∈ nudgeKeys (ofLex k).2 rung (loginEmail room user.id), alreadySent outbox key = true

/-- The spec of one visit: it returns, serves its advance and appends nothing where that was done. -/
theorem remindAdvance_eq_ok {beat : Beat} {k : Day ×ₗ ℕ} {horizon : Day} {locked : List ℕ}
    (note : Option String) (hk : k ∈ dueAdvances horizon locked b₀.store)
    (hok : BoardOk beat.board) (hgrown : Grown b₀ beat.board) :
    ∃ beat', remindAdvance env room today every note k beat = .ok beat' ∧ BoardOk beat'.board ∧
      Grown b₀ beat'.board ∧ (∃ rows, beat'.board.outbox = beat.board.outbox ++ rows) ∧
      Served env room every today b₀.store k beat'.board.outbox ∧
      (Served env room every today b₀.store k beat.board.outbox →
        beat'.board.outbox = beat.board.outbox ∧ beat'.nudged = beat.nudged) := by
  obtain ⟨a₀, hrow₀, hdate, -⟩ := mem_dueAdvances.1 hk
  have hdue₀ : b₀.store.dues[(ofLex k).2]? = some a₀.due := by
    rw [Store.dues, List.getElem?_map, hrow₀]
    rfl
  have hdue := hdue₀
  rw [← hgrown.dues, Store.dues, List.getElem?_map, Option.map_eq_some_iff] at hdue
  obtain ⟨a, hrow, hsame⟩ := hdue
  have hclaimant : a.claimantId = a₀.claimantId := congrArg Prod.fst hsame
  obtain ⟨flipped, hflip, hnudged, houtbox, hpromises, hdues⟩ := flipOverdue_eq_ok
    { beat with checked := beat.checked + 1 } (ofLex k).2 a ((ofLex k).1 - today)
  have hokFlip : BoardOk flipped.board := hok.of_eq houtbox hpromises
  have hgrownFlip : Grown b₀ flipped.board := hgrown.of_eq hdues houtbox hpromises
  have hskip : (rungAt env every (ofLex k).1 today = none ∨
      ownerUser env a.claimantId = none) →
      Served env room every today b₀.store k flipped.board.outbox := by
    intro hnone f user rung hf huser hrung
    obtain rfl := Option.some.inj (hdue₀.symm.trans hf)
    rcases hnone with h | h
    · rw [h] at hrung
      cases hrung
    · rw [hclaimant] at h
      rw [CashAdvance.due, h] at huser
      cases huser
  unfold remindAdvance
  simp only [hrow, hflip, ok_bind]
  cases hrung : rungAt env every (ofLex k).1 today with
  | none =>
      exact ⟨flipped, rfl, hokFlip, hgrownFlip, ⟨[], by simp [houtbox]⟩, hskip (.inl hrung),
        fun _ => ⟨houtbox, hnudged⟩⟩
  | some rung =>
      cases howner : ownerUser env a.claimantId with
      | none =>
          exact ⟨flipped, rfl, hokFlip, hgrownFlip, ⟨[], by simp [houtbox]⟩, hskip (.inr howner),
            fun _ => ⟨houtbox, hnudged⟩⟩
      | some user =>
          obtain ⟨board, written, hsend, hokSend, hgrownSend, ⟨rows, hrows⟩, hsent, hidle⟩ :=
            sendLiquidationNudge_eq_ok room user.id rung (loginEmail room user.id) hokFlip hgrownFlip
              ⟨a₀.due, hdue₀, hdate⟩
              (liquidationBody_subject a rung ((ofLex k).1 - today) note)
          refine ⟨{ flipped with board := board, nudged := flipped.nudged + written }, ?_, hokSend,
            hgrownSend, ⟨rows, hrows.trans (by rw [houtbox])⟩, ?_, fun hserved => ?_⟩
          · simp only [hsend, ok_bind]
            rfl
          · intro f user' rung' hf huser' hrung'
            obtain rfl := Option.some.inj (hdue₀.symm.trans hf)
            rw [CashAdvance.due, ← hclaimant, howner] at huser'
            obtain rfl := Option.some.inj huser'
            obtain rfl := Option.some.inj (hrung.symm.trans hrung')
            exact hsent
          · rw [hclaimant] at howner
            have hall := hserved a₀.due user rung hdue₀ howner hrung
            rw [← houtbox] at hall
            obtain ⟨rfl, rfl⟩ := hidle hall
            exact ⟨houtbox, hnudged⟩

/-! ## A whole beat -/

theorem Served.extends {σ : Store} {k : Day ×ₗ ℕ} {outbox : List NotificationOutbox}
    (h : Served env room every today σ k outbox) (rows : List NotificationOutbox) :
    Served env room every today σ k (outbox ++ rows) := fun f user rung hf huser hrung key hkey =>
  alreadySent_append (h f user rung hf huser hrung key hkey)

theorem dueAdvances_congr {σ σ' : Store} (h : σ'.dues = σ.dues) (horizon : Day)
    (locked : List ℕ) : dueAdvances horizon locked σ' = dueAdvances horizon locked σ := by
  rw [dueAdvances_eq, dueAdvances_eq, h]

/-- The spec of a beat: it returns, appends rows only, serves every advance its budget covers, and
appends nothing where all of them were served. -/
theorem sweepLiquidationReminders_eq_ok (env : Env) (room : MailRoom) (r : LiquidationSweep)
    (hb : BoardOk b) :
    ∃ b' report, sweepLiquidationReminders env room r b = .ok (b', report) ∧ BoardOk b' ∧
      Grown b b' ∧
      ((dueAdvances (r.today env + ladderDays) r.locked b.store).length ≤ r.pageSize * r.maxPages →
        ∀ k ∈ dueAdvances (r.today env + ladderDays) r.locked b.store,
          Served env room (reminderEvery env (r.today env)) (r.today env) b.store k b'.outbox) ∧
      ((∀ k ∈ dueAdvances (r.today env + ladderDays) r.locked b.store,
          Served env room (reminderEvery env (r.today env)) (r.today env) b.store k b.outbox) →
        b'.outbox = b.outbox ∧ report.nudged = 0) := by
  set due := dueAdvances (r.today env + ladderDays) r.locked b.store with hdue
  let served := Served env room (reminderEvery env (r.today env)) (r.today env) b.store
  let kept : Beat → Prop := fun beat => BoardOk beat.board ∧ Grown b beat.board ∧
    ((∀ k ∈ due, served k b.outbox) → beat.board.outbox = b.outbox ∧ beat.nudged = 0)
  obtain ⟨beat, drained, hdrain, ⟨hok, hgrown, hquiet⟩, hserved⟩ :=
    drainPages_visit (ε := Raised) (I := kept)
      (Q := fun k (beat : Beat) => served k beat.board.outbox)
      (fun beat : Beat => dueAdvances (r.today env + ladderDays) r.locked beat.board.store)
      (remindAdvance env room (r.today env) (reminderEvery env (r.today env))
        (overdueNote env (r.today env)))
      due r.pageSize r.maxPages { board := b }
      (dueAdvances_nodup _ _ _)
      (fun beat hbeat => dueAdvances_congr hbeat.2.1.dues _ _)
      (fun k hk beat hbeat => by
        obtain ⟨hok, hgrown, hquiet⟩ := hbeat
        obtain ⟨beat', hstep, hok', hgrown', ⟨rows, hrows⟩, hserved, hidle⟩ :=
          remindAdvance_eq_ok (overdueNote env (r.today env)) hk hok hgrown
        refine ⟨beat', hstep, ⟨hok', hgrown', fun hall => ?_⟩, hserved, fun j hj => ?_⟩
        · obtain ⟨houtbox, hnudged⟩ := hquiet hall
          obtain ⟨houtbox', hnudged'⟩ := hidle (houtbox ▸ hall k hk)
          exact ⟨houtbox'.trans houtbox, hnudged'.trans hnudged⟩
        · rw [hrows]
          exact hj.extends rows)
      ⟨hb, Grown.refl b, fun _ => ⟨rfl, rfl⟩⟩
  refine ⟨beat.board, {
    checked := beat.checked
    nudged := beat.nudged
    flippedOverdue := beat.flipped
    drained := drained }, ?_, hok, hgrown, hserved, hquiet⟩
  rw [sweepLiquidationReminders]
  simp only [hdrain, ok_bind]
  rfl

end

/-! ## Histories -/

theorem mailCall_keeps {c : MailCall} {m m' : Mail} (h : c.step m = .ok m') :
    m'.row.channel = m.row.channel ∧ m'.row.about = m.row.about ∧
      m'.row.dedupKey = m.row.dedupKey := by
  cases c with
  | markDead error =>
      obtain rfl := Except.ok.inj h
      exact ⟨rfl, rfl, rfl⟩
  | dispatch send now locked =>
      obtain rfl := Except.ok.inj h
      unfold dispatchOutboxRow
      split_ifs
      · exact ⟨rfl, rfl, rfl⟩
      · exact ⟨rfl, rfl, rfl⟩
      · exact ⟨rfl, rfl, rfl⟩
      · cases hch : m.row.channel with
        | inApp => simp [hch]
        | email =>
            simp only [hch]
            split
            · exact ⟨hch, rfl, rfl⟩
            · split <;> exact ⟨rfl, rfl, rfl⟩

section

variable {b b' : Board}

theorem BoardOk.deliver {id : ℕ} {c : MailCall} (hb : BoardOk b) (h : b.deliver id c = .ok b') :
    BoardOk b' := by
  unfold Board.deliver at h
  split at h
  · obtain rfl := Except.ok.inj h
    exact hb
  · rename_i row hrow
    simp only [bind_eq_ok, refuse_eq_ok, pure_eq_ok] at h
    obtain ⟨mail, hmail, -, hnodup, rfl⟩ := h
    obtain ⟨hch, habout, hkey⟩ := mailCall_keeps hmail
    refine ⟨not_not.1 hnodup, fun n deadline hmem => ?_, fun n row' id' rung ch hrow' hkey' => ?_⟩
    · rw [List.length_set]
      exact hb.promised n deadline hmem
    · by_cases hn : id = n
      · subst hn
        rw [List.getElem?_set_self (List.getElem?_eq_some_iff.1 hrow).1] at hrow'
        obtain rfl := Option.some.inj hrow'
        rw [hch, habout]
        exact hb.keyed id row id' rung ch hrow (hkey ▸ hkey')
      · rw [List.getElem?_set_ne hn] at hrow'
        exact hb.keyed n row' id' rung ch hrow' hkey'

theorem BoardOk.step {c : BoardCall} (hb : BoardOk b) (h : c.step b = .ok b') : BoardOk b' := by
  cases c with
  | call c =>
      simp only [BoardCall.step, bind_eq_ok, pure_eq_ok] at h
      obtain ⟨store, -, rfl⟩ := h
      exact hb.of_eq rfl rfl
  | deliver id c => exact hb.deliver h
  | beat env room r =>
      obtain ⟨b'', report, hsweep, hok, -⟩ := sweepLiquidationReminders_eq_ok env room r hb
      obtain ⟨p, hp, rfl⟩ := map_eq_ok.1 h
      obtain rfl := Except.ok.inj (hsweep.symm.trans hp)
      exact hok

/-- The outbox of every history. -/
theorem run_boardOk (calls : List BoardCall) : BoardOk (run BoardCall.step {} calls) := by
  refine run_invariant (P := fun _ _ => True) (I := BoardOk)
    (fun _ _ _ _ hb hstep => hb.step hstep) calls {} ?_ (conforms_true _ _)
  exact ⟨List.nodup_nil, fun _ _ hmem => absurd hmem List.not_mem_nil, fun _ _ _ _ _ hrow => by
    cases hrow⟩

variable {env : Env} {room : MailRoom} {r : LiquidationSweep} {σ : Store} {id n : ℕ}
variable {deadline : Day} {rung : Rung}

theorem owed_iff : Owed env r σ id deadline ↔
    toLex (deadline, id) ∈ dueAdvances (r.today env + ladderDays) r.locked σ ∧
      ∃ f user, σ.dues[id]? = some f ∧ ownerUser env f.1 = some user := by
  rw [mem_dueAdvances]
  constructor
  · rintro ⟨⟨a, hrow, hopen, hdate, howner⟩, hnear, hfree⟩
    obtain ⟨user, huser⟩ := Option.isSome_iff_exists.1 howner
    refine ⟨⟨a, hrow, hdate, hopen, hnear, hfree⟩, a.due, user, ?_, huser⟩
    rw [Store.dues, List.getElem?_map, hrow]
    rfl
  · rintro ⟨⟨a, hrow, hdate, hopen, hnear, hfree⟩, f, user, hf, huser⟩
    refine ⟨⟨a, hrow, hopen, hdate, ?_⟩, hnear, hfree⟩
    have hrow' : σ.advances[id]? = some a := hrow
    rw [Store.dues, List.getElem?_map, hrow'] at hf
    obtain rfl := Option.some.inj hf
    exact Option.isSome_iff_exists.2 ⟨user, huser⟩

theorem owed_congr {σ' : Store} (h : σ'.dues = σ.dues) :
    Owed env r σ' id deadline ↔ Owed env r σ id deadline := by
  rw [owed_iff, owed_iff, dueAdvances_congr h, h]

theorem Grown.nudged (h : Grown b b') (hn : b.Nudged n id rung) : b'.Nudged n id rung := by
  obtain ⟨row, hrow, hrest⟩ := hn
  obtain ⟨rows, hrows⟩ := h.rows
  refine ⟨row, ?_, hrest⟩
  rw [hrows, List.getElem?_append_left (List.getElem?_eq_some_iff.1 hrow).1, hrow]

/-- A nudge that stood before the beat stands in the outbox as it was. -/
theorem Grown.nudged_old (h : Grown b b') (hn : b'.Nudged n id rung) (hlt : n < b.outbox.length) :
    b.Nudged n id rung := by
  obtain ⟨row, hrow, hrest⟩ := hn
  obtain ⟨rows, hrows⟩ := h.rows
  refine ⟨row, ?_, hrest⟩
  rw [hrows, List.getElem?_append_left hlt] at hrow
  exact hrow

/-- A nudge the beat wrote was written for the current deadline. -/
theorem Grown.nudged_new (h : Grown b b') (hn : b'.Nudged n id rung) (hge : b.outbox.length ≤ n)
    (howed : Owed env r b.store id deadline) : (n, deadline) ∈ b'.promises := by
  obtain ⟨row, hrow, -, -, -, hkey⟩ := hn
  obtain ⟨id', rung', ch', deadline', hkey', ⟨f, hf, hdate⟩, hmem⟩ := h.written n row hge hrow
  obtain ⟨rfl, -⟩ := liquidationDedupKey_inj (Option.some.inj (hkey.symm.trans hkey'))
  obtain ⟨a, ha, -, hcurrent, -⟩ := howed.advance
  rw [Store.dues, List.getElem?_map, ha] at hf
  obtain rfl := Option.some.inj hf
  rw [CashAdvance.due, hcurrent] at hdate
  obtain rfl := Option.some.inj hdate
  exact hmem

/-- After a beat the ladder speaks of the current deadlines exactly when nothing was in its way. -/
theorem warned_iff_sameDeadline (hb' : BoardOk b') (h : Grown b b')
    (hreached : Reached env r b') : Warned env r b' ↔ SameDeadline env r b := by
  constructor
  · intro hwarned id deadline rung n howed hrung hn
    obtain ⟨rung', m, hrung', hm, hmem⟩ := hwarned id deadline ((owed_congr h.dues).2 howed)
    obtain rfl := Option.some.inj (hrung.symm.trans hrung')
    obtain rfl := hb'.nudged_unique (h.nudged hn) hm
    obtain ⟨row, hrow, -⟩ := hn
    exact h.old n deadline (List.getElem?_eq_some_iff.1 hrow).1 hmem
  · intro hclear id deadline howed
    obtain ⟨rung, n, hrung, hn⟩ := hreached id deadline howed
    refine ⟨rung, n, hrung, hn, ?_⟩
    have howed₀ := (owed_congr h.dues).1 howed
    rcases lt_or_ge n b.outbox.length with hlt | hge
    · exact h.kept _ (hclear id deadline rung n howed₀ hrung (h.nudged_old hn hlt))
    · exact h.nudged_new hn hge howed₀

/-- In every history, a beat within its page budget returns, leaves every holder a live nudge for the
rung of the current deadline, and a further beat of the day writes no row; the nudge was written for
the current deadline exactly when no live nudge at that rung had been written for another one. -/
theorem beats_warn (calls : List BoardCall) (env : Env) (room : MailRoom) (r : LiquidationSweep)
    (hbudget : (dueAdvances (r.today env + ladderDays) r.locked
      (run BoardCall.step {} calls).store).length ≤ r.pageSize * r.maxPages) :
    ∃ b report, sweepLiquidationReminders env room r (run BoardCall.step {} calls) =
        .ok (b, report) ∧ Reached env r b ∧
      (Warned env r b ↔ SameDeadline env r (run BoardCall.step {} calls)) ∧ Quiet env r room b := by
  have hok := run_boardOk calls
  generalize run BoardCall.step {} calls = b₀ at hok hbudget
  obtain ⟨b, report, hsweep, hb, hgrown, hserved, -⟩ :=
    sweepLiquidationReminders_eq_ok env room r hok
  have hall := hserved hbudget
  have hreached : Reached env r b := by
    intro id deadline howed
    obtain ⟨rung, hrung⟩ := exists_rung howed.near
    obtain ⟨hdue, f, user, hf, huser⟩ := owed_iff.1 ((owed_congr hgrown.dues).1 howed)
    have hsent := hall _ hdue f user rung hf huser hrung _ List.mem_cons_self
    obtain ⟨n, hn⟩ := hb.nudged_iff.2 hsent
    exact ⟨rung, n, hrung, hn⟩
  refine ⟨b, report, hsweep, hreached, warned_iff_sameDeadline hb hgrown hreached, ?_⟩
  intro again hday hlocked
  obtain ⟨b', report', hsweep', -, -, -, hidle⟩ :=
    sweepLiquidationReminders_eq_ok env room again hb
  refine ⟨b', report', hsweep', hidle fun k hk => ?_⟩
  rw [hday] at hk ⊢
  have hk₀ : k ∈ dueAdvances (r.today env + ladderDays) r.locked b₀.store := by
    rw [← dueAdvances_congr hgrown.dues]
    obtain ⟨a, hrow, hdate, hopen, hnear, hfree⟩ := mem_dueAdvances.1 hk
    exact mem_dueAdvances.2 ⟨a, hrow, hdate, hopen, hnear, fun hmem => hfree (hlocked hmem)⟩
  have hk' := hall k hk₀
  rw [Served, ← hgrown.dues] at hk'
  exact hk'

end

/-! ## A re-dated advance -/

/-- The morning beat of a day. -/
def morning (day : Day) : LiquidationSweep := { now := some (manilaInstant day 7) }

/-- The traveller's advance, due thirty days after the return. -/
def issued : List BoardCall :=
  [.call { env := office, op := .createAdvance {
    claimantId := 1, amount := 2000, dateReturn := some 20454 } }]

/-- The first beat of an advance warns about its deadline. -/
theorem issued_warned : ∃ b report,
    sweepLiquidationReminders office {} (morning 20477) (run BoardCall.step {} issued) =
        .ok (b, report) ∧
      Warned office (morning 20477) b ∧ Quiet office (morning 20477) {} b := by
  obtain ⟨b, report, hsweep, -, hiff, hquiet⟩ :=
    beats_warn issued office {} (morning 20477) (by decide +kernel)
  refine ⟨b, report, hsweep, hiff.2 ?_, hquiet⟩
  rintro id deadline rung n - - ⟨row, hrow, -⟩
  have hnone : (run BoardCall.step {} issued).outbox = [] := by decide +kernel
  rw [hnone] at hrow
  cases hrow

/-- Seven days before the deadline the holder is warned; the trip is extended by twenty days, and
seven days before the new deadline the beat finds the old warning under its key. -/
def extended : List BoardCall := issued ++ [
  .beat office {} (morning 20477),
  .call { env := office, op := .updateAdvance {
    cashAdvanceId := 0, dateReturn := some (some 20474) } },
  .beat office {} (morning 20497)]

theorem extension_unwarned : ¬ Warned office (morning 20497) (run BoardCall.step {} extended) := by
  intro h
  obtain ⟨a, ha, htest⟩ := exists_eq_some (o := (run BoardCall.step {} extended).store.advances[0]?)
    (fun a => a.unliquidated ∧ a.deadlineDate = some 20504 ∧
      (ownerUser office a.claimantId).isSome) (by decide +kernel)
  have howed : Owed office (morning 20497) (run BoardCall.step {} extended).store 0 20504 :=
    ⟨⟨a, ha, by simpa using htest⟩, by decide, by decide⟩
  obtain ⟨rung, n, -, -, hmem⟩ := h 0 20504 howed
  have honly : (run BoardCall.step {} extended).promises = [(0, 20484)] := by decide +kernel
  rw [honly] at hmem
  simp at hmem

end OfficeConnect.Reimbursement
